/-
  What a lot records of its accounts: the inventory account its value is on, and the account
  its sale is owed to its consignor on (`_record_lot_account`, `_record_consignor_payable`).

  A recorded field (`RecordedField`) is named by an item's birth, by the events that record it
  where none is, and by those that move it, from the value they name.  `recorded log` is the
  value that the entries of a lot named last.

  * `ensures_recorded`: an event leaves the value it names, and any other event the value there
    is, where the data written to the field may only repeat it;
  * `custody`: after any run, what each item records is what its entries named last; a value was
    recorded only where none was, and moved only from the value recorded then.
-/
import Celerp.Events.Rebuilt
import Celerp.Inventory.KeptFields

namespace Celerp

open Json StoredItem EventLog Outcome

/-! ## The handlers of items -/

/-- The modules of items are there: items' own, and the one that syncs them. -/
structure Build.HandlesItems (U : Build) (T : Texts) : Prop extends U.Settled where
  items : ("item.", itemHandler T) ∈ U.handlers
  syncs : ("shop.sync.", applyShopSyncEvent) ∈ U.handlers

/-- The handler of the one prefix that an event type starts with. -/
theorem replayHandler_of_prefix {U : Build} (hU : U.Settled) {p eventType : String} {h : Handler}
    (hp : (p, h) ∈ U.handlers) (ht : startsWith eventType p = true)
    (hretired : Dicts.get? RETIRED_EVENTS eventType = none) (hkernel : startsWith eventType KERNEL_PREFIX = false) :
    U.replayHandler eventType = some h := by
  rw [Build.replayHandler, hretired]
  simp only [hkernel]
  cases hf : U.handlers.find? fun f => startsWith eventType f.1 with
  | none => exact absurd ht (by simpa using List.find?_eq_none.1 hf (p, h) hp)
  | some f =>
    have hfs : startsWith eventType f.1 = true := by simpa using List.find?_some hf
    obtain rfl := hU.apart f (List.mem_of_find?_eq_some hf) (p, h) hp (overlap_of_startsWith hfs ht)
    rfl

/-- Two texts that share a first character share no event type's prefix with another first one. -/
theorem startsWith_head {s p : String} {c d : Char} {cs ds : List Char} (hs : startsWith s p = true)
    (hp : p.toList = c :: cs) : ∀ q : String, q.toList = d :: ds → d ≠ c → startsWith s q = false := by
  intro q hq hne
  by_contra h
  rw [Bool.not_eq_false, startsWith_iff, hq] at h
  rw [startsWith_iff, hp] at hs
  obtain ⟨t, ht⟩ := hs
  obtain ⟨u, hu⟩ := h
  rw [← ht] at hu
  exact hne (List.cons.inj hu).1

theorem get?_retired_of_startsWith {s p : String} {c : Char} {cs : List Char} (hs : startsWith s p = true)
    (hp : p.toList = c :: cs) (hc : c ≠ 'b') : Dicts.get? RETIRED_EVENTS s = none := by
  refine Dicts.get?_eq_none.2 fun hmem => ?_
  have hb : ∀ t ∈ Dicts.keys RETIRED_EVENTS, ∃ ds, t.toList = 'b' :: ds := by
    intro t ht
    obtain rfl | rfl | rfl : t = "bom.created" ∨ t = "bom.updated" ∨ t = "bom.deleted" := by
      simpa [Dicts.keys, RETIRED_EVENTS] using ht
    · exact ⟨_, rfl⟩
    · exact ⟨_, rfl⟩
    · exact ⟨_, rfl⟩
  obtain ⟨ds, hds⟩ := hb s hmem
  rw [startsWith_iff, hp, hds] at hs
  obtain ⟨t, ht⟩ := hs
  exact hc (List.cons.inj ht).1

section
variable {T : Texts} {B U : Build} {state data next : Dict} {eventType : String}

/-- An item event is applied by the items' handler. -/
theorem apply_item (hU : U.HandlesItems T) (hB : B.Under U) (ht : startsWith eventType "item." = true)
    (h : B.apply state eventType data = .ok next) : itemHandler T state eventType data = .ok next := by
  have hhandler : U.replayHandler eventType = some (itemHandler T) :=
    replayHandler_of_prefix hU.toSettled hU.items ht (get?_retired_of_startsWith ht rfl (by decide))
      (startsWith_head ht rfl KERNEL_PREFIX rfl (by decide))
  rw [apply_of_under hU.toSettled hB (replayable_of_apply h), Build.apply, hhandler] at h
  exact h

/-- A sync event is applied by its own. -/
theorem apply_shopSync (hU : U.HandlesItems T) (hB : B.Under U)
    (ht : eventType = "shop.sync.enabled" ∨ eventType = "shop.sync.disabled")
    (h : B.apply state eventType data = .ok next) : ∃ v, next = Dicts.set state "is_sync_to_shopify" v := by
  have hs : startsWith eventType "shop.sync." = true := by rcases ht with rfl | rfl <;> decide
  have hkernel : startsWith eventType KERNEL_PREFIX = false := by rcases ht with rfl | rfl <;> decide
  have hhandler : U.replayHandler eventType = some applyShopSyncEvent :=
    replayHandler_of_prefix hU.toSettled hU.syncs hs (get?_retired_of_startsWith hs rfl (by decide)) hkernel
  rw [apply_of_under hU.toSettled hB (replayable_of_apply h), Build.apply, hhandler] at h
  unfold applyShopSyncEvent at h
  rcases ht with rfl | rfl
  · exact ⟨_, (Except.ok.inj h).symm⟩
  · exact ⟨_, (Except.ok.inj h).symm⟩

end

/-! ## Recorded fields -/

/-- A field that names an account: the events that record it where there is none, and those that
    move it. -/
structure RecordedField where
  field : String
  recorders : List String
  movers : List String

/-- The inventory account of a lot. -/
def accountField : RecordedField := ⟨LOT_ACCOUNT_FIELD, [RECORDED, BOUGHT], [MOVED]⟩

/-- The account a lot's sale is owed to its consignor on. -/
def payableField : RecordedField := ⟨CONSIGNOR_PAYABLE_FIELD, [PAYABLE_RECORDED], []⟩

/-- The account a value names, if it names one. -/
def accountIn : Json → Option String
  | .str s => if s = "" then none else some s
  | _ => none

/-- A value that is a text, or none. -/
def IsText (v : Json) : Prop := v = .null ∨ ∃ s, v = .str s

namespace RecordedField
variable (F : RecordedField)

/-- Whether an event names the value of the field. -/
def names (eventType : String) : Bool := eventType ∈ ITEM_BIRTHS || eventType ∈ F.recorders || eventType ∈ F.movers

/-- What an entry leaves recorded. -/
def after (recorded : Option String) (e : LedgerEntry) : Option String :=
  if F.names e.eventType then accountIn (get e.data F.field) else recorded

/-- What the entries of a lot leave recorded. -/
def recorded (log : List LedgerEntry) : Option String := log.foldl F.after none

/-- Each value was recorded where there was none, or moved from the one there was. -/
def Chained (log : List LedgerEntry) : Prop :=
  ∀ before e later, log = before ++ e :: later →
    (e.eventType ∈ F.recorders → F.recorded before = none) ∧
      (e.eventType ∈ F.movers → ∃ a, F.recorded before = some a ∧ get e.data "from_account" = .str a)

/-- What the writers of items hold to: dictionaries name each key once, an account is a text, a
    price is set under another name, an edit that changes the field does not name it beside its
    changes, and the events of items are items' own.  The engine does not check the last three:
    a price may be set under any name, and is written unguarded. -/
structure Written (eventType : String) (data : Dict) : Prop where
  distinct : (Dicts.keys data).Nodup
  changes : ∀ fields, Dicts.get? data "fields_changed" = some (.obj fields) → (Dicts.keys fields).Nodup
  text : F.names eventType = true → IsText (get data F.field)
  price : eventType = "item.pricing.set" → ∃ key, Dicts.get? data "price_type" = some (.str key) ∧ key ≠ F.field
  edit : eventType = "item.updated" → ∀ fields, Dicts.get? data "fields_changed" = some (.obj fields) →
    F.field ∈ Dicts.keys fields → Dicts.get? data F.field = none
  own : startsWith eventType "item." = true ∨ eventType = "shop.sync.enabled" ∨ eventType = "shop.sync.disabled"

end RecordedField

section
variable {v w : Json} {s : String}

theorem eq_of_same_str (h : same v (.str s) = true) : v = .str s := by
  cases v with
  | str t =>
    simp only [same, decide_eq_true_eq] at h
    rw [h]
  | _ => simp [same, isNull, number?] at h

theorem eq_of_str_same (h : same (.str s) v = true) : v = .str s := by
  cases v with
  | str t =>
    simp only [same, decide_eq_true_eq] at h
    rw [h]
  | _ => simp [same] at h

theorem eq_of_same_null (h : same v .null = true) : v = .null := by
  cases v with
  | null => rfl
  | _ => simp [same, number?] at h

/-- What equals a text, or none, is it. -/
theorem IsText.eq_of_same (hw : IsText w) (h : same v w = true) : v = w := by
  rcases hw with rfl | ⟨s, rfl⟩
  · exact eq_of_same_null h
  · exact eq_of_same_str h

theorem accountIn_eq_none (hv : IsText v) : accountIn v = none ↔ v.truthy = false := by
  rcases hv with rfl | ⟨s, rfl⟩
  · exact iff_of_true rfl rfl
  · by_cases hs : s = "" <;> simp [accountIn, truthy, hs]

theorem accountIn_of_truthy (hv : IsText v) (h : v.truthy = true) : ∃ s, v = .str s ∧ accountIn v = some s := by
  rcases hv with rfl | ⟨s, rfl⟩
  · cases h
  · have hs : s ≠ "" := by simpa [truthy] using h
    exact ⟨s, rfl, if_neg hs⟩

/-- A blank value names no account. -/
theorem accountIn_of_isBlank (h : v.isBlank = true) : accountIn v = none := by
  cases v with
  | str s =>
    have hs : s = "" := by simpa [isBlank] using h
    exact if_pos hs
  | _ => rfl

end

/-! ## What an event leaves recorded -/

/-- The two recorded fields. -/
def RECORDED_FIELDS : List RecordedField := [accountField, payableField]

theorem namedField_of_recorded {F : RecordedField} (hF : F ∈ RECORDED_FIELDS) : NamedField F.field := by
  obtain rfl | rfl : F = accountField ∨ F = payableField := by simpa [RECORDED_FIELDS] using hF
  · exact ⟨by decide, by decide⟩
  · exact ⟨by decide, by decide⟩

section
variable {T : Texts} {F : RecordedField} {current state data : Dict} {type : EventType}

/-- A value the data must have. -/
theorem ensures_item {key : String} : Ensures (item data key) fun v => Dicts.get? data key = some v := by
  unfold item
  cases Dicts.get? data key with
  | none => exact ensures_error
  | some v => exact ensures_ok.2 rfl

theorem ensures_account_get? {field : String} :
    Ensures (applyInventoryAccount current data) fun d =>
      Dicts.get? d field = if field = LOT_ACCOUNT_FIELD then Dicts.get? data field else Dicts.get? current field := by
  refine ensures_item.bind fun account haccount => ensures_ok.2 ?_
  rw [Dicts.get?_set]
  split_ifs with hk
  · rw [hk, haccount]
  · rfl

theorem ensures_payable_get? {field : String} (hne : field ≠ CONSIGNOR_FIELD) :
    Ensures (applyConsignorPayable current data) fun d =>
      Dicts.get? d field =
        if field = CONSIGNOR_PAYABLE_FIELD then Dicts.get? data field else Dicts.get? current field := by
  refine ensures_item.bind fun payable hpayable => .after fun consignor => ensures_ok.2 ?_
  rw [Dicts.get?_set, if_neg hne, Dicts.get?_set]
  split_ifs with hk
  · rw [hk, hpayable]
  · rfl

theorem ensures_bought_get? {field : String} (hf : NamedField field) :
    Ensures (applyConsignmentBought T current data) fun d =>
      Dicts.get? d field = if field = LOT_ACCOUNT_FIELD then Dicts.get? data field else Dicts.get? current field := by
  have hold := hf.get? (Dicts.get? current field)
  have hflag : Dicts.get? (Dicts.set current "consignment_flag" .null) field = Dicts.get? current field :=
    hold.set (by decide) rfl
  refine .after fun docId => ensures_item.bind fun account haccount => .after fun total => .after fun base => ?_
  have hdoc : Dicts.get? (if same (get (Dicts.set current "consignment_flag" .null) "status_doc_id") docId then
      Dicts.pop (Dicts.pop (Dicts.set current "consignment_flag" .null) "status_doc_id") "status_doc_number"
      else Dicts.set current "consignment_flag" .null) field = Dicts.get? current field := by
    split_ifs
    · exact hold.pop (by decide) (hold.pop (by decide) hflag)
    · exact hflag
  have hC := hf.get? (if field = LOT_ACCOUNT_FIELD then Dicts.get? data field else Dicts.get? current field)
  refine hC.recomputeCost (hC.pop (by decide) (hC.set (by decide) ?_))
  rw [Dicts.get?_set, hdoc]
  split_ifs with hk
  · rw [hk, haccount]
  · rfl

/-- Data that writes nothing else to a field leaves what it is. -/
theorem get_of_keepsField {field : String} {previous : Dict} {e : EmitRefusal} {written : Json}
    (h : keepsField (some previous) data field e = .ok ()) (htext : IsText (get previous field))
    (hwritten : writtenField data field = some written) : written = get previous field := by
  unfold keepsField at h
  rw [hwritten] at h
  simp only [Option.getD_some] at h
  split_ifs at h with hsame
  exact htext.eq_of_same hsame

/-- What a lot records, as a text or none. -/
def Records (F : RecordedField) (recorded : Option String) (d : Dict) : Prop :=
  IsText (Json.get d F.field) ∧ accountIn (Json.get d F.field) = recorded

/-- The events that name no other field name no account. -/
theorem names_of_handled (hF : F ∈ RECORDED_FIELDS) (htype : type.Handled) (hsupported : ∀ t, type ≠ .unsupported t) :
    F.names type.name = false := by
  obtain rfl | rfl : F = accountField ∨ F = payableField := by simpa [RECORDED_FIELDS] using hF
  · cases type <;> first | exact htype.elim | exact absurd rfl (hsupported _) | decide
  · cases type <;> first | exact htype.elim | exact absurd rfl (hsupported _) | decide

/-- What is as it was records what it did. -/
theorem Records.of_get? {recorded : Option String} {d d' : Dict} (h : Records F recorded d)
    (hget : Dicts.get? d' F.field = Dicts.get? d F.field) : Records F recorded d' := by
  unfold Records Json.get at h ⊢
  rwa [hget]

/-- A field written only as it is records what it did. -/
theorem Records.of_written {recorded : Option String} {d d' : Dict} (h : Records F recorded d) {written : Json}
    (hsame : written = Json.get d F.field) (hget : Dicts.get? d' F.field = some written) : Records F recorded d' := by
  rw [Records, Json.get, hget, Option.getD_some, hsame]
  exact h

/-- An edit that may write a field only as it is leaves recorded what is. -/
theorem ensures_updated_records (hF : F ∈ RECORDED_FIELDS) {recorded : Option String} {e : EmitRefusal}
    (hstate : Records F recorded state) (hcurrent : Dicts.get? current F.field = Dicts.get? state F.field)
    (hedit : ∀ fields, Dicts.get? data "fields_changed" = some (.obj fields) → F.field ∈ Dicts.keys fields →
      Dicts.get? data F.field = none)
    (hfields : ∀ fields, Dicts.get? data "fields_changed" = some (.obj fields) → (Dicts.keys fields).Nodup)
    (hkeep : keepsField (some state) data F.field e = .ok ()) :
    Ensures (applyUpdated T current data) (Records F recorded) := by
  cases hchanged : Dicts.get? data "fields_changed" with
  | none =>
    unfold applyUpdated item
    rw [hchanged]
    exact ensures_error
  | some v =>
    intro d h
    have hobj : ∃ fields, v = .obj fields := by
      obtain ⟨changed, hitem, h⟩ := bind_eq_ok.1 h
      obtain ⟨fields, hfields, -⟩ := bind_eq_ok.1 h
      rw [item, hchanged] at hitem
      cases hitem
      exact ⟨fields, ensures_fieldsOf fields hfields⟩
    obtain ⟨fields, rfl⟩ := hobj
    have hleft := ensures_updated_get? (namedField_of_recorded hF) hchanged (hfields fields hchanged) d h
    cases hchange : Dicts.get? fields F.field with
    | none =>
      rw [hchange] at hleft
      exact hstate.of_get? (Eq.trans hleft hcurrent)
    | some change =>
      rw [hchange] at hleft
      obtain ⟨c, rfl, hset⟩ := hleft
      have hkey : F.field ∈ Dicts.keys fields := by
        by_contra hk
        rw [Dicts.get?_eq_none.2 hk] at hchange
        cases hchange
      have hnone := hedit fields hchanged hkey
      have hwritten : writtenField data F.field = some (Json.get c "new") := by
        simp only [writtenField, hnone, Json.get, hchanged, hchange, Option.getD_some]
      have hsame := get_of_keepsField hkeep hstate.1 hwritten
      unfold changedTo at hset
      split_ifs at hset with hblank
      · -- left blank: it named no account
        refine ⟨.inl (by rw [Json.get, hset]; rfl), ?_⟩
        rw [← hstate.2, ← hsame, accountIn_of_isBlank hblank, Json.get, hset]
        rfl
      · exact hstate.of_written hsame hset

/-- A value named, or the one there was. -/
theorem records_of_merged {recorded : Option String} {d : Dict} {e : EmitRefusal} (hstate : Records F recorded state)
    (hkeep : keepsField (some state) data F.field e = .ok ())
    (hget : Dicts.get? d F.field = (Dicts.get? data F.field).or (Dicts.get? state F.field)) : Records F recorded d := by
  cases hdata : Dicts.get? data F.field with
  | none =>
    rw [hdata] at hget
    exact hstate.of_get? hget
  | some written =>
    rw [hdata] at hget
    have hwritten : writtenField data F.field = some written := by rw [writtenField, hdata]
    exact hstate.of_written (get_of_keepsField hkeep hstate.1 hwritten) hget

/-- What the events that name an account leave of the other field, and of their own. -/
theorem ensures_named_get? (hF : F ∈ RECORDED_FIELDS)
    (htype : type ∈ [EventType.inventoryAccountRecorded, .inventoryAccountMoved, .consignorPayableRecorded,
      .consignmentBought]) :
    Ensures (applyTyped T current data type) fun d =>
      Dicts.get? d F.field = if F.names type.name then Dicts.get? data F.field else Dicts.get? current F.field := by
  have hf := namedField_of_recorded hF
  obtain rfl | rfl : F = accountField ∨ F = payableField := by simpa [RECORDED_FIELDS] using hF
  · obtain rfl | rfl | rfl | rfl : type = .inventoryAccountRecorded ∨ type = .inventoryAccountMoved ∨
        type = .consignorPayableRecorded ∨ type = .consignmentBought := by simpa using htype
    · exact ensures_account_get?
    · exact ensures_account_get?
    · exact ensures_payable_get? (by decide)
    · exact ensures_bought_get? hf
  · obtain rfl | rfl | rfl | rfl : type = .inventoryAccountRecorded ∨ type = .inventoryAccountMoved ∨
        type = .consignorPayableRecorded ∨ type = .consignmentBought := by simpa using htype
    · exact ensures_account_get?
    · exact ensures_account_get?
    · exact ensures_payable_get? (by decide)
    · exact ensures_bought_get? hf

/-- **What a typed event leaves recorded**: the value it names, or the one there is. -/
theorem ensures_typed_records (hF : F ∈ RECORDED_FIELDS) {recorded : Option String} (hstate : Records F recorded state)
    (hcurrent : Dicts.get? current F.field = Dicts.get? state F.field) (hw : F.Written type.name data)
    (hbirth : type.name ∈ ITEM_BIRTHS → state = [])
    (hkeep : F.names type.name = false → ∃ e, keepsField (some state) data F.field e = .ok ()) :
    Ensures (applyTyped T current data type)
      (Records F (if F.names type.name then accountIn (Json.get data F.field) else recorded)) := by
  have hf := namedField_of_recorded hF
  have hbirths (hb : type.name ∈ ITEM_BIRTHS) (d : Dict)
      (hd : Dicts.get? d F.field = (Dicts.get? data F.field).or (Dicts.get? current F.field)) :
      Records F (if F.names type.name then accountIn (Json.get data F.field) else recorded) d := by
    have hnames : F.names type.name = true := by simp [RecordedField.names, hb]
    have hnone : Dicts.get? current F.field = none := by
      rw [hcurrent, hbirth hb]
      rfl
    rw [hnone, Option.or_none] at hd
    rw [if_pos hnames, Records, Json.get, hd]
    exact ⟨hw.text hnames, rfl⟩
  have hnamed (htype : type ∈ [EventType.inventoryAccountRecorded, .inventoryAccountMoved, .consignorPayableRecorded,
      .consignmentBought]) : Ensures (applyTyped T current data type)
        (Records F (if F.names type.name then accountIn (Json.get data F.field) else recorded)) := by
    refine (ensures_named_get? hF htype).mono fun d hd => ?_
    split_ifs at hd ⊢ with hnames
    · rw [Records, Json.get, hd]
      exact ⟨hw.text hnames, rfl⟩
    · exact hstate.of_get? (hd.trans hcurrent)
  cases htype : type with
  | created =>
    subst htype
    exact (ensures_created_get? hf hw.distinct).mono (hbirths (by decide))
  | snapshot =>
    subst htype
    exact (ensures_created_get? hf hw.distinct).mono (hbirths (by decide))
  | inventoryAccountRecorded => exact htype ▸ hnamed (by simp [htype])
  | inventoryAccountMoved => exact htype ▸ hnamed (by simp [htype])
  | consignorPayableRecorded => exact htype ▸ hnamed (by simp [htype])
  | consignmentBought => exact htype ▸ hnamed (by simp [htype])
  | unsupported eventType => exact ensures_error
  | updated =>
    subst htype
    have hnames : F.names EventType.updated.name = false := by
      obtain rfl | rfl : F = accountField ∨ F = payableField := by simpa [RECORDED_FIELDS] using hF
      · decide
      · decide
    obtain ⟨e, he⟩ := hkeep hnames
    rw [hnames]
    exact ensures_updated_records hF hstate hcurrent (hw.edit rfl) hw.changes he
  | patched =>
    subst htype
    have hnames : F.names EventType.patched.name = false := by
      obtain rfl | rfl : F = accountField ∨ F = payableField := by simpa [RECORDED_FIELDS] using hF
      · decide
      · decide
    obtain ⟨e, he⟩ := hkeep hnames
    rw [hnames]
    refine (ensures_patched_get? hf hw.distinct).mono fun d hd => records_of_merged hstate he ?_
    rw [hd, hcurrent]
  | pricingSet =>
    subst htype
    have hnames : F.names EventType.pricingSet.name = false := by
      obtain rfl | rfl : F = accountField ∨ F = payableField := by simpa [RECORDED_FIELDS] using hF
      · decide
      · decide
    rw [hnames]
    exact (ensures_pricing_get? hf (hw.price rfl)).mono fun d hd => hstate.of_get? (hd.trans hcurrent)
  | _ =>
    all_goals
      have hsupported : ∀ eventType, type ≠ .unsupported eventType := fun eventType h => by
        rw [htype] at h
        cases h
      rw [← htype, names_of_handled hF (by rw [htype]; trivial) hsupported]
      have hC := hf.get? (Dicts.get? state F.field)
      exact (hC.applyTyped (by rw [htype]; trivial) hcurrent).mono fun d hd => hstate.of_get? hd

/-- **An event leaves recorded the value it names**, and the one there is where it names none. -/
theorem ensures_recorded (hF : F ∈ RECORDED_FIELDS) {recorded : Option String} (hstate : Records F recorded state)
    (hw : F.Written type.name data) (hbirth : type.name ∈ ITEM_BIRTHS → state = [])
    (hkeep : F.names type.name = false → ∃ e, keepsField (some state) data F.field e = .ok ()) :
    Ensures (StoredItem.applyItemEvent T state ⟨type, data⟩)
      (Records F (if F.names type.name then accountIn (Json.get data F.field) else recorded)) := by
  have hf := namedField_of_recorded hF
  have hC := hf.get? (Dicts.get? state F.field)
  refine Ensures.bind ((hC.landedPoolsFromUnits rfl).bind fun current hcurrent =>
    ensures_typed_records hF hstate hcurrent hw hbirth hkeep) fun d hd => ensures_ok.2 (hd.of_get? ?_)
  have hC := hf.get? (Dicts.get? d F.field)
  exact iteInduction (motive := fun d' => Dicts.get? d' F.field = Dicts.get? d F.field)
    (fun _ => hC.set (by decide) rfl) fun _ => hC.pop (by decide) rfl

end

/-! ## Custody -/

section
variable {T : Texts} {R : ColumnReadings} {B U : Build} {O : Surroundings} {V : Removals} {s s' : Store}
  {F : RecordedField}

/-- The account a birth takes from its source is written as an account is. -/
theorem RecordedField.Written.set_account {eventType : String} {data : Dict}
    (h : F.Written eventType data) (ht : eventType = "item.created") (code : String) :
    F.Written eventType (Dicts.set data LOT_ACCOUNT_FIELD (.str code)) where
  distinct := Dicts.nodup_keys_set h.distinct
  changes := fun fields hfields => by
    rw [Dicts.get?_set, if_neg (by decide)] at hfields
    exact h.changes fields hfields
  text := fun hnames => by
    rw [Json.get, Dicts.get?_set]
    split_ifs
    · exact .inr ⟨code, rfl⟩
    · exact h.text hnames
  price := fun hprice => by simp [ht] at hprice
  edit := fun hedit => by simp [ht] at hedit
  own := h.own

/-- A birth carries its data, or the account of its source with it. -/
theorem recordLotAccount_birth {source : Option String} {r : Request} {data data' : Dict}
    (hbirth : r.eventType ∈ ITEM_BIRTHS) (h : recordLotAccount T source r none data = .ok data') :
    data' = data ∨ r.eventType = "item.created" ∧ ∃ code, data' = Dicts.set data LOT_ACCOUNT_FIELD (.str code) := by
  unfold recordLotAccount at h
  rw [if_pos ⟨hbirth, rfl⟩] at h
  split_ifs at h with hsource
  · cases source with
    | none => exact .inl (Except.ok.inj h).symm
    | some code =>
      by_cases hcode : code ≠ ""
      · simp only [if_pos hcode] at h
        exact .inr ⟨hsource.1, code, (Except.ok.inj h).symm⟩
      · simp only [if_neg hcode] at h
        exact .inl (Except.ok.inj h).symm
  · exact .inl (Except.ok.inj h).symm

/-- What a change of an item is held to. -/
structure RecordedField.Held (F : RecordedField) (eventType : String) (previous data : Dict) : Prop where
  recorder : eventType ∈ F.recorders → (Json.get previous F.field).truthy = false
  mover : eventType ∈ F.movers → (Json.get previous F.field).truthy = true ∧
    same (Json.get previous F.field) (Json.get data "from_account") = true
  kept : F.names eventType = false → ∃ e, keepsField (some previous) data F.field e = .ok ()

theorem recordLotAccount_change {source : Option String} {r : Request} {previous data data' : Dict}
    (h : recordLotAccount T source r (some previous) data = .ok data') :
    data' = data ∧ accountField.Held r.eventType previous data := by
  unfold recordLotAccount at h
  rw [if_neg (by simp)] at h
  simp only [Option.getD_some] at h
  split_ifs at h with hrecorder htruthy hmoved hfrom
  · refine ⟨(Except.ok.inj h).symm, fun _ => Bool.not_eq_true _ ▸ htruthy, fun hm => ?_, fun hn => ?_⟩
    · rcases hrecorder with hr | hr <;> rw [hr] at hm <;> simp [accountField, RECORDED, BOUGHT, MOVED] at hm
    · rcases hrecorder with hr | hr <;> rw [hr] at hn <;> simp [RecordedField.names, accountField] at hn
  · rw [Bool.or_eq_true, not_or] at hfrom
    simp only [Bool.not_eq_true', Bool.not_eq_false] at hfrom
    refine ⟨(Except.ok.inj h).symm, fun hr => ?_, fun _ => hfrom, fun hn => ?_⟩
    · exact absurd (by simpa [accountField] using hr) hrecorder
    · rw [hmoved] at hn
      simp [RecordedField.names, accountField] at hn
  · obtain ⟨⟨⟩, hkeep, h⟩ := bind_eq_ok.1 h
    refine ⟨(Except.ok.inj h).symm, fun hr => absurd (by simpa [accountField] using hr) hrecorder,
      fun hm => absurd (by simpa [accountField] using hm) hmoved, fun _ => ⟨_, hkeep⟩⟩

theorem recordConsignorPayable_change {r : Request} {previous data : Dict}
    (h : recordConsignorPayable r (some previous) data = .ok ()) : payableField.Held r.eventType previous data := by
  rw [recordConsignorPayable, if_neg (by simp)] at h
  simp only [Option.getD_some] at h
  split_ifs at h with hrecorder htruthy
  · refine ⟨fun _ => Bool.not_eq_true _ ▸ htruthy, nofun, fun hn => ?_⟩
    rw [hrecorder] at hn
    simp [RecordedField.names, payableField] at hn
  · exact ⟨fun hr => absurd (by simpa [payableField] using hr) hrecorder, nofun, fun _ => ⟨_, h⟩⟩

/-- **What an item's change is held to**, of either field. -/
theorem held_of_guardItem (hF : F ∈ RECORDED_FIELDS) {r : Request} {previous data data' : Dict}
    (hprevious : s.itemState? r.companyId r.entityId = some previous) (h : guardItem T O s r data = .ok data') :
    data' = data ∧ F.Held r.eventType previous data := by
  unfold guardItem at h
  rw [hprevious] at h
  obtain ⟨⟨⟩, -, hlots⟩ := bind_eq_ok.1 h
  obtain ⟨data'', hlot, hpayables⟩ := bind_eq_ok.1 hlots
  obtain ⟨⟨⟩, hpayable, hdata⟩ := bind_eq_ok.1 hpayables
  obtain ⟨rfl, hheld⟩ := recordLotAccount_change hlot
  obtain rfl | rfl : F = accountField ∨ F = payableField := by simpa [RECORDED_FIELDS] using hF
  · exact ⟨(Except.ok.inj hdata).symm, hheld⟩
  · exact ⟨(Except.ok.inj hdata).symm, recordConsignorPayable_change hpayable⟩

/-- The data of an item's birth are written as they were prepared. -/
theorem written_of_guardItem {r : Request} {data data' : Dict}
    (hbirth : r.eventType ∈ ITEM_BIRTHS) (hprevious : s.itemState? r.companyId r.entityId = none)
    (hw : F.Written r.eventType data) (h : guardItem T O s r data = .ok data') : F.Written r.eventType data' := by
  unfold guardItem at h
  rw [hprevious] at h
  obtain ⟨⟨⟩, -, h⟩ := bind_eq_ok.1 h
  obtain ⟨data'', hlot, h⟩ := bind_eq_ok.1 h
  obtain ⟨⟨⟩, -, h⟩ := bind_eq_ok.1 h
  cases h
  rcases recordLotAccount_birth hbirth hlot with rfl | ⟨hcreated, code, rfl⟩
  · exact hw
  · exact hw.set_account hcreated code

namespace RecordedField

theorem recorded_append (F : RecordedField) (log : List LedgerEntry) (e : LedgerEntry) :
    F.recorded (log ++ [e]) = F.after (F.recorded log) e := by
  rw [recorded, List.foldl_append]
  rfl

theorem chained_nil {F : RecordedField} : F.Chained [] := fun _ _ _ h => by simp at h

/-- A history and one entry more. -/
theorem Chained.append {log : List LedgerEntry} {e : LedgerEntry} (h : F.Chained log)
    (hrecorder : e.eventType ∈ F.recorders → F.recorded log = none)
    (hmover : e.eventType ∈ F.movers → ∃ a, F.recorded log = some a ∧ Json.get e.data "from_account" = .str a) :
    F.Chained (log ++ [e]) := by
  intro before e' later heq
  rcases List.eq_nil_or_concat later with rfl | ⟨later, last, rfl⟩
  · obtain ⟨rfl, he⟩ := List.append_inj' heq rfl
    cases he
    exact ⟨hrecorder, hmover⟩
  · rw [List.concat_eq_append, ← List.cons_append, ← List.append_assoc] at heq
    exact h before e' later (List.append_inj_left' heq rfl)

end RecordedField

/-- The events that name an account do not sync. -/
theorem names_of_sync (hF : F ∈ RECORDED_FIELDS) {eventType : String}
    (h : eventType = "shop.sync.enabled" ∨ eventType = "shop.sync.disabled") : F.names eventType = false := by
  obtain rfl | rfl : F = accountField ∨ F = payableField := by simpa [RECORDED_FIELDS] using hF
  · rcases h with rfl | rfl <;> decide
  · rcases h with rfl | rfl <;> decide

/-- **What an item's event leaves recorded**, whichever handler applies it. -/
theorem records_of_apply (hU : U.HandlesItems T) (hB : B.Under U) (hF : F ∈ RECORDED_FIELDS) {eventType : String}
    {state data next : Dict} {recorded : Option String} (hstate : Records F recorded state)
    (hw : F.Written eventType data) (hbirth : eventType ∈ ITEM_BIRTHS → state = [])
    (hkeep : F.names eventType = false → ∃ e, keepsField (some state) data F.field e = .ok ())
    (h : B.apply state eventType data = .ok next) :
    Records F (if F.names eventType then accountIn (Json.get data F.field) else recorded) next := by
  rcases hw.own with hitem | hsync
  · have happ := apply_item hU hB hitem h
    rw [← name_itemEventType eventType] at hw hbirth hkeep ⊢
    exact ensures_recorded hF hstate hw hbirth hkeep next happ
  · obtain ⟨v, rfl⟩ := apply_shopSync hU hB hsync h
    rw [names_of_sync hF hsync]
    refine hstate.of_get? ?_
    rw [Dicts.get?_set, if_neg]
    obtain rfl | rfl : F = accountField ∨ F = payableField := by simpa [RECORDED_FIELDS] using hF
    · decide
    · decide

/-- An item records what its entries named last, each in its turn. -/
def AccountKept (F : RecordedField) (projection : Option Projection) (log : List LedgerEntry) : Prop :=
  LivedAs projection log ∧ ∀ p, projection = some p → p.entityType = "item" →
    Records F (F.recorded log) p.state ∧ F.Chained log

/-- The movers are no births, and neither are the recorders. -/
theorem not_names_birth (hF : F ∈ RECORDED_FIELDS) {eventType : String} (hbirth : eventType ∈ ITEM_BIRTHS) :
    eventType ∉ F.movers := by
  have ht : eventType = "item.created" ∨ eventType = "item.snapshot" := by simpa [ITEM_BIRTHS] using hbirth
  obtain rfl | rfl : F = accountField ∨ F = payableField := by simpa [RECORDED_FIELDS] using hF
  · rcases ht with rfl | rfl <;> decide
  · rcases ht with rfl | rfl <;> decide

/-- **A write keeps what its item records.** -/
theorem Writes.kept (hU : U.HandlesItems T) (hB : B.Under U) (hF : F ∈ RECORDED_FIELDS)
    (hO : ∀ s r data, O.prepare s r = .ok data → r.entityType = "item" → F.Written r.eventType data)
    (hs : s.Each (AccountKept F)) {r : Request} {e : LedgerEntry} {t : Transition} {row : Projection}
    (h : Writes T R B O s r e t s') (hrow : writeRow R B (s.projection? r.companyId r.entityId) e = .ok row) :
    AccountKept F (some row) (s.ledger.filter (·.key = e.key) ++ [e]) := by
  refine ⟨h.livedAs (fun k => (hs k).1) hrow, fun p hp hitem => ?_⟩
  cases hp
  have htype : e.eventType = r.eventType := by rw [h.entry]
  have hkey := h.key_eq
  have hk : AccountKept F (s.projection? r.companyId r.entityId) (s.ledger.filter (·.key = e.key)) := by
    rw [hkey]
    exact hs (r.companyId, r.entityId)
  have hrowType := entityType_of_writeRow hrow
  have happ := apply_of_writeRow hrow
  obtain ⟨data, hprepared, hdata⟩ := h.guarded
  cases hprojection : s.projection? r.companyId r.entityId with
  | none =>
    -- born: it records what its birth names
    rw [hprojection] at hk hrowType happ
    have hr : r.entityType = "item" := by
      rw [← hitem, hrowType, recordType, h.entry]
    have hlog : s.ledger.filter (·.key = e.key) = [] := hk.1
    have hbirth : e.eventType ∈ ITEM_BIRTHS := (h.birth_iff hr).2 hprojection
    rw [if_pos hr] at hdata
    have hw := written_of_guardItem (htype ▸ hbirth) (by rw [Store.itemState?, hprojection])
      (hO s r data hprepared hr) hdata
    rw [hlog]
    constructor
    · rw [RecordedField.recorded_append]
      exact records_of_apply hU hB hF ⟨.inl rfl, rfl⟩ (htype ▸ hw) (fun _ => rfl) (fun hn => by
        simp [RecordedField.names, hbirth] at hn) happ
    · exact RecordedField.Chained.append RecordedField.chained_nil (fun _ => rfl) fun hm =>
        absurd hm (not_names_birth hF hbirth)
  | some q =>
    rw [hprojection] at hk hrowType happ
    have hq : q.entityType = "item" := by rw [← hitem, hrowType, recordType]
    have hr : r.entityType = "item" := by rw [← h.kind q hprojection, hq]
    have hnotbirth : e.eventType ∉ ITEM_BIRTHS := fun hbirth => by
      rw [(h.birth_iff hr).1 hbirth] at hprojection
      cases hprojection
    rw [if_pos hr] at hdata
    have hprevious : s.itemState? r.companyId r.entityId = some q.state := by
      rw [Store.itemState?, hprojection]
      exact if_pos hq
    obtain ⟨hsame, hheld⟩ := held_of_guardItem hF hprevious hdata
    rw [← hsame, ← htype] at hheld
    obtain ⟨hrecords, hchained⟩ := hk.2 q rfl hq
    refine ⟨?_, hchained.append (fun hm => ?_) fun hm => ?_⟩
    · rw [RecordedField.recorded_append]
      exact records_of_apply hU hB hF hrecords (by rw [htype, hsame]; exact hO s r data hprepared hr)
        (fun hbirth => absurd hbirth hnotbirth) hheld.kept happ
    · rw [← hrecords.2, accountIn_eq_none hrecords.1]
      exact hheld.recorder hm
    · obtain ⟨htruthy, hfrom⟩ := hheld.mover hm
      obtain ⟨a, ha, haccount⟩ := accountIn_of_truthy hrecords.1 htruthy
      rw [ha] at hfrom
      exact ⟨a, by rw [← hrecords.2, haccount], eq_of_str_same hfrom⟩

/-- **A lot's account and its consignor's payable are recorded once and moved only knowingly**:
    after any run an item records what its entries named last; a value was recorded only where
    none was, and moved only from the one recorded. -/
theorem custody (hU : U.HandlesItems T) (hF : F ∈ RECORDED_FIELDS)
    (hO : ∀ s r data, O.prepare s r = .ok data → r.entityType = "item" → F.Written r.eventType data)
    {build : Build} (hB : build.Under U) {ops : List LedgerOp} (hops : ∀ op ∈ ops, op.Under U)
    {companyId entityId : String} {p : Projection}
    (hp : (ops.foldl (Instance.step T R O V) ⟨{}, build⟩).store.projection? companyId entityId = some p)
    (hitem : p.entityType = "item") :
    let log := (ops.foldl (Instance.step T R O V) ⟨{}, build⟩).store.ledger.filter (·.key = (companyId, entityId))
    accountIn (Json.get p.state F.field) = F.recorded log ∧ F.Chained log := by
  intro log
  have hrun : (ops.foldl (Instance.step T R O V) ⟨{}, build⟩).store.Each (AccountKept F) :=
    each_run hU.toSettled ⟨rfl, nofun⟩ (fun hB hs hw hrow => hw.kept hU hB hF hO hs hrow) hB hops
  obtain ⟨hrecords, hchained⟩ := (hrun (companyId, entityId)).2 p hp hitem
  exact ⟨hrecords.2, hchained⟩

/-- Data of a lot's account alone. -/
def namesAccount (r : Request) : Bool :=
  (Dicts.keys r.data).Nodup && (Dicts.get? r.data "fields_changed").isNone && r.eventType ∈ ["item.created", MOVED] &&
    (match Json.get r.data LOT_ACCOUNT_FIELD with
    | .str _ => true
    | _ => false)

/-- Surroundings that take nothing but a lot's account. -/
def accountSurroundings : Surroundings :=
  ⟨fun _ r => if namesAccount r then .ok r.data else .error (.refused 422 "account"), fun _ => none,
    fun _ _ _ => .ok (), fun _ _ _ => .ok []⟩

theorem written_of_accountSurroundings (s : Store) (r : Request) (data : Dict)
    (h : accountSurroundings.prepare s r = .ok data) : accountField.Written r.eventType data := by
  simp only [accountSurroundings] at h
  split_ifs at h with hnames
  cases h
  rw [namesAccount, Bool.and_eq_true, Bool.and_eq_true, Bool.and_eq_true] at hnames
  obtain ⟨⟨⟨hdistinct, hchanged⟩, htype⟩, htext⟩ := hnames
  have htypes : r.eventType = "item.created" ∨ r.eventType = MOVED := by simpa using htype
  refine ⟨by simpa using hdistinct, fun fields hfields => ?_, fun _ => ?_, fun hprice => ?_, fun hedit => ?_, ?_⟩
  · rw [hfields] at hchanged
    cases hchanged
  · change IsText (Json.get r.data LOT_ACCOUNT_FIELD)
    revert htext
    cases Json.get r.data LOT_ACCOUNT_FIELD with
    | str code => exact fun _ => .inr ⟨code, rfl⟩
    | _ => nofun
  · rcases htypes with ht | ht <;> rw [ht] at hprice <;> exact absurd hprice (by decide)
  · rcases htypes with ht | ht <;> rw [ht] at hedit <;> exact absurd hedit (by decide)
  · rcases htypes with ht | ht <;> rw [ht] <;> exact .inl (by decide)

/-- A stone is entered on one account, moved to another, and not moved from the first again. -/
def stoneMoves : List LedgerOp :=
  [.emit 1 (stoneEvent "item.created" "a" [("sku", .str "S1"), (LOT_ACCOUNT_FIELD, .str "1200")]),
   .emit 1 (stoneEvent MOVED "b" [("from_account", .str "1200"), (LOT_ACCOUNT_FIELD, .str "1300")]),
   .emit 1 (stoneEvent MOVED "c" [("from_account", .str "1200"), (LOT_ACCOUNT_FIELD, .str "1400")])]

/-- The stone, on the second account. -/
def stoneState : Dict :=
  [("sku", .str "S1"), (LOT_ACCOUNT_FIELD, .str "1300"), ("status", .str "available"),
   ("inventory_type", .str "stocked"), ("purchase_conversion_factor", .num 1)]

theorem custody_stone :
    let w := stoneMoves.foldl (Instance.step plainTexts ⟨some, some⟩ accountSurroundings
      ⟨fun _ _ _ => [], fun _ _ _ => []⟩) ⟨{}, itemBuild⟩
    let log := w.store.ledger.filter (·.key = ("acme", "item:1"))
    w.store.projection? "acme" "item:1" = some ⟨"item", stoneState, 2, columnsOf ⟨some, some⟩ stoneState⟩ ∧
      accountIn (Json.get stoneState LOT_ACCOUNT_FIELD) = accountField.recorded log ∧ accountField.Chained log := by
  have hU : itemBuild.HandlesItems plainTexts := ⟨itemBuild_settled, by simp [itemBuild], by simp [itemBuild]⟩
  have hp : (stoneMoves.foldl (Instance.step plainTexts ⟨some, some⟩ accountSurroundings
      ⟨fun _ _ _ => [], fun _ _ _ => []⟩) ⟨{}, itemBuild⟩).store.projection? "acme" "item:1" =
        some ⟨"item", stoneState, 2, columnsOf ⟨some, some⟩ stoneState⟩ := rfl
  exact ⟨hp, custody hU (List.mem_cons_self) (fun s r data h _ => written_of_accountSurroundings s r data h)
    (fun _ => id) (by simp [stoneMoves, LedgerOp.Under]) hp rfl⟩

/-- Where a price is set under the account's own name, the stone names no account any more, and
    its entries still do. -/
example :
    let w := [LedgerOp.emit 1 (stoneEvent "item.created" "a" [("sku", .str "S1"), (LOT_ACCOUNT_FIELD, .str "1200")]),
      .emit 1 (stoneEvent "item.pricing.set" "b"
        [("price_type", .str LOT_ACCOUNT_FIELD), ("new_price", .num 1300)])].foldl
        (Instance.step plainTexts ⟨some, some⟩
          ⟨fun _ r => .ok r.data, fun _ => none, fun _ _ _ => .ok (), fun _ _ _ => .ok []⟩
          ⟨fun _ _ _ => [], fun _ _ _ => []⟩) ⟨{}, itemBuild⟩
    (w.store.projection? "acme" "item:1").map (fun p => Json.get p.state LOT_ACCOUNT_FIELD) = some (.num 1300) ∧
      accountField.recorded (w.store.ledger.filter (·.key = ("acme", "item:1"))) = some "1200" :=
  ⟨rfl, rfl⟩

end

end Celerp
