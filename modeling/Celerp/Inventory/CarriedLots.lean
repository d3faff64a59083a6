/-
  The books carry the lots to the cent (`celerp/services/lot_origin.py`).

  What an account carries of the lots is what those that record it hold, each rounded to the
  currency (`carriedOn`).

  * an event that names an account changes nothing that a lot holds (`ensures_account_kept`);
  * a lot's event, the stock brought in, samples taken out and lots moved post on each account
    what they change of it (`emitItem_spec`, `recognize_spec`, `deleteSamples_spec`,
    `moveLots_spec`);
  * `lots_carried`: over a run, an account's balance less what it carries stays what it was.
-/
import Celerp.Events.Custody
import Celerp.Inventory.LotLedger
import Celerp.Lib.Grouping
import Celerp.Lib.Holdings

namespace Celerp

open Json StoredItem Outcome Holdings AccountRole

/-! ## What a lot holds -/

/-- The fields that what a lot holds is read off. -/
def HELD_BY_FIELDS : List String :=
  ["status", ON_BOOKS_FIELD, "cost_total", "cost_price", "cost price", "quantity", "consignment_flag", "inventory_type"]

/-- A lot holds what another does. -/
def HoldsAs (before after : Dict) : Prop := ∀ k ∈ HELD_BY_FIELDS, Json.get after k = Json.get before k

/-- A state as events leave it: an account is a text, and what keeps retired stock is a flag. -/
structure SoundLot (state : Dict) : Prop where
  account : IsText (Json.get state LOT_ACCOUNT_FIELD)
  flag : Dicts.get? state ON_BOOKS_FIELD = none ∨ Dicts.get? state ON_BOOKS_FIELD = some (.bool true)

section
variable {T : Texts} {before after state : Dict} {currency : String}

theorem HoldsAs.inStock (h : HoldsAs before after) : inStock T after = inStock T before := by
  unfold StoredItem.inStock statusOf
  rw [h "status" (by decide), h ON_BOOKS_FIELD (by decide)]

theorem HoldsAs.storedStatus (h : HoldsAs before after) : storedStatus T after = storedStatus T before := by
  unfold Celerp.storedStatus
  rw [h "status" (by decide)]

theorem HoldsAs.recordedValue (h : HoldsAs before after) :
    StoredItem.recordedValue T after = StoredItem.recordedValue T before := by
  unfold StoredItem.recordedValue
  rw [h "cost_total" (by decide), h "cost_price" (by decide), h "cost price" (by decide), h "quantity" (by decide)]

theorem HoldsAs.ownedStock (h : HoldsAs before after) : StoredItem.ownedStock after = StoredItem.ownedStock before := by
  unfold StoredItem.ownedStock isConsigned StoredItem.isStockType
  rw [h "consignment_flag" (by decide), h "inventory_type" (by decide)]

theorem HoldsAs.heldValue (h : HoldsAs before after) :
    StoredItem.heldValue T after = StoredItem.heldValue T before := by
  unfold StoredItem.heldValue
  rw [h.inStock, h.ownedStock, h.recordedValue]

theorem recordedAccount_eq (h : IsText (Json.get state LOT_ACCOUNT_FIELD)) :
    recordedAccount T state = accountIn (Json.get state LOT_ACCOUNT_FIELD) := by
  unfold recordedAccount
  rcases h with h | ⟨s, h⟩ <;> rw [h]
  · rfl
  · by_cases hs : s = "" <;> simp [accountIn, truthy, text, hs]

theorem ne_of_accountIn {v : Json} {account : String} (h : accountIn v = some account) : account ≠ "" := by
  cases v with
  | str s =>
    simp only [accountIn] at h
    split_ifs at h with hs
    exact Option.some.inj h ▸ hs
  | _ => cases h

/-- What a lot's account carries of it; nothing where it cannot be read. -/
def carriedValue (T : Texts) (currency : String) (state : Dict) : ℚ :=
  match StoredItem.bookedValue T currency state with
  | .ok v => v
  | .error _ => 0

theorem carriedValue_of_held (currency : String) {held : Option ℚ} (h : StoredItem.heldValue T state = .ok held) :
    carriedValue T currency state = roundMoney (held.getD 0) currency := by
  rw [carriedValue, StoredItem.bookedValue, h]
  rfl

/-- Off the books, a lot carries nothing. -/
theorem carriedValue_of_not_inStock (h : inStock T state = false) : carriedValue T currency state = 0 := by
  have hheld : StoredItem.heldValue T state = .ok none := by
    rw [StoredItem.heldValue, h]
    rfl
  rw [carriedValue_of_held currency hheld]
  exact roundMoney_zero _

theorem HoldsAs.carriedValue (h : HoldsAs before after) :
    carriedValue T currency after = carriedValue T currency before := by
  unfold Celerp.carriedValue StoredItem.bookedValue
  rw [h.heldValue]

theorem not_inStock_of_draft (h : isDraft T state = true) : inStock T state = false := by
  have hs : statusOf T state = "draft" := of_decide_eq_true h
  rw [StoredItem.inStock, hs]
  rfl

theorem not_inStock_of_deleted (h : isDeleted T state = true) : inStock T state = false := by
  have hs : statusOf T state = DELETED := of_decide_eq_true h
  rw [StoredItem.inStock, hs]
  rfl

/-! ## Events that name an account -/

/-- What lots bring of units is made pools; no other field changes. -/
theorem ensures_landedPools_get? {field : String} (hunits : field ≠ "landed_contributions")
    (hpools : field ≠ "landed_costs") :
    Ensures (landedPoolsFromUnits T state) fun d => Dicts.get? d field = Dicts.get? state field := by
  have hpop : Dicts.get? (Dicts.pop state "landed_contributions") field = Dicts.get? state field := by
    rw [Dicts.get?_pop, if_neg hunits]
  refine .ite (fun _ => ensures_ok.2 hpop) fun _ => .after fun qty => .after fun pools => .after fun units =>
    .after fun pools => ensures_ok.2 ?_
  unfold putPools
  split_ifs
  · rw [Dicts.get?_pop, if_neg hpools, hpop]
  · rw [Dicts.get?_set, if_neg hpools, hpop]

/-- What an event leaves of the flag that keeps retired stock. -/
theorem flag_keepOnBooks {d : Dict} {e : Event} :
    Dicts.get? (keepOnBooks T state d e) ON_BOOKS_FIELD = none ∨
      Dicts.get? (keepOnBooks T state d e) ON_BOOKS_FIELD = some (.bool true) := by
  unfold keepOnBooks
  split_ifs
  · exact .inr (by rw [Dicts.get?_set, if_pos rfl])
  · exact .inl (by rw [Dicts.get?_pop, if_pos rfl])

/-- What the handler itself leaves of the fields a lot's value rests on. -/
theorem ensures_account_fields {data : Dict} {type : EventType}
    (htype : type = .inventoryAccountRecorded ∨ type = .inventoryAccountMoved) :
    Ensures (StoredItem.applyEvent T state ⟨type, data⟩)
      fun d => ∀ k ∈ HELD_BY_FIELDS, Dicts.get? d k = Dicts.get? state k := by
  have hfields (k : String) (hk : k ∈ HELD_BY_FIELDS) :
      k ≠ "landed_contributions" ∧ k ≠ "landed_costs" ∧ k ≠ LOT_ACCOUNT_FIELD := by
    revert hk
    revert k
    decide
  intro d h k hk
  obtain ⟨hunits, hpools, haccount⟩ := hfields k hk
  obtain ⟨current, hcurrent, h⟩ := bind_eq_ok.1 h
  have hsame := ensures_landedPools_get? hunits hpools current hcurrent
  have happ : applyInventoryAccount current data = .ok d := by
    rcases htype with rfl | rfl
    · exact h
    · exact h
  have hset : Dicts.get? d k = if k = LOT_ACCOUNT_FIELD then _ else _ := ensures_account_get? d happ
  rw [if_neg haccount] at hset
  exact hset.trans hsame

/-- **An event that names a lot's account changes nothing that the lot holds.** -/
theorem ensures_account_kept {data : Dict} {type : EventType}
    (htype : type = .inventoryAccountRecorded ∨ type = .inventoryAccountMoved)
    (hdata : Dicts.get? data ON_BOOKS_FIELD = none) (hs : SoundLot state) :
    Ensures (StoredItem.applyItemEvent T state ⟨type, data⟩) (HoldsAs state) := by
  refine (ensures_account_fields htype).bind fun d hd => ensures_ok.2 fun k hk => ?_
  have hstatus : statusOf T d = statusOf T state := by
    unfold statusOf Json.get
    rw [hd "status" (by decide)]
  by_cases hflag : k = ON_BOOKS_FIELD
  · -- the flag stays where the status does
    subst hflag
    have hown : keptOnBooks T state d ⟨type, data⟩ = (Json.get state ON_BOOKS_FIELD).truthy := by
      have hnull : Json.get data ON_BOOKS_FIELD = .null := by
        rw [Json.get, hdata]
        rfl
      rw [keptOnBooks, if_neg (by rcases htype with h | h <;> rw [h] <;> simp), hnull, hstatus]
      simp [StoredItem.isTrue]
    unfold keepOnBooks Json.get
    rw [hown]
    rcases hs.flag with hf | hf
    · rw [if_neg (by simp [Json.get, hf, truthy]), Dicts.get?_pop, if_pos rfl, hf]
    · rw [if_pos (by simp [Json.get, hf, truthy]), Dicts.get?_set, if_pos rfl, hf]
  · unfold keepOnBooks Json.get
    split_ifs
    · rw [Dicts.get?_set, if_neg hflag, hd k hk]
    · rw [Dicts.get?_pop, if_neg hflag, hd k hk]

end

/-! ## The books -/

/-- The account a lot records, and what that carries of it. -/
def lotHolding (T : Texts) (currency : String) : Holding String Dict ℚ := ⟨recordedAccount T, carriedValue T currency⟩

namespace LotLedger

/-- What an account carries of the lots. -/
def carriedOn (T : Texts) (currency : String) (b : LotLedger) (code : String) : ℚ :=
  carried (lotHolding T currency) code b.lots

/-- An account's balance less what it carries of the lots. -/
def apart (T : Texts) (currency : String) (b : LotLedger) (code : String) : ℚ :=
  net code b.lines - b.carriedOn T currency code

/-- Lots as events leave them, moved between accounts that have codes. -/
structure Sound (b : LotLedger) : Prop where
  lots : ∀ id state, Dicts.get? b.lots id = some state → SoundLot state
  moves : ∀ id done, Dicts.get? b.moves id = some done → ∀ m ∈ done.2, m.fromAccount ≠ "" ∧ m.toAccount ≠ ""

end LotLedger

section
variable {T : Texts} {B U : Build} {S : StockRules} {b b' : LotLedger} {r : Request} {t : Transition}
  {code currency : String}

theorem LotLedger.Sound.setLot (hb : b.Sound) (id : String) {state : Dict} (h : SoundLot state) :
    (b.setLot id state).Sound where
  lots := fun id' state' hget => by
    have hset : (if id' = id then some state else Dicts.get? b.lots id') = some state' := Dicts.get?_set.symm.trans hget
    split_ifs at hset with hid
    · exact Option.some.inj hset ▸ h
    · exact hb.lots id' state' hset
  moves := hb.moves

theorem LotLedger.carriedOn_setLot {id : String} {state : Dict} : (b.setLot id state).carriedOn T currency code =
    b.carriedOn T currency code - (Dicts.get? b.lots id).elim 0 ((lotHolding T currency).share code) +
      (lotHolding T currency).share code state := carried_set

/-- What a write of a lot's event was. -/
structure LotWrote (T : Texts) (B : Build) (b : LotLedger) (r : Request) (b' : LotLedger) (r' : Request) (t : Transition) :
    Prop where
  set : b' = b.setLot r.entityId t.after
  found : t.before = Dicts.get? b.lots r.entityId
  same : r' = r
  applied : B.apply (t.before.getD []) r.eventType r.data = .ok t.after
  birth : t.before = none ↔ r.eventType ∈ ITEM_BIRTHS
  held : ∀ before, t.before = some before → accountField.Held r.eventType before r.data
  circulated : assertDraftNotCirculated T r.eventType t = .ok ()

/-- Outside a migration, a birth carries its data. -/
theorem recordLotAccount_own {source : Option String} {previous : Option Dict} {data data' : Dict}
    (hsource : r.source ≠ "migration") (h : recordLotAccount T source r previous data = .ok data') : data' = data := by
  cases previous with
  | some previous => exact (recordLotAccount_change h).1
  | none =>
    unfold recordLotAccount at h
    by_cases hbirth : r.eventType ∈ ITEM_BIRTHS
    · rw [if_pos ⟨hbirth, rfl⟩, if_neg fun hs => hsource hs.2.1] at h
      exact (Except.ok.inj h).symm
    · rw [if_neg fun hb => hbirth hb.1] at h
      simp only at h
      split_ifs at h
      · exact (Except.ok.inj h).symm
      · exact (Except.ok.inj h).symm
      · obtain ⟨⟨⟩, -, h⟩ := bind_eq_ok.1 h
        exact (Except.ok.inj h).symm

theorem write_spec (hsource : r.source ≠ "migration") {r' : Request} (h : b.write T B S r = .ok (b', r', t)) :
    LotWrote T B b r b' r' t := by
  unfold LotLedger.write at h
  obtain ⟨⟨⟩, -, h⟩ := bind_eq_ok.1 h
  obtain ⟨⟨⟩, -, h⟩ := bind_eq_ok.1 h
  obtain ⟨data, hdata, h⟩ := bind_eq_ok.1 h
  obtain ⟨⟨⟩, -, h⟩ := bind_eq_ok.1 h
  obtain ⟨after, happ, h⟩ := bind_eq_ok.1 h
  obtain rfl := recordLotAccount_own hsource hdata
  simp only at h
  split_ifs at h with hmissing hexists
  obtain ⟨⟨⟩, hcirculated, h⟩ := bind_eq_ok.1 h
  obtain ⟨⟨⟩, -, h⟩ := bind_eq_ok.1 h
  obtain ⟨rfl, rfl, rfl⟩ : _ ∧ _ ∧ _ := by simpa using h
  refine ⟨rfl, rfl, rfl, mapError_eq_ok.1 happ, ⟨fun hnone => ?_, fun hbirth => ?_⟩, fun before hbefore => ?_, hcirculated⟩
  · have hnone : Dicts.get? b.lots r.entityId = none := hnone
    by_contra hnot
    exact hmissing ⟨by rw [hnone]; rfl, hnot⟩
  · change Dicts.get? b.lots r.entityId = none
    by_contra hne
    exact hexists ⟨Option.isSome_iff_ne_none.2 hne, hbirth⟩
  · have hbefore : Dicts.get? b.lots r.entityId = some before := hbefore
    rw [hbefore] at hdata
    exact (recordLotAccount_change hdata).2

/-- Whatever handles an item's event leaves it sound. -/
theorem sound_of_apply (hU : U.HandlesItems T) (hB : B.Under U) {state data next : Dict} {eventType : String}
    {recorded : Option String} (hw : accountField.Written eventType data) (hflag : Dicts.get? state ON_BOOKS_FIELD = none ∨
      Dicts.get? state ON_BOOKS_FIELD = some (.bool true)) (hrec : Records accountField recorded next)
    (h : B.apply state eventType data = .ok next) : SoundLot next ∧ recordedAccount T next = recorded := by
  refine ⟨⟨hrec.1, ?_⟩, (recordedAccount_eq hrec.1).trans hrec.2⟩
  rcases hw.own with hitem | hsync
  · have happ := apply_item hU hB hitem h
    obtain ⟨d, -, hd⟩ := bind_eq_ok.1 happ
    cases hd
    exact flag_keepOnBooks
  · obtain ⟨v, rfl⟩ := apply_shopSync hU hB hsync h
    rwa [Dicts.get?_set, if_neg (by decide)]

/-- **What a lot's event leaves recorded**, of a lot there was. -/
theorem LotWrote.change (hU : U.HandlesItems T) (hB : B.Under U) (hb : b.Sound) {r' : Request} {before : Dict}
    (hw : accountField.Written r.eventType r.data) (h : LotWrote T B b r b' r' t) (hbefore : t.before = some before) :
    SoundLot t.after ∧ recordedAccount T t.after = if accountField.names r.eventType then
      accountIn (Json.get r.data LOT_ACCOUNT_FIELD) else recordedAccount T before := by
  have hsound : SoundLot before := hb.lots r.entityId before (h.found.symm.trans hbefore)
  have hrecorded : Records accountField (recordedAccount T before) before :=
    ⟨hsound.account, (recordedAccount_eq hsound.account).symm⟩
  have happ := h.applied
  rw [hbefore, Option.getD_some] at happ
  have hheld := h.held before hbefore
  have hnot : r.eventType ∉ ITEM_BIRTHS := fun hbirth => by simp [h.birth.2 hbirth] at hbefore
  have hrec := records_of_apply hU hB (by simp [RECORDED_FIELDS]) hrecorded hw (fun hbirth => absurd hbirth hnot)
    hheld.kept happ
  exact sound_of_apply hU hB hw hsound.flag hrec happ

/-- What a birth leaves recorded. -/
theorem LotWrote.born (hU : U.HandlesItems T) (hB : B.Under U) {r' : Request}
    (hw : accountField.Written r.eventType r.data) (h : LotWrote T B b r b' r' t) (hbefore : t.before = none) :
    SoundLot t.after ∧ recordedAccount T t.after = accountIn (Json.get r.data LOT_ACCOUNT_FIELD) := by
  have happ := h.applied
  rw [hbefore, Option.getD_none] at happ
  have hbirth := h.birth.1 hbefore
  have hnames : accountField.names r.eventType = true := by simp [RecordedField.names, hbirth]
  have hrec := records_of_apply hU hB (by simp [RECORDED_FIELDS])
    (⟨.inl rfl, rfl⟩ : Records accountField none []) hw (fun _ => rfl) (fun hn => by simp [hnames] at hn) happ
  rw [if_pos hnames] at hrec
  exact sound_of_apply hU hB hw (.inl rfl) hrec happ

/-! ## The events that name an account -/

/-- A lot that stays on its side of the draft line does not cross it. -/
theorem draftBoundary_of_same {before after : Dict} (hline : isDraft T after = isDraft T before) :
    draftBoundary T S ⟨some before, after⟩ = .ok none := by
  simp only [draftBoundary, hline, true_or, if_true]

/-- An event that changes nothing a lot holds crosses no line. -/
theorem draftBoundary_of_holdsAs {before after : Dict} (h : HoldsAs before after) :
    draftBoundary T S ⟨some before, after⟩ = .ok none := by
  refine draftBoundary_of_same ?_
  rw [isDraft, isDraft, h.storedStatus]

/-- Out of stock, before or after, there is no value to change. -/
theorem valueBoundary_of_out {before after : Dict} (hout : inStock T before = false ∨ inStock T after = false) :
    valueBoundary T S r ⟨some before, after⟩ = .ok none := by
  have hskip : (!inStock T before || !inStock T after) = true := by
    rcases hout with hout | hout
    · rw [hout, Bool.not_false, Bool.true_or]
    · rw [hout, Bool.not_false, Bool.or_true]
  simp only [valueBoundary, hskip, if_true]

theorem valueBoundary_of_holdsAs {before after : Dict} {change : Option ValueChange} (h : HoldsAs before after)
    (hc : valueBoundary T S r ⟨some before, after⟩ = .ok change) : change = none := by
  unfold valueBoundary at hc
  simp only at hc
  split_ifs at hc with hstock
  · exact (Except.ok.inj hc).symm
  obtain ⟨ownedBefore, -, hc⟩ := bind_eq_ok.1 hc
  obtain ⟨ownedAfter, -, hc⟩ := bind_eq_ok.1 hc
  split_ifs at hc
  · exact (Except.ok.inj hc).symm
  obtain ⟨booked, -, hc⟩ := bind_eq_ok.1 hc
  split_ifs at hc
  · exact (Except.ok.inj hc).symm
  obtain ⟨heldBefore, -, hc⟩ := bind_eq_ok.1 hc
  obtain ⟨heldAfter, -, hc⟩ := bind_eq_ok.1 hc
  split_ifs at hc
  · exact (Except.ok.inj hc).symm
  obtain ⟨moved, hmoved, hc⟩ := bind_eq_ok.1 hc
  have hzero : moved = 0 := by
    have hmoved := mapError_eq_ok.1 hmoved
    obtain ⟨left, hleft, hmoved⟩ := bind_eq_ok.1 hmoved
    obtain ⟨held, hheld, hmoved⟩ := bind_eq_ok.1 hmoved
    rw [h.recordedValue, hheld] at hleft
    cases hleft
    cases hmoved
    exact sub_self _
  rw [if_pos hzero] at hc
  exact (Except.ok.inj hc).symm

/-- An event that names a lot's account, and what it names. -/
structure AccountEvent (r : Request) (code : String) : Prop where
  type : r.eventType = RECORDED ∨ r.eventType = MOVED
  source : r.source = "system"
  names : Dicts.get? r.data LOT_ACCOUNT_FIELD = some (.str code)
  flag : Dicts.get? r.data ON_BOOKS_FIELD = none
  distinct : (Dicts.keys r.data).Nodup
  unchanged : Dicts.get? r.data "fields_changed" = none

theorem AccountEvent.written (h : AccountEvent r code) : accountField.Written r.eventType r.data where
  distinct := h.distinct
  changes := fun fields hf => by simp [h.unchanged] at hf
  text := fun _ => .inr ⟨code, by simp [Json.get, accountField, h.names]⟩
  price := fun hp => by rcases h.type with ht | ht <;> rw [ht] at hp <;> exact absurd hp (by decide)
  edit := fun he => by rcases h.type with ht | ht <;> rw [ht] at he <;> exact absurd he (by decide)
  own := .inl (by rcases h.type with ht | ht <;> rw [ht] <;> decide)

theorem accountEvent_record {id why : String} : AccountEvent (recordRequest id code why) code where
  type := .inl rfl
  source := rfl
  names := by simp [recordRequest, Dicts.get?_cons]
  flag := by simp [recordRequest, Dicts.get?_cons, ON_BOOKS_FIELD, LOT_ACCOUNT_FIELD]
  distinct := by simp [recordRequest, Dicts.keys]
  unchanged := by simp [recordRequest, Dicts.get?_cons, LOT_ACCOUNT_FIELD]

theorem accountEvent_moved {m : LotMoved} {moveId : String} : AccountEvent (movedRequest m moveId) m.toAccount where
  type := .inr rfl
  source := rfl
  names := by simp [movedRequest, Dicts.get?_cons]
  flag := by simp [movedRequest, Dicts.get?_cons, ON_BOOKS_FIELD, LOT_ACCOUNT_FIELD]
  distinct := by simp [movedRequest, Dicts.keys, LOT_ACCOUNT_FIELD]
  unchanged := by simp [movedRequest, Dicts.get?_cons, LOT_ACCOUNT_FIELD]

/-- What an event that names an account leaves: the lot as it was, on the account named. -/
structure Renamed (T : Texts) (b b' : LotLedger) (id code : String) (before after : Dict) : Prop where
  found : Dicts.get? b.lots id = some before
  set : b' = b.setLot id after
  holds : HoldsAs before after
  sound : SoundLot after
  recorded : recordedAccount T after = some code

/-- **Recording or moving a lot's account** writes the account and books nothing. -/
theorem emitItem_account (hU : U.HandlesItems T) (hB : B.Under U) (hb : b.Sound) {depth : ℕ} (hcode : code ≠ "")
    (hr : AccountEvent r code) (h : b.emitItem T B S depth r = .ok b') :
    ∃ before after, Renamed T b b' r.entityId code before after ∧ accountField.Held r.eventType before r.data := by
  cases depth with
  | zero => cases h
  | succ depth =>
    rw [LotLedger.emitItem] at h
    obtain ⟨⟨b₁, r', t⟩, hwritten, h⟩ := bind_eq_ok.1 h
    have hw := write_spec (by rw [hr.source]; decide) hwritten
    have hbirth : r.eventType ∉ ITEM_BIRTHS := by
      rcases hr.type with ht | ht <;> rw [ht] <;> decide
    obtain ⟨before, hbefore⟩ : ∃ before, t.before = some before :=
      Option.ne_none_iff_exists'.1 fun hnone => hbirth (hw.birth.1 hnone)
    obtain ⟨hsound, hrecorded⟩ := hw.change hU hB hb hr.written hbefore
    have hnames : accountField.names r.eventType = true := by
      rcases hr.type with ht | ht <;> rw [ht] <;> decide
    have hget : Json.get r.data LOT_ACCOUNT_FIELD = .str code := by rw [Json.get, hr.names, Option.getD_some]
    rw [if_pos hnames, hget, accountIn, if_neg hcode] at hrecorded
    have hfound := hw.found.symm.trans hbefore
    -- the lot holds what it did
    have hholds : HoldsAs before t.after := by
      have happ := hw.applied
      rw [hbefore, Option.getD_some] at happ
      have hitem := apply_item hU hB (by rcases hr.type with ht | ht <;> rw [ht] <;> decide) happ
      refine ensures_account_kept ?_ hr.flag (hb.lots _ _ hfound) _ hitem
      rcases hr.type with ht | ht <;> rw [ht]
      · exact .inl (by decide)
      · exact .inr (by decide)
    -- so it crosses no line, and books nothing
    have ht : t = ⟨some before, t.after⟩ := by rw [← hbefore]
    obtain ⟨crossed, hcrossed, h⟩ := bind_eq_ok.1 h
    rw [ht, draftBoundary_of_holdsAs hholds] at hcrossed
    cases hcrossed
    obtain ⟨b₂, hb₂, h⟩ := bind_eq_ok.1 h
    cases hb₂
    obtain ⟨change, hchange, h⟩ := bind_eq_ok.1 h
    rw [ht] at hchange
    obtain rfl := valueBoundary_of_holdsAs hholds hchange
    cases h
    exact ⟨before, t.after, ⟨hfound, hw.set, hholds, hsound, hrecorded⟩, hw.held before hbefore⟩

section
variable {id : String} {before after : Dict}

theorem Renamed.lines (h : Renamed T b b' id code before after) : b'.lines = b.lines := by
  rw [h.set]
  rfl

theorem Renamed.isSound (h : Renamed T b b' id code before after) (hb : b.Sound) : b'.Sound := by
  rw [h.set]
  exact hb.setLot _ h.sound

/-- What the accounts carry of a lot that is on another account then. -/
theorem Renamed.carriedOn (h : Renamed T b b' id code before after) (account : String) :
    b'.carriedOn T currency account = b.carriedOn T currency account - (lotHolding T currency).share account before +
      if account = code then carriedValue T currency before else 0 := by
  rw [h.set, LotLedger.carriedOn_setLot, h.found, Option.elim_some]
  congr 1
  split_ifs with haccount
  · subst haccount
    rw [share_of_account h.recorded]
    exact h.holds.carriedValue
  · refine share_of_ne fun hrecorded => haccount ?_
    exact Option.some.inj (hrecorded.symm.trans h.recorded)

end

/-! ## Entries -/

/-- An account that the books post the other side of stock to. -/
def StockRules.Counters (S : StockRules) (code : String) : Prop :=
  S.resolve retainedEarnings = .ok code ∨ S.resolve stockGain = .ok code ∨ S.resolve stockShrinkage = .ok code

/-- Two books with the same lots and moves. -/
structure SameLots (b b' : LotLedger) : Prop where
  lots : b'.lots = b.lots
  moves : b'.moves = b.moves

theorem SameLots.refl (b : LotLedger) : SameLots b b := ⟨rfl, rfl⟩

theorem SameLots.sound (h : SameLots b b') (hb : b.Sound) : b'.Sound where
  lots := h.lots ▸ hb.lots
  moves := h.moves ▸ hb.moves

theorem SameLots.carriedOn (h : SameLots b b') : b'.carriedOn T currency code = b.carriedOn T currency code := by
  rw [LotLedger.carriedOn, h.lots]
  rfl

/-- **An entry of whole amounts** posts what its lines move. -/
theorem post_spec (code : String) {lines : List Line} (hwhole : ∀ l ∈ lines, l.Whole S.currency)
    (h : b.post S lines = .ok b') :
    SameLots b b' ∧ net code b'.lines = net code b.lines + net code lines := by
  unfold LotLedger.post emitAutoPosted at h
  rw [map_round_of_whole hwhole] at h
  simp only at h
  split_ifs at h
  obtain ⟨⟨⟩, -, h⟩ := bind_eq_ok.1 h
  cases h
  refine ⟨⟨rfl, rfl⟩, ?_⟩
  rw [net_append, net_filter_moves]

/-- What values come to on an account, each to the cent. -/
def valuesOn (currency code : String) (values : List (String × ℚ)) : ℚ :=
  (values.map fun v => if v.1 = code then roundMoney v.2 currency else 0).sum

theorem valuesOn_singleton {account : String} {v : ℚ} :
    valuesOn currency code [(account, v)] = if account = code then roundMoney v currency else 0 := by
  simp [valuesOn]

theorem sum_roundedValues (values : List (String × ℚ)) :
    ((roundedValues currency values).map fun v => if v.1 = code then v.2 else 0).sum = valuesOn currency code values := by
  have hzero : ∀ l : List (String × ℚ), ((l.filter (·.2 ≠ 0)).map fun v => if v.1 = code then v.2 else 0).sum =
      (l.map fun v => if v.1 = code then v.2 else 0).sum := by
    intro l
    induction l with
    | nil => rfl
    | cons v l ih =>
      by_cases hv : v.2 = 0
      · rw [List.filter_cons_of_neg (by simpa using hv), List.map_cons, List.sum_cons, ih, hv]
        simp
      · rw [List.filter_cons_of_pos (by simpa using hv), List.map_cons, List.map_cons, List.sum_cons, List.sum_cons, ih]
  rw [roundedValues, hzero, List.map_map]
  exact ((List.perm_insertionSort _ _).map _).sum_eq

theorem net_debits (l : List (String × ℚ)) :
    net code (l.map fun v => .debitOf v.1 v.2) = (l.map fun v => if v.1 = code then v.2 else 0).sum := by
  induction l with
  | nil => rfl
  | cons v l ih =>
    rw [List.map_cons, net_cons, ih, List.map_cons, List.sum_cons]
    simp only [Line.debitOf, sub_zero]

theorem net_credits (l : List (String × ℚ)) :
    net code (l.map fun v => .creditOf v.1 v.2) = -(l.map fun v => if v.1 = code then v.2 else 0).sum := by
  induction l with
  | nil => rfl
  | cons v l ih =>
    rw [List.map_cons, net_cons, ih, List.map_cons, List.sum_cons, neg_add, neg_ite, neg_zero]
    simp only [Line.creditOf, zero_sub]

/-- **Opening stock booked**, or taken off: each account moves by its value to the cent. -/
theorem postOpeningStockDelta_spec (hcode : ¬S.Counters code) {values : List (String × ℚ)} {onto : Bool}
    (h : b.postOpeningStockDelta S values onto = .ok b') : SameLots b b' ∧ net code b'.lines =
      net code b.lines + if onto then valuesOn S.currency code values else -valuesOn S.currency code values := by
  unfold LotLedger.postOpeningStockDelta at h
  simp only at h
  by_cases hempty : (roundedValues S.currency values).isEmpty
  · rw [if_pos hempty] at h
    cases h
    have hnone : valuesOn S.currency code values = 0 := by
      rw [← sum_roundedValues, List.isEmpty_iff.1 hempty]
      rfl
    exact ⟨.refl _, by rw [hnone]; simp⟩
  · rw [if_neg hempty] at h
    obtain ⟨retained, hretained, h⟩ := bind_eq_ok.1 h
    have hne : retained ≠ code := by
      rintro rfl
      exact hcode (.inl hretained)
    have hwhole : ∀ v ∈ roundedValues S.currency values, IsWhole S.currency v.2 := by
      intro v hv
      obtain ⟨w, -, rfl⟩ := List.mem_map.1 (List.mem_of_mem_filter hv)
      exact isWhole_roundMoney _ _
    have htotal : IsWhole S.currency ((roundedValues S.currency values).map Prod.snd).sum := by
      refine IsWhole.sum fun v hv => ?_
      obtain ⟨w, hw, rfl⟩ := List.mem_map.1 hv
      exact hwhole w hw
    have hzero := isWhole_zero S.currency
    cases onto with
    | true =>
      rw [if_pos rfl] at h ⊢
      have hlines : ∀ l ∈ (roundedValues S.currency values).map (fun v => Line.debitOf v.1 v.2) ++
          [.creditOf retained ((roundedValues S.currency values).map Prod.snd).sum], l.Whole S.currency := by
        intro l hl
        rw [List.mem_append, List.mem_map, List.mem_singleton] at hl
        rcases hl with ⟨v, hv, rfl⟩ | rfl
        · exact ⟨hwhole v hv, hzero⟩
        · exact ⟨hzero, htotal⟩
      obtain ⟨hsame, hnet⟩ := post_spec code hlines h
      refine ⟨hsame, hnet.trans ?_⟩
      rw [net_append, net_debits, sum_roundedValues]
      simp [Line.creditOf, hne]
    | false =>
      rw [if_neg Bool.false_ne_true] at h ⊢
      have hlines : ∀ l ∈ Line.debitOf retained ((roundedValues S.currency values).map Prod.snd).sum ::
          (roundedValues S.currency values).map (fun v => Line.creditOf v.1 v.2), l.Whole S.currency := by
        intro l hl
        rw [List.mem_cons, List.mem_map] at hl
        rcases hl with rfl | ⟨v, hv, rfl⟩
        · exact ⟨htotal, hzero⟩
        · exact ⟨hzero, hwhole v hv⟩
      obtain ⟨hsame, hnet⟩ := post_spec code hlines h
      refine ⟨hsame, hnet.trans ?_⟩
      rw [net_cons, net_credits, sum_roundedValues]
      simp [Line.debitOf, hne]

/-- **A lot's value changed** by a whole amount moves its account by it. -/
theorem bookLotValue_spec (hon : S.accounting = true) (hcode : ¬S.Counters code) {account : String} {delta : ℚ}
    (hdelta : IsWhole S.currency delta) (h : b.bookLotValue S account delta = .ok b') :
    SameLots b b' ∧ net code b'.lines = net code b.lines + if account = code then delta else 0 := by
  unfold LotLedger.bookLotValue at h
  rw [roundMoney_of_isWhole hdelta] at h
  simp only at h
  have habs : IsWhole S.currency |delta| := hdelta.abs
  have hzero := isWhole_zero S.currency
  have htwo (debited credited : String) :
      ∀ l ∈ [Line.debitOf debited |delta|, .creditOf credited |delta|], l.Whole S.currency := by
    intro l hl
    obtain rfl | rfl : l = .debitOf debited |delta| ∨ l = .creditOf credited |delta| := by simpa using hl
    · exact ⟨habs, hzero⟩
    · exact ⟨hzero, habs⟩
  split_ifs at h with hnone hpos
  · cases h
    have hd : delta = 0 := by simpa [hon] using hnone
    exact ⟨.refl _, by rw [hd]; simp⟩
  · obtain ⟨gain, hgain, h⟩ := bind_eq_ok.1 h
    have hne : gain ≠ code := by
      rintro rfl
      exact hcode (.inr (.inl hgain))
    obtain ⟨hsame, hnet⟩ := post_spec code (htwo account gain) h
    refine ⟨hsame, hnet.trans ?_⟩
    simp [Line.debitOf, Line.creditOf, hne, abs_of_pos hpos]
  · obtain ⟨shrinkage, hshrinkage, h⟩ := bind_eq_ok.1 h
    have hne : shrinkage ≠ code := by
      rintro rfl
      exact hcode (.inr (.inr hshrinkage))
    obtain ⟨hsame, hnet⟩ := post_spec code (htwo shrinkage account) h
    refine ⟨hsame, hnet.trans ?_⟩
    simp [Line.debitOf, Line.creditOf, hne, abs_of_nonpos (not_lt.1 hpos)]

/-! ## What an event books -/

/-- An event that books nothing for a lot: what its account carries stays as it is. -/
def Unbooked (T : Texts) (currency : String) (before after : Dict) : Prop :=
  recordedAccount T before = none ∨ carriedValue T currency after = carriedValue T currency before

/-- What an event books for a lot: on the account it records, or on one it records then, what the
    account carries of it more. -/
structure Booked (T : Texts) (currency : String) (before after : Dict) (record : Bool) (account : String) (delta : ℚ) :
    Prop where
  recorded : recordedAccount T before = if record then none else some account
  placed : record = true → carriedValue T currency before = 0 ∧ account ≠ ""
  delta : delta = carriedValue T currency after - carriedValue T currency before

section
variable {before after : Dict}

/-- In stock, what a lot holds is what it records, where it is the company's own. -/
theorem heldValue_inStock {owned : Bool} {held : Option ℚ} (hstock : inStock T before = true)
    (howned : StoredItem.ownedStock before = .ok owned) (hheld : StoredItem.heldValue T before = .ok held) :
    held.isSome = owned ∧ ∀ v, held = some v → StoredItem.recordedValue T before = .ok v := by
  rw [StoredItem.heldValue, hstock] at hheld
  obtain ⟨owned', howned', hheld⟩ := bind_eq_ok.1 hheld
  obtain rfl : owned = owned' := Except.ok.inj (howned.symm.trans howned')
  cases owned with
  | false =>
    obtain rfl : none = held := Except.ok.inj hheld
    exact ⟨rfl, nofun⟩
  | true =>
    obtain ⟨v, hv, hheld⟩ := bind_eq_ok.1 hheld
    obtain rfl : some v = held := Except.ok.inj hheld
    exact ⟨rfl, fun w hw => Option.some.inj hw ▸ hv⟩

/-- **A draft made available** is booked on the account it records, or on the opening inventory
    account, which it records then. -/
theorem draftBoundary_available (currency : String) (hon : S.accounting = true) (hb : isDraft T before = true)
    (ha : isDraft T after = false) {crossed : Option DraftBoundary}
    (h : draftBoundary T S ⟨some before, after⟩ = .ok crossed) :
    (crossed = none ∧ Unbooked T currency before after) ∨ ∃ move, crossed = some move ∧ move.madeAvailable = true ∧
      Booked T currency before after move.record move.code (roundMoney move.value currency) := by
  have hzero : carriedValue T currency before = 0 := carriedValue_of_not_inStock (not_inStock_of_draft hb)
  unfold draftBoundary at h
  simp only [hb, ha, hon, if_true, Bool.not_true, Bool.true_eq_false, Bool.false_eq_true, false_or, or_false] at h
  split_ifs at h with hskip
  · -- the draft deleted
    refine .inl ⟨(Except.ok.inj h).symm, .inr ?_⟩
    rcases hskip with hdel | hdel
    · have h₁ : storedStatus T before = "draft" := of_decide_eq_true hb
      exact absurd (h₁.symm.trans (of_decide_eq_true hdel)) (by decide)
    · rw [hzero, carriedValue_of_not_inStock (not_inStock_of_deleted hdel)]
  · obtain ⟨held, hheld, h⟩ := bind_eq_ok.1 h
    have hheld := carriedValue_of_held currency (mapError_eq_ok.1 hheld)
    cases held with
    | none => exact .inl ⟨(Except.ok.inj h).symm, .inr (by rw [hheld, hzero]; exact roundMoney_zero _)⟩
    | some value =>
      obtain ⟨code, hcode, h⟩ := bind_eq_ok.1 h
      refine .inr ⟨_, (Except.ok.inj h).symm, rfl, ?_⟩
      have hdelta : roundMoney value currency = carriedValue T currency after - carriedValue T currency before := by
        rw [hheld, hzero, sub_zero]
        rfl
      cases hrecorded : recordedAccount T before with
      | none =>
        rw [hrecorded] at hcode
        exact ⟨hrecorded, fun _ => ⟨hzero, S.resolved _ _ hcode⟩, hdelta⟩
      | some recorded =>
        rw [hrecorded] at hcode
        obtain ⟨⟨⟩, -, hcode⟩ := bind_eq_ok.1 hcode
        cases hcode
        exact ⟨hrecorded, nofun, hdelta⟩

/-- **A lot returned to draft** is taken off the account it records. -/
theorem draftBoundary_returned (currency : String) (hon : S.accounting = true) (hb : isDraft T before = false)
    (ha : isDraft T after = true) {crossed : Option DraftBoundary}
    (h : draftBoundary T S ⟨some before, after⟩ = .ok crossed) :
    (crossed = none ∧ Unbooked T currency before after) ∨ ∃ move, crossed = some move ∧ move.madeAvailable = false ∧
      move.record = false ∧ Booked T currency before after false move.code (-roundMoney move.value currency) := by
  have hzero : carriedValue T currency after = 0 := carriedValue_of_not_inStock (not_inStock_of_draft ha)
  unfold draftBoundary at h
  simp only [hb, ha, hon, if_false, Bool.not_true, Bool.false_eq_true, false_or, or_false] at h
  split_ifs at h with hskip
  · -- a deleted draft restored
    refine .inl ⟨(Except.ok.inj h).symm, .inr ?_⟩
    rcases hskip with hdel | hdel
    · rw [hzero, carriedValue_of_not_inStock (not_inStock_of_deleted hdel)]
    · have h₁ : storedStatus T after = "draft" := of_decide_eq_true ha
      exact absurd (h₁.symm.trans (of_decide_eq_true hdel)) (by decide)
  · obtain ⟨held, hheld, h⟩ := bind_eq_ok.1 h
    have hheld := carriedValue_of_held currency (mapError_eq_ok.1 hheld)
    cases held with
    | none => exact .inl ⟨(Except.ok.inj h).symm, .inr (by rw [hheld, hzero]; exact (roundMoney_zero _).symm)⟩
    | some value =>
      obtain ⟨code, hcode, h⟩ := bind_eq_ok.1 h
      refine .inr ⟨_, (Except.ok.inj h).symm, rfl, Bool.and_false _, ?_, nofun, ?_⟩
      · unfold StoredItem.lotAccount at hcode
        split_ifs at hcode
        cases hrecorded : recordedAccount T before with
        | none =>
          rw [hrecorded] at hcode
          cases hcode
        | some recorded =>
          rw [hrecorded] at hcode
          cases hcode
          rfl
      · rw [hheld, hzero, zero_sub]
        rfl

/-- **A lot in stock whose value changes** is booked on the account it records, or on the opening
    inventory account, which it records then. -/
theorem valueBoundary_spec (hon : S.accounting = true) (hown : selfBooked r ≠ .ok true) (hb : inStock T before = true)
    (ha : inStock T after = true)
    (hplaced : recordedAccount T before = none → carriedValue T S.currency before = 0) {changed : Option ValueChange}
    (h : valueBoundary T S r ⟨some before, after⟩ = .ok changed) :
    (changed = none ∧ Unbooked T S.currency before after) ∨ ∃ change, changed = some change ∧
      IsWhole S.currency change.delta ∧ Booked T S.currency before after change.record change.code change.delta := by
  unfold valueBoundary at h
  simp only [hb, ha, hon, Bool.not_true, Bool.or_self, Bool.false_eq_true, if_false] at h
  obtain ⟨ownedBefore, hownedBefore, h⟩ := bind_eq_ok.1 h
  obtain ⟨ownedAfter, hownedAfter, h⟩ := bind_eq_ok.1 h
  split_ifs at h with hconsigned hsame
  · -- not the company's own, with no account
    refine .inl ⟨(Except.ok.inj h).symm, .inl ?_⟩
    rw [Bool.and_eq_true] at hconsigned
    exact Option.isNone_iff_eq_none.1 hconsigned.1
  obtain rfl : ownedBefore = ownedAfter := not_not.1 hsame
  obtain ⟨booked, hbooked, h⟩ := bind_eq_ok.1 h
  have hbooked := mapError_eq_ok.1 hbooked
  cases booked with
  | true => exact absurd hbooked hown
  | false =>
    rw [if_neg Bool.false_ne_true] at h
    obtain ⟨heldBefore, hheldBefore, h⟩ := bind_eq_ok.1 h
    obtain ⟨heldAfter, hheldAfter, h⟩ := bind_eq_ok.1 h
    have hheldBefore := mapError_eq_ok.1 hheldBefore
    have hheldAfter := mapError_eq_ok.1 hheldAfter
    have hcarriedBefore := carriedValue_of_held S.currency hheldBefore
    have hcarriedAfter := carriedValue_of_held S.currency hheldAfter
    obtain ⟨hsomeBefore, hvalueBefore⟩ := heldValue_inStock hb (mapError_eq_ok.1 hownedBefore) hheldBefore
    obtain ⟨hsomeAfter, hvalueAfter⟩ := heldValue_inStock ha (mapError_eq_ok.1 hownedAfter) hheldAfter
    cases heldBefore with
    | none =>
      -- the consignor's, before and after
      obtain rfl : none = heldAfter := by
        rw [← hsomeBefore] at hsomeAfter
        exact (Option.isSome_eq_false_iff.1 hsomeAfter |> Option.isNone_iff_eq_none.1).symm
      exact .inl ⟨(Except.ok.inj h).symm, .inr (hcarriedAfter.trans hcarriedBefore.symm)⟩
    | some v =>
      obtain ⟨w, rfl⟩ : ∃ w, heldAfter = some w := by
        rw [← hsomeBefore] at hsomeAfter
        exact Option.isSome_iff_exists.1 hsomeAfter
      simp only [Option.isNone_some, Bool.or_self, Bool.false_eq_true, if_false] at h
      obtain ⟨moved, hmoved, h⟩ := bind_eq_ok.1 h
      have hmoved : moved = carriedValue T S.currency before - carriedValue T S.currency after := by
        have hmoved := mapError_eq_ok.1 hmoved
        rw [StoredItem.valueMoved, hvalueBefore v rfl, hvalueAfter w rfl] at hmoved
        rw [hcarriedBefore, hcarriedAfter]
        exact (Except.ok.inj hmoved).symm
      split_ifs at h with hzero
      · refine .inl ⟨(Except.ok.inj h).symm, .inr ?_⟩
        rw [hmoved] at hzero
        exact (sub_eq_zero.1 hzero).symm
      · obtain ⟨account, haccount, h⟩ := bind_eq_ok.1 h
        have hdelta : -moved = carriedValue T S.currency after - carriedValue T S.currency before := by
          rw [hmoved, neg_sub]
        refine .inr ⟨_, (Except.ok.inj h).symm, ?_, ?_⟩
        · rw [hdelta, hcarriedBefore, hcarriedAfter]
          exact (isWhole_roundMoney _ _).sub (isWhole_roundMoney _ _)
        · cases hrecorded : recordedAccount T before with
          | none =>
            rw [hrecorded] at haccount
            exact ⟨hrecorded, fun _ => ⟨hplaced hrecorded, S.resolved _ _ haccount⟩, hdelta⟩
          | some recorded =>
            rw [hrecorded] at haccount
            cases haccount
            exact ⟨hrecorded, nofun, hdelta⟩

end

section
variable {before after : Dict} {id : String}

theorem share_lot : (lotHolding T currency).share code before =
    if recordedAccount T before = some code then carriedValue T currency before else 0 := rfl

/-- A lot born with no account is carried on none. -/
theorem apart_of_born (hfound : Dicts.get? b.lots id = none) (hrecorded : recordedAccount T after = none) :
    (b.setLot id after).apart T currency code = b.apart T currency code := by
  have hshare : (lotHolding T currency).share code after = 0 := by
    rw [share_lot, hrecorded]
    rfl
  rw [LotLedger.apart, LotLedger.carriedOn_setLot, hfound, Option.elim_none, hshare, sub_zero, add_zero]
  rfl

/-- An event that books nothing leaves each account's balance less what it carries. -/
theorem apart_of_unbooked (hfound : Dicts.get? b.lots id = some before)
    (hsame : recordedAccount T after = recordedAccount T before) (h : Unbooked T currency before after) :
    (b.setLot id after).apart T currency code = b.apart T currency code := by
  have hshare : (lotHolding T currency).share code after = (lotHolding T currency).share code before := by
    rw [share_lot, share_lot, hsame]
    rcases h with hnone | hvalue
    · rw [hnone]
      rfl
    · rw [hvalue]
  rw [LotLedger.apart, LotLedger.carriedOn_setLot, hfound, Option.elim_some, hshare, sub_add_cancel]
  rfl

/-- **What an event books is what the lot's account carries of it more.** -/
theorem apart_of_booked (hU : U.HandlesItems T) (hB : B.Under U) (hb : b.Sound)
    (hfound : Dicts.get? b.lots id = some before) (hafter : SoundLot after)
    (hsame : recordedAccount T after = recordedAccount T before) {record : Bool}
    {account why : String} {delta : ℚ} (h : Booked T currency before after record account delta) {depth : ℕ} {b₂ : LotLedger}
    (hrecord : (if record then (b.setLot id after).emitItem T B S depth (recordRequest id account why)
      else .ok (b.setLot id after)) = .ok b₂) (hlots : SameLots b₂ b')
    (hnet : net code b'.lines = net code b₂.lines + if account = code then delta else 0) :
    b'.Sound ∧ b'.apart T currency code = b.apart T currency code := by
  have hset := hb.setLot id hafter
  have hcarried : (b.setLot id after).carriedOn T currency code = b.carriedOn T currency code -
      (lotHolding T currency).share code before + (lotHolding T currency).share code after := by
    rw [LotLedger.carriedOn_setLot, hfound, Option.elim_some]
  have hrecorded := h.recorded
  have hdelta := h.delta
  cases record with
  | false =>
    cases hrecord
    refine ⟨hlots.sound hset, ?_⟩
    rw [LotLedger.apart, hnet, hlots.carriedOn, hcarried, share_lot, share_lot, hsame, hrecorded, hdelta, LotLedger.apart]
    have hlines : (b.setLot id after).lines = b.lines := rfl
    rw [hlines]
    simp only [Bool.false_eq_true, if_false, Option.some.injEq]
    split_ifs <;> ring
  | true =>
    obtain ⟨hzero, hne⟩ := h.placed rfl
    obtain ⟨after', after'', hrenamed, -⟩ := emitItem_account hU hB hset hne accountEvent_record hrecord
    obtain rfl : after = after' := by
      have hget := hrenamed.found
      exact Option.some.inj ((Dicts.get?_set.trans (if_pos rfl)).symm.trans hget)
    refine ⟨hlots.sound (hrenamed.isSound hset), ?_⟩
    rw [LotLedger.apart, hnet, hlots.carriedOn, hrenamed.carriedOn, hrenamed.lines, hcarried, share_lot, share_lot, hsame,
      hrecorded, hdelta, hzero, LotLedger.apart]
    have hlines : (b.setLot id after).lines = b.lines := rfl
    rw [hlines]
    by_cases hcode : account = code
    · subst hcode
      simp
    · simp [hcode, Ne.symm hcode]

end

/-! ## A lot's event -/

/-- An event of a lot that books what it changes: it names no account, its writer books nothing of
    its own, a lot that it takes into stock or out of it was a draft or is one then, and a lot in
    stock that waits for an account holds nothing to the cent. -/
structure OrdinaryEvent (T : Texts) (B : Build) (S : StockRules) (b : LotLedger) (r : Request) : Prop where
  written : accountField.Written r.eventType r.data
  unnamed : accountField.names r.eventType = true → accountIn (Json.get r.data LOT_ACCOUNT_FIELD) = none ∧
    r.eventType ∈ ITEM_BIRTHS
  own : selfBooked r ≠ .ok true
  stays : ∀ b' r' t before, b.write T B S r = .ok (b', r', t) → t.before = some before →
    inStock T t.after = inStock T before ∨ isDraft T t.after ≠ isDraft T before
  placed : ∀ before, Dicts.get? b.lots r.entityId = some before → inStock T before = true →
    recordedAccount T before = none → carriedValue T S.currency before = 0

theorem source_of_not_selfBooked (h : selfBooked r ≠ .ok true) : r.source ≠ "migration" := by
  intro hsource
  refine h (if_pos ?_)
  rw [hsource]
  decide

/-- **A lot's event** leaves each account's balance less what it carries as it was. -/
theorem emitItem_spec (hU : U.HandlesItems T) (hB : B.Under U) (hon : S.accounting = true) (hcode : ¬S.Counters code)
    (hb : b.Sound) {depth : ℕ} (hr : OrdinaryEvent T B S b r) (h : b.emitItem T B S depth r = .ok b') :
    b'.Sound ∧ b'.apart T S.currency code = b.apart T S.currency code := by
  cases depth with
  | zero => cases h
  | succ depth =>
    obtain ⟨⟨b₁, r', t⟩, hwritten, h⟩ := bind_eq_ok.1 h
    have hw := write_spec (source_of_not_selfBooked hr.own) hwritten
    obtain rfl := hw.set
    obtain ⟨crossed, hcrossed, h⟩ := bind_eq_ok.1 h
    obtain ⟨b₂, hb₂, h⟩ := bind_eq_ok.1 h
    obtain ⟨changed, hchanged, h⟩ := bind_eq_ok.1 h
    cases hbefore : t.before with
    | none =>
      -- a birth: the lot records no account
      obtain ⟨hsound, hrecorded⟩ := hw.born hU hB hr.written hbefore
      have hbirth := hw.birth.1 hbefore
      rw [(hr.unnamed (by simp [RecordedField.names, hbirth])).1] at hrecorded
      have hnone : draftBoundary T S t = .ok none := by rw [draftBoundary, hbefore]
      have hnochange : valueBoundary T S r' t = .ok none := by rw [valueBoundary, hbefore]
      cases hnone.symm.trans hcrossed
      cases hb₂
      cases hnochange.symm.trans hchanged
      cases h
      exact ⟨hb.setLot _ hsound, apart_of_born (hw.found.symm.trans hbefore) hrecorded⟩
    | some before =>
      have hfound := hw.found.symm.trans hbefore
      obtain ⟨hsound, hrecorded⟩ := hw.change hU hB hb hr.written hbefore
      have hnames : ¬accountField.names r.eventType = true := fun hnames => by
        simp [hw.birth.2 (hr.unnamed hnames).2] at hbefore
      rw [if_neg hnames] at hrecorded
      have hset := hb.setLot r.entityId hsound
      have ht : t = ⟨some before, t.after⟩ := by rw [← hbefore]
      rw [ht] at hcrossed hchanged
      rw [hw.same] at hchanged
      by_cases hline : isDraft T t.after = isDraft T before
      · -- on its side of the line
        cases (draftBoundary_of_same hline).symm.trans hcrossed
        cases hb₂
        have hstock := (hr.stays _ _ _ _ hwritten hbefore).resolve_right (not_not.2 hline)
        cases hin : inStock T before with
        | false =>
          rw [hin] at hstock
          cases (valueBoundary_of_out (.inl hin)).symm.trans hchanged
          cases h
          refine ⟨hset, apart_of_unbooked hfound hrecorded (.inr ?_)⟩
          rw [carriedValue_of_not_inStock hstock, carriedValue_of_not_inStock hin]
        | true =>
          rw [hin] at hstock
          rcases valueBoundary_spec hon hr.own hin hstock (hr.placed before hfound hin) hchanged with
            ⟨rfl, hunbooked⟩ | ⟨change, rfl, hwhole, hbooked⟩
          · cases h
            exact ⟨hset, apart_of_unbooked hfound hrecorded hunbooked⟩
          · obtain ⟨b₃, hb₃, h⟩ := bind_eq_ok.1 h
            obtain ⟨hlots, hnet⟩ := bookLotValue_spec hon hcode hwhole h
            exact apart_of_booked hU hB hb hfound hsound hrecorded hbooked hb₃ hlots hnet
      · -- across it, one side is not stock
        have hout : inStock T before = false ∨ inStock T t.after = false := by
          cases hd : isDraft T before with
          | true => exact .inl (not_inStock_of_draft hd)
          | false => exact .inr (not_inStock_of_draft (by simpa [hd] using hline))
        cases (valueBoundary_of_out hout).symm.trans hchanged
        cases h
        cases hd : isDraft T before with
        | true =>
          have ha : isDraft T t.after = false := by simpa [hd] using hline
          rcases draftBoundary_available S.currency hon hd ha hcrossed with
            ⟨rfl, hunbooked⟩ | ⟨move, rfl, havailable, hbooked⟩
          · cases hb₂
            exact ⟨hset, apart_of_unbooked hfound hrecorded hunbooked⟩
          · obtain ⟨b₃, hb₃, hb₂⟩ := bind_eq_ok.1 hb₂
            obtain ⟨hlots, hnet⟩ := postOpeningStockDelta_spec hcode hb₂
            rw [havailable, if_pos rfl, valuesOn_singleton] at hnet
            exact apart_of_booked hU hB hb hfound hsound hrecorded hbooked hb₃ hlots hnet
        | false =>
          have ha : isDraft T t.after = true := by simpa [hd] using hline
          rcases draftBoundary_returned S.currency hon hd ha hcrossed with
            ⟨rfl, hunbooked⟩ | ⟨move, rfl, havailable, hrecord, hbooked⟩
          · cases hb₂
            exact ⟨hset, apart_of_unbooked hfound hrecorded hunbooked⟩
          · obtain ⟨b₃, hb₃, hb₂⟩ := bind_eq_ok.1 hb₂
            obtain ⟨hlots, hnet⟩ := postOpeningStockDelta_spec hcode hb₂
            rw [havailable, if_neg Bool.false_ne_true, valuesOn_singleton, neg_ite, neg_zero] at hnet
            rw [hrecord] at hb₃
            exact apart_of_booked hU hB hb hfound hsound hrecorded hbooked hb₃ hlots hnet

/-! ## Stock brought in -/

theorem carriedValue_of_booked {state : Dict} {v : ℚ} (h : StoredItem.bookedValue T currency state = .ok v) :
    carriedValue T currency state = v := by
  rw [carriedValue, h]

theorem isWhole_carriedValue {state : Dict} : IsWhole currency (carriedValue T currency state) := by
  cases h : StoredItem.heldValue T state with
  | ok held =>
    rw [carriedValue_of_held currency h]
    exact isWhole_roundMoney _ _
  | error e =>
    have hnone : carriedValue T currency state = 0 := by
      rw [carriedValue, StoredItem.bookedValue, h]
      rfl
    rw [hnone]
    exact isWhole_zero _

section
variable {ids : List String} {f : String × Dict}

theorem mem_rows : f ∈ b.rows ids ↔ f ∈ b.lots ∧ f.1 ∈ ids := by
  rw [LotLedger.rows, List.mem_insertionSort, List.mem_filter, decide_eq_true_iff]

theorem nodup_rows : ((b.rows ids).map Prod.fst).Nodup :=
  (((List.perm_insertionSort _ _).map _).nodup_iff).2 (b.distinct.sublist (List.filter_sublist.map _))

theorem get?_of_mem_rows (h : f ∈ b.rows ids) : Dicts.get? b.lots f.1 = some f.2 :=
  Dicts.get?_of_mem b.distinct (mem_rows.1 h).1

/-- The lots brought in are among the rows. -/
theorem openingLots_sublist {rows lots : List (String × Dict)} (h : openingLots T rows = .ok lots) :
    lots.Sublist rows := by
  obtain ⟨judged, hjudged, h⟩ := bind_eq_ok.1 h
  cases h
  have hrows : judged.map Prod.fst = rows.map id := map_of_mapM_eq_ok (fun f _ b hb => by
    obtain ⟨held, -, hb⟩ := bind_eq_ok.1 hb
    cases hb
    rfl) hjudged
  rw [List.map_id] at hrows
  rw [← hrows]
  exact List.filter_sublist.map _

end

/-- **The accounts of lots recorded** bring what they hold onto the account. -/
theorem records_spec (currency code : String) (hU : U.HandlesItems T) (hB : B.Under U) {depth : ℕ}
    {account why : String} (hne : account ≠ "") {lots : List (String × Dict)} (hb : b.Sound)
    (hnodup : (lots.map Prod.fst).Nodup)
    (hfound : ∀ f ∈ lots, Dicts.get? b.lots f.1 = some f.2)
    (h : lots.foldlM (fun b f => LotLedger.emitItem T B S depth b (recordRequest f.1 account why)) b = .ok b') :
    b'.Sound ∧ b'.lines = b.lines ∧ b'.carriedOn T currency code = b.carriedOn T currency code +
      if code = account then (lots.map fun f => carriedValue T currency f.2).sum else 0 := by
  induction lots generalizing b with
  | nil =>
    cases h
    exact ⟨hb, rfl, by simp⟩
  | cons f lots ih =>
    rw [List.foldlM_cons] at h
    obtain ⟨b₁, hb₁, h⟩ := bind_eq_ok.1 h
    rw [List.map_cons, List.nodup_cons] at hnodup
    obtain ⟨before, after, hrenamed, hheld⟩ := emitItem_account hU hB hb hne accountEvent_record hb₁
    obtain rfl : f.2 = before := Option.some.inj ((hfound f List.mem_cons_self).symm.trans hrenamed.found)
    obtain ⟨hsound, hlines, hcarried⟩ := ih (hrenamed.isSound hb) hnodup.2 (fun g hg => by
      have hne : g.1 ≠ f.1 := fun heq => hnodup.1 (heq ▸ List.mem_map_of_mem hg)
      rw [hrenamed.set]
      exact (Dicts.get?_set.trans (if_neg hne)).trans (hfound g (List.mem_cons_of_mem _ hg))) h
    -- the lot recorded none before
    have hnone : recordedAccount T f.2 = none := by
      have htruthy := hheld.recorder (by simp [recordRequest, accountField])
      unfold recordedAccount
      rw [if_neg]
      exact Bool.not_eq_true _ ▸ htruthy
    refine ⟨hsound, hlines.trans hrenamed.lines, ?_⟩
    have hshare : (lotHolding T currency).share code f.2 = 0 := by
      rw [share_lot, hnone]
      rfl
    rw [hcarried, hrenamed.carriedOn, hshare, List.map_cons, List.sum_cons]
    split_ifs <;> ring

/-- **Stock brought in** is booked as the account carries it then. -/
theorem recognize_spec (hU : U.HandlesItems T) (hB : B.Under U) (hcode : ¬S.Counters code) (hb : b.Sound) {depth : ℕ}
    {ids : List String} (h : b.recognizeOpeningLots T B S depth ids = .ok b') :
    b'.Sound ∧ b'.apart T S.currency code = b.apart T S.currency code := by
  unfold LotLedger.recognizeOpeningLots at h
  split_ifs at h with hskip
  · cases h
    exact ⟨hb, rfl⟩
  obtain ⟨lots, hlots, h⟩ := bind_eq_ok.1 h
  split_ifs at h with hempty
  · cases h
    exact ⟨hb, rfl⟩
  obtain ⟨values, hvalues, h⟩ := bind_eq_ok.1 h
  obtain ⟨account, haccount, h⟩ := bind_eq_ok.1 h
  obtain ⟨retained, -, h⟩ := bind_eq_ok.1 h
  obtain ⟨b₁, hb₁, h⟩ := bind_eq_ok.1 h
  have hsub := openingLots_sublist (mapError_eq_ok.1 hlots)
  have hsum : values.sum = (lots.map fun f => carriedValue T S.currency f.2).sum := by
    have hmap : values.map id = lots.map fun f => carriedValue T S.currency f.2 :=
      map_of_mapM_eq_ok (fun f _ v hv => (carriedValue_of_booked hv).symm) (mapError_eq_ok.1 hvalues)
    rw [← hmap, List.map_id]
  have hwhole : IsWhole S.currency values.sum := by
    rw [hsum]
    refine IsWhole.sum fun v hv => ?_
    obtain ⟨f, -, rfl⟩ := List.mem_map.1 hv
    exact isWhole_carriedValue
  obtain ⟨hsound, hlines, hcarried⟩ := records_spec S.currency code hU hB
    (S.resolved _ _ haccount) hb (nodup_rows.sublist (hsub.map _)) (fun f hf => get?_of_mem_rows (hsub.subset hf)) hb₁
  obtain ⟨hsame, hnet⟩ := postOpeningStockDelta_spec hcode h
  refine ⟨hsame.sound hsound, ?_⟩
  rw [if_pos rfl, valuesOn_singleton, roundMoney_of_isWhole hwhole, hsum] at hnet
  rw [LotLedger.apart, hnet, hlines, hsame.carriedOn, hcarried, LotLedger.apart]
  by_cases hon : account = code
  · rw [if_pos hon, if_pos hon.symm]
    ring
  · rw [if_neg hon, if_neg (Ne.symm hon)]
    ring

/-! ## Samples taken out -/

/-- What lots taken out hold: by account, as the books carry it. -/
theorem removedValues_spec (code : String) {rows : List (String × Dict)} {values : List (String × ℚ)}
    (hwhole : ∀ f ∈ rows, ∀ v, StoredItem.heldValue T f.2 = .ok (some v) → IsWhole currency v)
    (h : removedValues T rows = .ok values) : (values.map Prod.fst).Nodup ∧
      (∀ e ∈ values, IsWhole currency e.2) ∧ Amounts.get code values = carried (lotHolding T currency) code rows := by
  induction rows using List.reverseRecOn generalizing values with
  | nil =>
    cases h
    exact ⟨.nil, nofun, rfl⟩
  | append_singleton rows f ih =>
    rw [removedValues, List.foldlM_append] at h
    obtain ⟨before, hbefore, h⟩ := bind_eq_ok.1 h
    obtain ⟨values', h, hpure⟩ := bind_eq_ok.1 h
    cases hpure
    obtain ⟨held, hheld, h⟩ := bind_eq_ok.1 h
    cases h
    obtain ⟨hnodup, hvalues, hget⟩ := ih (fun f hf => hwhole f (List.mem_append_left _ hf)) hbefore
    have hlot := hwhole f (List.mem_append_right _ (List.mem_singleton_self f))
    have hcarried := carriedValue_of_held currency hheld
    have hmore : carried (lotHolding T currency) code (rows ++ [f]) =
        carried (lotHolding T currency) code rows + (lotHolding T currency).share code f.2 := by
      rw [carried, List.map_append, List.sum_append, List.map_singleton, List.sum_singleton]
      rfl
    rw [hmore]
    cases held with
    | none =>
      rw [Option.getD_none, roundMoney_zero] at hcarried
      refine ⟨hnodup, hvalues, ?_⟩
      rw [share_of_held hcarried, add_zero]
      exact hget
    | some v =>
      have hv := hlot v hheld
      rw [Option.getD_some, roundMoney_of_isWhole hv] at hcarried
      cases haccount : recordedAccount T f.2 with
      | none =>
        refine ⟨hnodup, hvalues, ?_⟩
        rw [share_lot, haccount]
        exact hget.trans (add_zero _).symm
      | some account =>
        refine ⟨Amounts.nodup_add hnodup, Amounts.forall_add hvalues (fun w hw => hw.add hv) hv, ?_⟩
        rw [Amounts.get_add, hget, share_lot, haccount, hcarried]
        simp only [Option.some.injEq]

theorem valuesOn_of_whole {values : List (String × ℚ)} (hnodup : (values.map Prod.fst).Nodup)
    (hwhole : ∀ e ∈ values, IsWhole currency e.2) : valuesOn currency code values = Amounts.get code values := by
  rw [← Amounts.totalOf_eq_get hnodup, valuesOn, Amounts.totalOf]
  refine congrArg List.sum (List.map_congr_left fun e he => ?_)
  rw [roundMoney_of_isWhole (hwhole e he)]

/-- **Samples taken out** leave the books with the lots. -/
theorem deleteSamples_spec (hon : S.accounting = true) (hcode : ¬S.Counters code) (hb : b.Sound) {ids : List String}
    (hwhole : ∀ f ∈ b.rows ids, ∀ v, StoredItem.heldValue T f.2 = .ok (some v) → IsWhole S.currency v)
    (h : b.deleteDemoItems T S ids = .ok b') :
    b'.Sound ∧ b'.apart T S.currency code = b.apart T S.currency code := by
  unfold LotLedger.deleteDemoItems at h
  split_ifs at h with hnone
  · cases h
    exact ⟨hb, rfl⟩
  obtain ⟨⟨⟩, -, h⟩ := bind_eq_ok.1 h
  obtain ⟨b₁, hb₁, h⟩ := bind_eq_ok.1 h
  cases h
  unfold LotLedger.removeOpeningLots at hb₁
  rw [if_neg (by simp [hnone, hon])] at hb₁
  obtain ⟨values, hvalues, hb₁⟩ := bind_eq_ok.1 hb₁
  obtain ⟨hnodup, hall, hget⟩ := removedValues_spec code hwhole (mapError_eq_ok.1 hvalues)
  obtain ⟨hsame, hnet⟩ := postOpeningStockDelta_spec hcode hb₁
  rw [if_neg Bool.false_ne_true, valuesOn_of_whole hnodup hall, hget] at hnet
  refine ⟨⟨fun id state hget' => ?_, hsame.moves ▸ hb.moves⟩, ?_⟩
  · have hkept : (if decide (id ∉ ids) then Dicts.get? b₁.lots id else none) = some state :=
      (Dicts.get?_filter_key fun id => decide (id ∉ ids)).symm.trans hget'
    split_ifs at hkept
    rw [hsame.lots] at hkept
    exact hb.lots id state hkept
  · have hrows : carried (lotHolding T S.currency) code (b.rows ids) =
        carried (lotHolding T S.currency) code (b.lots.filter fun f => decide (f.1 ∈ ids)) :=
      carried_perm (List.perm_insertionSort _ _)
    have hkept : (b₁.eraseItems ids).carriedOn T S.currency code =
        carried (lotHolding T S.currency) code (b.lots.filter fun f => !decide (f.1 ∈ ids)) := by
      change carried (lotHolding T S.currency) code (b₁.lots.filter fun f => decide (f.1 ∉ ids)) = _
      rw [hsame.lots]
      exact congrArg _ (List.filter_congr fun f _ => decide_not)
    have hlines : (b₁.eraseItems ids).lines = b₁.lines := rfl
    rw [LotLedger.apart, hlines, hnet, hkept, hrows, LotLedger.apart, LotLedger.carriedOn,
      carried_filter b.lots fun f => decide (f.1 ∈ ids)]
    ring

/-! ## Moves -/

/-- What a move has come to: the lots hold what they did, and each account carries of them what it
    received more. -/
structure Moving (T : Texts) (currency code : String) (b : LotLedger) (moving : LotLedger × List (String × ℚ)) : Prop where
  sound : moving.1.Sound
  lines : moving.1.lines = b.lines
  moves : moving.1.moves = b.moves
  values : ∀ id, (Dicts.get? moving.1.lots id).map (carriedValue T currency) =
    (Dicts.get? b.lots id).map (carriedValue T currency)
  distinct : (moving.2.map Prod.fst).Nodup
  whole : ∀ e ∈ moving.2, IsWhole currency e.2
  carried : moving.1.carriedOn T currency code = b.carriedOn T currency code + Amounts.get code moving.2

/-- **One lot moved.** -/
theorem Moving.step (hU : U.HandlesItems T) (hB : B.Under U) {moving : LotLedger × List (String × ℚ)}
    (hm : Moving T currency code b moving) {m : LotMoved} (hto : m.toAccount ≠ "") {value : ℚ}
    (hvalue : StoredItem.bookedValue T currency ((Dicts.get? b.lots m.lot).getD []) = .ok value) {depth : ℕ} {moveId : String}
    {b₁ : LotLedger} (h : moving.1.emitItem T B S depth (movedRequest m moveId) = .ok b₁) :
    Moving T currency code b
      (b₁, Amounts.add m.fromAccount (-value) (Amounts.add m.toAccount value moving.2)) := by
  obtain ⟨before, after, hrenamed, hheld⟩ := emitItem_account hU hB hm.sound hto accountEvent_moved h
  have hfound : Dicts.get? moving.1.lots m.lot = some before := hrenamed.found
  -- the lot holds what the rows said
  have hsame : carriedValue T currency before = value := by
    have hvalues := hm.values m.lot
    rw [hfound, Option.map_some] at hvalues
    obtain ⟨state, hstate, hcarried⟩ := Option.map_eq_some_iff.1 hvalues.symm
    rw [hstate] at hvalue
    rw [← hcarried]
    exact carriedValue_of_booked hvalue
  have hwhole : IsWhole currency value := hsame ▸ isWhole_carriedValue
  -- and it was on the account the move takes it from
  have hfrom : recordedAccount T before = some m.fromAccount := by
    obtain ⟨htruthy, hsamefrom⟩ := hheld.mover (by simp [movedRequest, accountField])
    have hget : Json.get (movedRequest m moveId).data "from_account" = .str m.fromAccount := by
      simp [movedRequest, Json.get, Dicts.get?_cons, LOT_ACCOUNT_FIELD]
    rw [hget] at hsamefrom
    have haccount : Json.get before LOT_ACCOUNT_FIELD = .str m.fromAccount := eq_of_same_str hsamefrom
    have htruthy : (Json.get before LOT_ACCOUNT_FIELD).truthy = true := htruthy
    unfold recordedAccount
    rw [if_pos htruthy, haccount]
    rfl
  refine ⟨hrenamed.isSound hm.sound, hrenamed.lines.trans hm.lines, ?_, fun id => ?_, ?_, ?_, ?_⟩
  · rw [hrenamed.set]
    exact hm.moves
  · rw [hrenamed.set, ← hm.values]
    change (Dicts.get? (Dicts.set moving.1.lots m.lot after) id).map _ = _
    rw [Dicts.get?_set]
    split_ifs with hid
    · rw [hid, hfound, Option.map_some, Option.map_some, hrenamed.holds.carriedValue]
    · rfl
  · exact Amounts.nodup_add (Amounts.nodup_add hm.distinct)
  · exact Amounts.forall_add (Amounts.forall_add hm.whole (fun w hw => hw.add hwhole) hwhole)
      (fun w hw => hw.add hwhole.neg) hwhole.neg
  · rw [hrenamed.carriedOn, hm.carried, Amounts.get_add, Amounts.get_add, share_lot, hfrom, hsame]
    simp only [Option.some.injEq, eq_comm (a := code)]
    split_ifs <;> ring

/-- The lines of a move, on an account. -/
theorem net_movedLines {moved : List (String × ℚ)} (hnodup : (moved.map Prod.fst).Nodup) :
    net code ((moved.filter (0 < ·.2)).map (fun v => .debitOf v.1 v.2) ++
      (moved.filter (·.2 < 0)).map fun v => .creditOf v.1 (-v.2)) = Amounts.get code moved := by
  rw [← Amounts.totalOf_eq_get hnodup]
  clear hnodup
  induction moved with
  | nil => rfl
  | cons e moved ih =>
    rw [net_append] at ih ⊢
    rw [Amounts.totalOf_cons, ← ih]
    rcases lt_trichotomy e.2 0 with he | he | he
    · have hline : (if (Line.creditOf e.1 (-e.2)).account = code then
          (Line.creditOf e.1 (-e.2)).debit - (Line.creditOf e.1 (-e.2)).credit else 0) = if e.1 = code then e.2 else 0 :=
        if_congr Iff.rfl ((zero_sub _).trans (neg_neg _)) rfl
      rw [List.filter_cons_of_neg (by simpa using he.le), List.filter_cons_of_pos (by simpa using he), List.map_cons,
        net_cons, hline]
      ring
    · rw [List.filter_cons_of_neg (by simp [he]), List.filter_cons_of_neg (by simp [he]), he]
      simp
    · have hline : (if (Line.debitOf e.1 e.2).account = code then
          (Line.debitOf e.1 e.2).debit - (Line.debitOf e.1 e.2).credit else 0) = if e.1 = code then e.2 else 0 :=
        if_congr Iff.rfl (sub_zero _) rfl
      rw [List.filter_cons_of_pos (by simpa using he), List.filter_cons_of_neg (by simpa using he.le), List.map_cons,
        net_cons, hline]
      ring

/-- **Lots moved** leave each account's balance less what it carries as it was. -/
theorem moveLots_spec (hU : U.HandlesItems T) (hB : B.Under U) (hb : b.Sound) {depth : ℕ} {moves : List LotMoved}
    {moveId request : String} (hmoves : ∀ m ∈ moves, m.fromAccount ≠ "" ∧ m.toAccount ≠ "")
    (h : b.moveLots T B S depth moves moveId request = .ok b') :
    b'.Sound ∧ b'.apart T S.currency code = b.apart T S.currency code := by
  obtain ⟨moving, hmoving, h⟩ := bind_eq_ok.1 h
  obtain ⟨b₂, hb₂, h⟩ := bind_eq_ok.1 h
  cases h
  have hm : Moving T S.currency code b moving := by
    refine keeps_of_foldlM_eq_ok (I := Moving T S.currency code b) (fun m hm moving moving' hstep hI => ?_) hmoving
      ⟨hb, rfl, rfl, fun _ => rfl, .nil, nofun, (add_zero _).symm⟩
    obtain ⟨value, hvalue, hstep⟩ := bind_eq_ok.1 hstep
    obtain ⟨b₁, hb₁, hstep⟩ := bind_eq_ok.1 hstep
    cases hstep
    exact hI.step hU hB (hmoves m hm).2 (mapError_eq_ok.1 hvalue) hb₁
  have hperm := List.perm_insertionSort (fun v w : String × ℚ => v.1 ≤ w.1) moving.2
  have hnodup : ((moving.2.insertionSort (·.1 ≤ ·.1)).map Prod.fst).Nodup := (hperm.map _).nodup_iff.2 hm.distinct
  have hmoved : Amounts.get code (moving.2.insertionSort (·.1 ≤ ·.1)) = Amounts.get code moving.2 := by
    rw [← Amounts.totalOf_eq_get hnodup, ← Amounts.totalOf_eq_get hm.distinct]
    exact (hperm.map _).sum_eq
  have hspec : SameLots moving.1 b₂ ∧ net code b₂.lines = net code b.lines + Amounts.get code moving.2 := by
    split_ifs at hb₂ with hempty
    · cases hb₂
      refine ⟨.refl _, ?_⟩
      rw [hm.lines, ← hmoved, ← net_movedLines hnodup, List.isEmpty_iff.1 hempty, net_nil, add_zero]
    · have hlines : ∀ l ∈ ((moving.2.insertionSort (·.1 ≤ ·.1)).filter (0 < ·.2)).map (fun v => Line.debitOf v.1 v.2) ++
          ((moving.2.insertionSort (·.1 ≤ ·.1)).filter (·.2 < 0)).map fun v => .creditOf v.1 (-v.2),
            l.Whole S.currency := by
        intro l hl
        have hzero := isWhole_zero S.currency
        rw [List.mem_append, List.mem_map, List.mem_map] at hl
        rcases hl with ⟨v, hv, rfl⟩ | ⟨v, hv, rfl⟩
        · exact ⟨hm.whole v ((List.mem_insertionSort _).1 (List.mem_of_mem_filter hv)), hzero⟩
        · exact ⟨hzero, (hm.whole v ((List.mem_insertionSort _).1 (List.mem_of_mem_filter hv))).neg⟩
      obtain ⟨hsame, hnet⟩ := post_spec code hlines hb₂
      rw [net_movedLines hnodup, hmoved, hm.lines] at hnet
      exact ⟨hsame, hnet⟩
  obtain ⟨hsame, hnet⟩ := hspec
  have hsound := hsame.sound hm.sound
  refine ⟨⟨hsound.lots, fun id done hdone => ?_⟩, ?_⟩
  · have hset : (if id = moveId then some (request, moves) else Dicts.get? b₂.moves id) = some done :=
      Dicts.get?_set.symm.trans hdone
    split_ifs at hset
    · cases hset
      exact hmoves
    · exact hsound.moves id done hset
  · change net code b₂.lines - b₂.carriedOn T S.currency code = _
    rw [hnet, hsame.carriedOn, hm.carried, LotLedger.apart]
    ring

/-- **Older lots moved to another account**, or as before where the move was made already. -/
theorem moveLotAccounts_spec (hU : U.HandlesItems T) (hB : B.Under U) (hb : b.Sound) {depth : ℕ} {ids : List String}
    {account moveId request : String} (h : b.moveLotAccounts T B S depth ids account moveId request = .ok b') :
    b'.Sound ∧ b'.apart T S.currency code = b.apart T S.currency code := by
  unfold LotLedger.moveLotAccounts at h
  cases hdone : Dicts.get? b.moves moveId with
  | some done =>
    rw [hdone] at h
    simp only at h
    split_ifs at h
    cases h
    exact ⟨hb, rfl⟩
  | none =>
    rw [hdone] at h
    simp only at h
    split_ifs at h with hblank hmissing hout
    · obtain ⟨⟨⟩, -, h⟩ := bind_eq_ok.1 h
      cases h
    obtain ⟨⟨⟩, -, h⟩ := bind_eq_ok.1 h
    obtain ⟨accounts, haccounts, h⟩ := bind_eq_ok.1 h
    split_ifs at h
    · cases h
      exact ⟨hb, rfl⟩
    · refine moveLots_spec hU hB hb (fun m hm => ?_) h
      obtain ⟨f, hf, hfm⟩ := Grouping.exists_of_mem_right (forall₂_of_mapM_eq_ok haccounts) (List.mem_of_mem_filter hm)
      have hsound := hb.lots f.1 f.2 (get?_of_mem_rows hf)
      cases hrecorded : recordedAccount T f.2 with
      | none =>
        rw [hrecorded] at hfm
        cases hfm
      | some recorded =>
        rw [hrecorded] at hfm
        cases hfm
        rw [recordedAccount_eq hsound.account] at hrecorded
        exact ⟨ne_of_accountIn hrecorded, hblank⟩

/-- **A move undone.** -/
theorem undoLotMove_spec (hU : U.HandlesItems T) (hB : B.Under U) (hb : b.Sound) {depth : ℕ} {moveId : String}
    (h : b.undoLotMove T B S depth moveId = .ok b') :
    b'.Sound ∧ b'.apart T S.currency code = b.apart T S.currency code := by
  unfold LotLedger.undoLotMove at h
  cases hdone : Dicts.get? b.moves moveId with
  | none =>
    rw [hdone] at h
    cases h
  | some done =>
    rw [hdone] at h
    simp only at h
    split_ifs at h
    obtain ⟨⟨⟩, -, h⟩ := bind_eq_ok.1 h
    refine moveLots_spec hU hB hb (fun m hm => ?_) h
    obtain ⟨m', hm', rfl⟩ := List.mem_map.1 hm
    exact (hb.moves moveId done hdone m' hm').symm

/-! ## Runs -/

/-- A step that books what it changes of the lots: an event as `OrdinaryEvent` has it, and samples
    that hold whole amounts. -/
def OrdinaryStep (T : Texts) (B : Build) (S : StockRules) (b : LotLedger) : LotStep → Prop
  | .event r => OrdinaryEvent T B S b r
  | .deleteSamples ids => ∀ f ∈ b.rows ids, ∀ v, StoredItem.heldValue T f.2 = .ok (some v) → IsWhole S.currency v
  | _ => True

/-- **One step** leaves each account's balance less what it carries as it was. -/
theorem lotStep_spec (hU : U.HandlesItems T) (hB : B.Under U) (hon : S.accounting = true) (hcode : ¬S.Counters code)
    (hb : b.Sound) {depth : ℕ} {step : LotStep} (hstep : OrdinaryStep T B S b step)
    (h : b.step T B S depth step = .ok b') : b'.Sound ∧ b'.apart T S.currency code = b.apart T S.currency code := by
  cases step with
  | event r => exact emitItem_spec hU hB hon hcode hb hstep h
  | recognize ids => exact recognize_spec hU hB hcode hb h
  | deleteSamples ids => exact deleteSamples_spec hon hcode hb hstep h
  | move ids account moveId request => exact moveLotAccounts_spec hU hB hb h
  | undo moveId => exact undoLotMove_spec hU hB hb h

/-- What the books come to; what is refused changes nothing. -/
def LotLedger.run (T : Texts) (B : Build) (depth : ℕ) (b : LotLedger) : List (StockRules × LotStep) → LotLedger
  | [] => b
  | s :: steps =>
    match b.step T B s.1 depth s.2 with
    | .ok b' => b'.run T B depth steps
    | .error _ => b.run T B depth steps

/-- Every step of a run books what it changes. -/
def OrdinaryRun (T : Texts) (B : Build) (depth : ℕ) (b : LotLedger) : List (StockRules × LotStep) → Prop
  | [] => True
  | s :: steps => OrdinaryStep T B s.1 b s.2 ∧ match b.step T B s.1 depth s.2 with
    | .ok b' => OrdinaryRun T B depth b' steps
    | .error _ => OrdinaryRun T B depth b steps

/-- **The books carry the lots to the cent.**  Over a run of lots' events, stock brought in, samples
    taken out, and older lots moved and moved back, with the accounting module on, each account that
    stock is not booked against keeps its balance less what it carries of the lots. -/
theorem lots_carried (hU : U.HandlesItems T) (hB : B.Under U) {depth : ℕ} {currency code : String}
    {steps : List (StockRules × LotStep)} (hrules : ∀ s ∈ steps, s.1.accounting = true ∧ s.1.currency = currency)
    (hcode : ∀ s ∈ steps, ¬s.1.Counters code) {b : LotLedger} (hb : b.Sound) (hrun : OrdinaryRun T B depth b steps) :
    (b.run T B depth steps).Sound ∧ (b.run T B depth steps).apart T currency code = b.apart T currency code := by
  induction steps generalizing b with
  | nil => exact ⟨hb, rfl⟩
  | cons s steps ih =>
    rw [List.forall_mem_cons] at hrules hcode
    obtain ⟨⟨hon, hcurrency⟩, hrules⟩ := hrules
    obtain ⟨hstep, hrun⟩ := hrun
    rw [LotLedger.run]
    cases h : b.step T B s.1 depth s.2 with
    | error e =>
      rw [h] at hrun
      exact ih hrules hcode.2 hb hrun
    | ok b' =>
      rw [h] at hrun
      obtain ⟨hb', hapart⟩ := lotStep_spec hU hB hon hcode.1 hb hstep h
      obtain ⟨hsound, hrest⟩ := ih hrules hcode.2 hb' hrun
      rw [hcurrency] at hapart
      exact ⟨hsound, hrest.trans hapart⟩

/-- The settings of a company that books its stock on 1220. -/
def stoneRules : StockRules where
  accounting := true
  currency := "USD"
  resolve
    | inventoryOpening => .ok "1220"
    | retainedEarnings => .ok "3200"
    | stockGain => .ok "4900"
    | _ => .ok "5900"
  resolved := fun role code h => by
    cases role <;> cases h <;> decide
  usable := fun _ _ => .ok ()
  sourceLotAccount := none
  check := fun _ => .ok ()
  judge := fun _ _ => .ok ()
  takes := fun _ => .ok ()
  movable := fun _ _ => .ok ()
  removable := fun _ => .ok ()

/-- A stone worth 100, in a status. -/
def stoneLot (status : String) : Dict :=
  [("sku", .str "S1"), ("status", .str status), ("quantity", .num 1), ("cost_total", .num 100)]

/-- The books of the stone alone. -/
def stoneBooks (status : String) : LotLedger where
  lots := [("item:1", stoneLot status)]
  distinct := List.nodup_singleton _

/-- The stone made available. -/
def stoneAvailable : Request where
  companyId := ""
  entityId := "item:1"
  entityType := "item"
  eventType := "item.status.set"
  data := [("new_status", .str "available")]
  source := "api"
  idempotencyKey := "k"
  metadata := []

theorem lots_carried_stone :
    let steps := [LotStep.event stoneAvailable, .recognize ["item:1"], .move ["item:1"] "1230" "m" "r", .undo "m"]
    let books := (stoneBooks "draft").run plainTexts itemBuild 2 (steps.map (stoneRules, ·))
    books.Sound ∧ books.apart plainTexts "USD" "1220" = (stoneBooks "draft").apart plainTexts "USD" "1220" := by
  intro steps books
  have hU : itemBuild.HandlesItems plainTexts := ⟨itemBuild_settled, by simp [itemBuild], by simp [itemBuild]⟩
  have hcode : ¬stoneRules.Counters "1220" := by
    rintro (h | h | h)
    · exact absurd (Except.ok.inj h) (by decide)
    · exact absurd (Except.ok.inj h) (by decide)
    · exact absurd (Except.ok.inj h) (by decide)
  have hsound : (stoneBooks "draft").Sound := by
    refine ⟨fun id state h => ?_, fun move moved h => ?_⟩
    · obtain ⟨-, rfl⟩ : id = "item:1" ∧ stoneLot "draft" = state := by
        simpa [stoneBooks, Dicts.get?_cons] using h
      exact ⟨.inl rfl, .inl rfl⟩
    · simp [stoneBooks, Dicts.get?] at h
  have hwrite : (stoneBooks "draft").write plainTexts itemBuild stoneRules stoneAvailable =
      .ok (stoneBooks "available", stoneAvailable, ⟨some (stoneLot "draft"), stoneLot "available"⟩) := rfl
  have hevent : OrdinaryEvent plainTexts itemBuild stoneRules (stoneBooks "draft") stoneAvailable := by
    have hunnamed : accountField.names stoneAvailable.eventType ≠ true := by decide
    refine ⟨⟨by decide, ?_, fun h => absurd h hunnamed, ?_, ?_, .inl (by decide)⟩, fun h => absurd h hunnamed, by decide,
      ?_, ?_⟩
    · intro fields h
      simp [stoneAvailable, Dicts.get?_cons] at h
    · intro h
      exact absurd h (by decide)
    · intro h
      exact absurd h (by decide)
    · intro b' r' t before h hbefore
      rw [hwrite] at h
      cases h
      cases hbefore
      exact .inr (by decide)
    · intro before h hstock
      cases h
      exact absurd hstock (by decide)
  have hrest : ∀ b, OrdinaryRun plainTexts itemBuild 2 b ((steps.drop 1).map (stoneRules, ·)) := by
    intro b
    refine ⟨trivial, ?_⟩
    split
    all_goals
      refine ⟨trivial, ?_⟩
      split
      all_goals
        refine ⟨trivial, ?_⟩
        split
        all_goals trivial
  have hrun : OrdinaryRun plainTexts itemBuild 2 (stoneBooks "draft") (steps.map (stoneRules, ·)) := by
    refine ⟨hevent, ?_⟩
    split
    · exact hrest _
    · exact hrest _
  refine lots_carried hU (fun _ => id) ?_ ?_ hsound hrun
  · simp [steps, stoneRules]
  · simp [steps, hcode]

end

end Celerp
