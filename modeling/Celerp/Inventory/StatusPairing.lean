/-
  The document behind a lot's status.

  A lot whose status a document gave stores the document's id and number, and a reserved
  one the line that holds it.  `_stamp_status_doc` writes them all; the other branches of
  `_apply_item_event` write the status, or one of the three, by themselves.

  * `Paired`: the number is stored where the id is, and the line only on a lot reserved by
    a document;
  * `KeepsPairing`: the events that leave a paired lot paired (`paired_step_iff`);
  * `status_paired_iff`: a run leaves every state paired exactly where all its events do.
-/
import Celerp.Inventory.ItemCost
import Mathlib.Data.String.Basic

namespace Celerp

/-! ## The fields an event names -/

namespace ItemField

/-- The key of a field. -/
def key : ItemField → String
  | .quantity _ => "quantity"
  | .costBase _ => "cost_base"
  | .costTotal _ => "cost_total"
  | .costPrice _ => "cost_price"
  | .costLanded _ => "cost_landed"
  | .landedCosts _ => "landed_costs"
  | .landedContributions _ => "landed_contributions"
  | .goodsCostUnknown _ => "goods_cost_unknown"
  | .status _ => "status"
  | .statusDocId _ => "status_doc_id"
  | .statusDocNumber _ => "status_doc_number"
  | .statusLineId _ => "status_line_entity_id"
  | .sellBy _ => "sell_by"
  | .weight _ => "weight"
  | .weightUnit _ => "weight_unit"
  | .inventoryType _ => "inventory_type"
  | .inventoryAccount _ => "inventory_account"
  | .mergedInto _ => "merged_into"
  | .reservedQuantity _ => "reserved_quantity"
  | .quantityFulfilled _ => "quantity_fulfilled"
  | .other name => name

/-- The keys of the document behind a status. -/
def documentKeys : List String := ["status_doc_id", "status_doc_number", "status_line_entity_id"]

def status? : ItemField → Option String
  | .status v => some v
  | _ => none

def statusDocId? : ItemField → Option (Option String)
  | .statusDocId v => some v
  | _ => none

def statusDocNumber? : ItemField → Option (Option String)
  | .statusDocNumber v => some v
  | _ => none

def statusLineId? : ItemField → Option (Option String)
  | .statusLineId v => some v
  | _ => none

end ItemField

/-- Data naming each of its keys once. -/
def Keyed (data : List ItemField) : Prop := (data.map ItemField.key).Nodup

/-- An event that leaves the document behind the status to the events that set a status:
    a creation or an edit names none of its keys, a patch no line. -/
def ItemEvent.LeavesDocument : ItemEvent → Prop
  | .created data => Keyed data ∧ ∀ f ∈ data, f.key ∉ ItemField.documentKeys
  | .updated data _ => Keyed data ∧ ∀ f ∈ data, f.key ∉ ItemField.documentKeys
  | .patched data => Keyed data ∧ ∀ f ∈ data, f.key ≠ "status_line_entity_id"
  | _ => True

section
variable {α : Type} {data : List ItemField} {value : ItemField → Option α} {k : String} {s : ItemState}

/-- Data naming its keys once gives a key nothing after it gave it a value. -/
theorem findSome?_tail {f : ItemField} {v : α} (hkeys : Keyed (f :: data))
    (hkey : ∀ f v, value f = some v → f.key = k) (hf : value f = some v) : data.findSome? value = none := by
  rw [List.findSome?_eq_none_iff]
  intro g hg
  by_contra hsome
  obtain ⟨w, hw⟩ := Option.ne_none_iff_exists'.1 hsome
  have hsame : g.key = f.key := (hkey g w hw).trans (hkey f v hf).symm
  exact (List.nodup_cons.1 hkeys).1 (List.mem_map.2 ⟨g, hg, hsame⟩)

/-- An update leaves under a key what the data gives it. -/
theorem update_eq (field : ItemState → α) (hput : ∀ s f, field (s.put f) = (value f).getD (field s))
    (hkey : ∀ f v, value f = some v → f.key = k) (hkeys : Keyed data) :
    field (s.update data) = (data.findSome? value).getD (field s) := by
  induction data generalizing s with
  | nil => rfl
  | cons f data ih =>
    have hrest : Keyed data := (List.nodup_cons.1 hkeys).2
    have hstep : field (s.update (f :: data)) = field ((s.put f).update data) := rfl
    rw [hstep, ih hrest, hput, List.findSome?_cons]
    cases hf : value f with
    | none => rfl
    | some v =>
      rw [findSome?_tail hkeys hkey hf]
      rfl

/-- A text neither none nor blank. -/
def isStated (v : Option (Option String)) : Bool := v.any (·.any (· ≠ ""))

/-- Data states a text under a key where it gives it one. -/
theorem any_states {value : ItemField → Option (Option String)} {text : ItemField → Option String}
    (htext : ∀ f, text f = (value f).join) (hkey : ∀ f v, value f = some v → f.key = k) (hkeys : Keyed data) :
    data.any (·.states text) = isStated (data.findSome? value) := by
  induction data with
  | nil => rfl
  | cons f data ih =>
    have hrest : Keyed data := (List.nodup_cons.1 hkeys).2
    rw [List.any_cons, ih hrest, List.findSome?_cons, ItemField.states, htext]
    cases hf : value f with
    | none => rfl
    | some v =>
      rw [findSome?_tail hkeys hkey hf]
      cases v with
      | none => rfl
      | some w => by_cases hw : w = "" <;> simp [isStated, hw, Option.filter]

theorem isStated_iff {v : Option (Option String)} :
    isStated v = true ↔ ∃ text, v = some (some text) ∧ text ≠ "" := by
  rcases v with - | - | text <;> simp [isStated]

/-- What is stored under a key given no text. -/
theorem isSome_of_not_stated {v : Option (Option String)} (h : ¬isStated v) (old : Option String) :
    (v.getD old).isSome ↔ if old.isSome then v ≠ some none else v = some (some "") := by
  rcases v with - | - | text
  · cases old <;> simp
  · cases old <;> simp
  · have hblank : text = "" := by simpa [isStated] using h
    cases old <;> simp [hblank]

theorem any_isStatus : data.any ItemField.isStatus = (data.findSome? ItemField.status?).isSome := by
  induction data with
  | nil => rfl
  | cons f data ih =>
    rw [List.any_cons, ih, List.findSome?_cons]
    cases f <;> rfl

theorem key_of_status? : ∀ f v, ItemField.status? f = some v → f.key = "status" := by
  intro f v h
  cases f <;> simp_all [ItemField.status?, ItemField.key]

theorem key_of_statusDocId? : ∀ f v, ItemField.statusDocId? f = some v → f.key = "status_doc_id" := by
  intro f v h
  cases f <;> simp_all [ItemField.statusDocId?, ItemField.key]

theorem key_of_statusDocNumber? :
    ∀ f v, ItemField.statusDocNumber? f = some v → f.key = "status_doc_number" := by
  intro f v h
  cases f <;> simp_all [ItemField.statusDocNumber?, ItemField.key]

theorem key_of_statusLineId? :
    ∀ f v, ItemField.statusLineId? f = some v → f.key = "status_line_entity_id" := by
  intro f v h
  cases f <;> simp_all [ItemField.statusLineId?, ItemField.key]

theorem update_status (hkeys : Keyed data) :
    (s.update data).status = (data.findSome? ItemField.status?).getD s.status :=
  update_eq (fun s => s.status) (by intro s f; cases f <;> rfl) key_of_status? hkeys

theorem update_statusDocId (hkeys : Keyed data) :
    (s.update data).statusDocId = (data.findSome? ItemField.statusDocId?).getD s.statusDocId :=
  update_eq (fun s => s.statusDocId) (by intro s f; cases f <;> rfl) key_of_statusDocId? hkeys

theorem update_statusDocNumber (hkeys : Keyed data) :
    (s.update data).statusDocNumber = (data.findSome? ItemField.statusDocNumber?).getD s.statusDocNumber :=
  update_eq (fun s => s.statusDocNumber) (by intro s f; cases f <;> rfl) key_of_statusDocNumber? hkeys

theorem update_statusLineId (hkeys : Keyed data) :
    (s.update data).statusLineId = (data.findSome? ItemField.statusLineId?).getD s.statusLineId :=
  update_eq (fun s => s.statusLineId) (by intro s f; cases f <;> rfl) key_of_statusLineId? hkeys

/-- A key the data does not name is given nothing. -/
theorem findSome?_eq_none (hkey : ∀ f v, value f = some v → f.key = k) (h : ∀ f ∈ data, f.key ≠ k) :
    data.findSome? value = none := by
  rw [List.findSome?_eq_none_iff]
  intro f hf
  by_contra hsome
  obtain ⟨v, hv⟩ := Option.ne_none_iff_exists'.1 hsome
  exact h f hf (hkey f v hv)

end

/-! ## The pairing -/

namespace ItemState

/-- The status of a lot and the document behind it. -/
def statusPairing (s : ItemState) : String × Option String × Option String × Option String :=
  (s.status, s.statusDocId, s.statusDocNumber, s.statusLineId)

/-- A lot is held by a line: it is reserved, and names the document that reserved it. -/
def HeldByDocument (s : ItemState) : Prop :=
  s.status = "reserved" ∧ ∃ docId, s.statusDocId = some docId ∧ docId ≠ ""

/-- A status names its document whole: the number where the id, and the line on a reserved
    lot that names a document. -/
structure Paired (s : ItemState) : Prop where
  number : s.statusDocNumber.isSome ↔ s.statusDocId.isSome
  line : s.statusLineId.isSome → s.HeldByDocument

variable {round : ℚ → ℚ} {s s' : ItemState}

theorem Paired.congr (h : s.Paired) (heq : s'.statusPairing = s.statusPairing) : s'.Paired := by
  simp only [statusPairing, Prod.mk.injEq] at heq
  obtain ⟨hstatus, hid, hnumber, hline⟩ := heq
  constructor
  · rw [hid, hnumber]
    exact h.number
  · rw [hline, HeldByDocument, hstatus, hid]
    exact h.line

theorem paired_of_none (hid : s.statusDocId = none) (hnumber : s.statusDocNumber = none)
    (hline : s.statusLineId = none) : s.Paired := by
  constructor
  · rw [hid, hnumber]
  · intro h
    rw [hline] at h
    exact absurd h Bool.false_ne_true

/-- **A stamp pairs the status with its document.** -/
theorem paired_stampStatusDoc (s : ItemState) (doc : StatusDoc) : (s.stampStatusDoc doc).Paired := by
  unfold stampStatusDoc
  cases hid : doc.sourceDocId.filter (· ≠ "") with
  | none => exact paired_of_none rfl rfl rfl
  | some docId =>
    have hne : docId ≠ "" := by simpa using (Option.filter_eq_some_iff.1 hid).2
    refine ⟨Iff.rfl, fun hline => ?_⟩
    dsimp only at hline ⊢
    by_cases hstatus : s.status = "reserved"
    · exact ⟨hstatus, docId, rfl, hne⟩
    · rw [if_neg hstatus] at hline
      exact absurd hline Bool.false_ne_true

theorem paired_setStatus (s : ItemState) (status : String) (doc : StatusDoc) : (s.setStatus status doc).Paired :=
  paired_stampStatusDoc _ doc

/-! ### Operations that leave it alone -/

@[simp] theorem recomputeCost_statusPairing : (s.recomputeCost round).statusPairing = s.statusPairing := by
  unfold recomputeCost
  cases s.recomputedBase round <;> rfl

@[simp] theorem migrateSellBy_statusPairing : s.migrateSellBy.statusPairing = s.statusPairing := by
  unfold migrateSellBy
  split_ifs <;> rfl

theorem setQuantity_statusPairing (newQty : ℚ) (costBase : Option ℚ) (landedCosts : Option Pools) :
    (s.setQuantity round newQty costBase landedCosts).statusPairing = s.statusPairing := by
  unfold setQuantity
  cases costBase with
  | some base => exact recomputeCost_statusPairing
  | none =>
    dsimp only
    split_ifs <;> exact recomputeCost_statusPairing

theorem foldl_applyGoodsCost_statusPairing (changes : List (GoodsField × Option ℚ)) (unknown : Bool) :
    (changes.foldl (fun s change => s.applyGoodsCost round change.1 change.2 unknown) s).statusPairing =
      s.statusPairing := by
  induction changes generalizing s with
  | nil => rfl
  | cons change changes ih =>
    rw [List.foldl_cons, ih]
    exact recomputeCost_statusPairing

/-- An edit naming no document leaves a lot paired: one of the status drops the pairing. -/
theorem paired_foldl_edit {fields : List ItemField} (hs : s.Paired)
    (h : ∀ f ∈ fields, f.key ∉ ItemField.documentKeys) : (fields.foldl edit s).Paired := by
  induction fields generalizing s with
  | nil => exact hs
  | cons f fields ih =>
    rw [List.forall_mem_cons] at h
    refine ih ?_ h.2
    cases f with
    | status v => exact paired_setStatus s v {}
    | statusDocId v => exact absurd (by simp [ItemField.key, ItemField.documentKeys]) h.1
    | statusDocNumber v => exact absurd (by simp [ItemField.key, ItemField.documentKeys]) h.1
    | statusLineId v => exact absurd (by simp [ItemField.key, ItemField.documentKeys]) h.1
    | _ => exact hs.congr rfl

end ItemState

/-! ## The events that keep it -/

namespace ItemState

/-- A lot held by a line stays reserved. -/
def KeepsReserved (s : ItemState) (data : List ItemField) : Prop :=
  s.statusLineId = none ∨ ∀ v, data.findSome? ItemField.status? = some v → v = "reserved"

/-- A patch keeps the pairing: it drops it, or states a document whole and leaves a lot held by
    a line reserved, or names a document's id and number as nothing both or neither. -/
def KeepsPatched (s : ItemState) (data : List ItemField) : Prop :=
  let docId := data.findSome? ItemField.statusDocId?
  let docNumber := data.findSome? ItemField.statusDocNumber?
  if isStated docNumber ≠ isStated docId ∨ (data.any ItemField.isStatus ∧ !isStated docId) then True
  else if isStated docId then s.KeepsReserved data
  else
    (s.statusLineId.isSome → docId = none) ∧
      if s.statusDocId.isSome then docId = some none ↔ docNumber = some none
      else docId = some (some "") ↔ docNumber = some (some "")

/-- An event keeps the pairing of a lot's status with its document. -/
def KeepsPairing (s : ItemState) : ItemEvent → Prop
  | .created data => s.KeepsReserved data
  | .patched data => s.KeepsPatched data
  | .consignmentBought _ consignmentDocId _ => s.statusDocId = some consignmentDocId → s.statusLineId = none
  | .pricingSet (.statusField .status) _ _ => s.statusLineId = none
  | .pricingSet (.statusField .docId) _ _ => s.statusDocId.isSome
  | .pricingSet (.statusField .docNumber) _ _ => s.statusDocId.isSome
  | .pricingSet (.statusField .lineId) _ _ => s.HeldByDocument
  | _ => True

variable {round : ℚ → ℚ} {s s' t : ItemState} {data : List ItemField} {e : ItemEvent}

theorem keepsReserved_iff (hs : s.Paired) (hkeys : Keyed data) :
    s.KeepsReserved data ↔ (s.statusLineId.isSome → (s.update data).status = "reserved") := by
  rw [KeepsReserved, update_status hkeys]
  cases hline : s.statusLineId with
  | none => simp
  | some line =>
    have hheld : s.status = "reserved" := (hs.line (by rw [hline]; rfl)).1
    cases data.findSome? ItemField.status? <;> simp [hheld]

/-- A lot keeping its document and its line is paired where it stays reserved. -/
theorem paired_iff_of_kept (hs : s.Paired) (hid : t.statusDocId = s.statusDocId)
    (hnumber : t.statusDocNumber = s.statusDocNumber) (hline : t.statusLineId = s.statusLineId) :
    t.Paired ↔ (s.statusLineId.isSome → t.status = "reserved") := by
  constructor
  · intro ht hsome
    exact (ht.line (hline ▸ hsome)).1
  · intro hstatus
    refine ⟨by rw [hid, hnumber]; exact hs.number, fun hsome => ?_⟩
    rw [hline] at hsome
    refine ⟨hstatus hsome, ?_⟩
    rw [hid]
    exact (hs.line hsome).2

theorem paired_patched_iff (hs : s.Paired) (hkeys : Keyed data)
    (hline : ∀ f ∈ data, f.key ≠ "status_line_entity_id") :
    ((s.update data).pairPatched data).Paired ↔ s.KeepsPatched data := by
  have hnumber : data.any (·.states ItemField.docNumber?) =
      isStated (data.findSome? ItemField.statusDocNumber?) :=
    any_states (by intro f; cases f <;> rfl) key_of_statusDocNumber? hkeys
  have hid : data.any (·.states ItemField.docId?) = isStated (data.findSome? ItemField.statusDocId?) :=
    any_states (by intro f; cases f <;> rfl) key_of_statusDocId? hkeys
  have hkept : (s.update data).statusLineId = s.statusLineId := by
    rw [update_statusLineId hkeys, findSome?_eq_none key_of_statusLineId? hline]
    rfl
  have hidAfter : (s.update data).statusDocId = _ := update_statusDocId hkeys
  have hnumberAfter : (s.update data).statusDocNumber = _ := update_statusDocNumber hkeys
  unfold pairPatched KeepsPatched
  dsimp only
  rw [hnumber, hid]
  generalize data.findSome? ItemField.statusDocId? = docId at hidAfter ⊢
  generalize data.findSome? ItemField.statusDocNumber? = docNumber at hnumberAfter ⊢
  by_cases hdrop : isStated docNumber ≠ isStated docId ∨ (data.any ItemField.isStatus ∧ !isStated docId)
  · rw [if_pos hdrop, if_pos hdrop]
    exact iff_of_true (paired_stampStatusDoc _ _) trivial
  rw [if_neg hdrop, if_neg hdrop]
  rw [not_or, not_not, not_and] at hdrop
  obtain ⟨hsame, hstatus⟩ := hdrop
  by_cases hstated : isStated docId = true
  · -- the patch states the document whole
    rw [if_pos hstated, keepsReserved_iff hs hkeys]
    obtain ⟨id, rfl, hne⟩ := isStated_iff.1 hstated
    obtain ⟨number, rfl, -⟩ := isStated_iff.1 (hsame.trans hstated)
    rw [Option.getD_some] at hidAfter hnumberAfter
    constructor
    · intro ht hsome
      exact (ht.line (by rw [hkept]; exact hsome)).1
    · intro hreserved
      refine ⟨by rw [hidAfter, hnumberAfter]; rfl, fun hsome => ?_⟩
      rw [hkept] at hsome
      exact ⟨hreserved hsome, id, hidAfter, hne⟩
  · -- the patch states no document, and no status
    rw [if_neg hstated]
    have hunnamed : (s.update data).status = s.status := by
      have hany : ¬data.any ItemField.isStatus := fun hany => hstatus hany (by simpa using hstated)
      rw [any_isStatus, Option.not_isSome_iff_eq_none] at hany
      rw [update_status hkeys, hany]
      rfl
    have hnumbers : ((s.update data).statusDocNumber.isSome ↔ (s.update data).statusDocId.isSome) ↔
        if s.statusDocId.isSome then docId = some none ↔ docNumber = some none
        else docId = some (some "") ↔ docNumber = some (some "") := by
      rw [hidAfter, hnumberAfter, isSome_of_not_stated hstated, isSome_of_not_stated (hsame ▸ hstated)]
      by_cases hold : s.statusDocId.isSome
      · rw [if_pos hold, if_pos hold, if_pos (hs.number.2 hold), not_iff_not]
        exact iff_comm
      · rw [if_neg hold, if_neg hold, if_neg (fun h => hold (hs.number.1 h))]
        exact iff_comm
    have hlines : ((s.update data).statusLineId.isSome → (s.update data).HeldByDocument) ↔
        (s.statusLineId.isSome → docId = none) := by
      rw [hkept]
      refine imp_congr_right fun hsome => ?_
      obtain ⟨hreserved, id, hidOld, hne⟩ := hs.line hsome
      rw [HeldByDocument, hunnamed, hidAfter, hidOld]
      constructor
      · rintro ⟨-, id', heq, hne'⟩
        rcases docId with - | - | text
        · rfl
        · exact absurd heq (by simp)
        · exact absurd (isStated_iff.2 ⟨text, rfl, by simpa [Option.some.inj heq] using hne'⟩) hstated
      · rintro rfl
        exact ⟨hreserved, id, rfl, hne⟩
    rw [← hnumbers, ← hlines, and_comm]
    exact ⟨fun h => ⟨h.number, h.line⟩, fun h => ⟨h.1, h.2⟩⟩

/-- A creation leaves a lot paired where it leaves one held by a line reserved. -/
theorem paired_created_iff (hs : s.Paired) (hkeys : Keyed data)
    (hdocument : ∀ f ∈ data, f.key ∉ ItemField.documentKeys) (h : s.applyEvent round (.created data) = some s') :
    s'.Paired ↔ s.KeepsReserved data := by
  have hne : ∀ k ∈ ItemField.documentKeys, ∀ f ∈ data, f.key ≠ k := by
    rintro k hk f hf rfl
    exact hdocument f hf hk
  have hid : (s.update data).statusDocId = s.statusDocId := by
    rw [update_statusDocId hkeys, findSome?_eq_none key_of_statusDocId? (hne _ (by decide))]
    rfl
  have hnumber : (s.update data).statusDocNumber = s.statusDocNumber := by
    rw [update_statusDocNumber hkeys, findSome?_eq_none key_of_statusDocNumber? (hne _ (by decide))]
    rfl
  have hline : (s.update data).statusLineId = s.statusLineId := by
    rw [update_statusLineId hkeys, findSome?_eq_none key_of_statusLineId? (hne _ (by decide))]
    rfl
  -- a status never given becomes the default, which is not reserved
  have hdefault : (if (s.update data).status = "" ∧ ¬data.any ItemField.isStatus then DEFAULT_ITEM_STATUS
      else (s.update data).status) = "reserved" ↔ (s.update data).status = "reserved" := by
    split_ifs with hblank
    · simp [hblank.1, DEFAULT_ITEM_STATUS]
    · rfl
  obtain ⟨t, ht, hstatus, hid', hnumber', hline'⟩ : ∃ t : ItemState, s'.statusPairing = t.statusPairing ∧
      (t.status = "reserved" ↔ (s.update data).status = "reserved") ∧ t.statusDocId = s.statusDocId ∧
      t.statusDocNumber = s.statusDocNumber ∧ t.statusLineId = s.statusLineId := by
    obtain rfl := Option.some.inj h
    refine ⟨_, recomputeCost_statusPairing.trans migrateSellBy_statusPairing, hdefault, hid, hnumber, hline⟩
  rw [keepsReserved_iff hs hkeys, ← hstatus, ← paired_iff_of_kept hs hid' hnumber' hline']
  exact ⟨fun hpaired => hpaired.congr ht.symm, fun hpaired => hpaired.congr ht⟩

/-- A number is not the text of a status. -/
theorem toString_rat_ne (q : ℚ) : ∃ c rest, (toString q).toList = c :: rest ∧ c ≠ 'r' := by
  have hnat : ∀ n : ℕ, ∃ c rest, n.repr.toList = c :: rest ∧ c ≠ 'r' := by
    intro n
    obtain ⟨c, rest, h⟩ : ∃ c rest, Nat.toDigits 10 n = c :: rest :=
      List.exists_cons_of_ne_nil Nat.toDigits_ne_nil
    have hmem : c ∈ Nat.toDigits 10 n := by rw [h]; exact List.mem_cons_self
    have hdigit : c.isDigit = true := Nat.isDigit_of_mem_toDigits (by decide) le_rfl hmem
    refine ⟨c, rest, by rw [Nat.repr_eq_ofList_toDigits, h, String.toList_ofList], ?_⟩
    rintro rfl
    exact absurd hdigit (by decide)
  have hint : ∀ n : ℤ, ∃ c rest, (toString n).toList = c :: rest ∧ c ≠ 'r' := by
    intro n
    cases n with
    | ofNat m => exact hnat m
    | negSucc m =>
      refine ⟨'-', (m + 1).repr.toList, ?_, by decide⟩
      show ("-" ++ (m + 1).repr).toList = _
      rw [String.toList_append]
      rfl
  obtain ⟨c, rest, h, hc⟩ := hint q.num
  show ∃ c rest, (if q.den = 1 then toString q.num else s!"{q.num}/{q.den}").toList = _ ∧ _
  split_ifs
  · exact ⟨c, rest, h, hc⟩
  · refine ⟨c, rest ++ ("/" ++ toString q.den).toList, ?_, hc⟩
    show (toString q.num ++ "/" ++ toString q.den).toList = _
    rw [String.toList_append, String.toList_append, String.toList_append, h]
    simp

/-- A price under a status field leaves a lot paired where the others are there to pair it. -/
theorem paired_setPrice_iff {price : ℚ} {unknown : Bool} {field : StatusField} (hs : s.Paired) :
    (s.put (field.named (toString price))).Paired ↔
      s.KeepsPairing (.pricingSet (.statusField field) price unknown) := by
  obtain ⟨c, rest, htext, hc⟩ := toString_rat_ne price
  have hne : ∀ v : String, v.toList.head? ≠ some c → toString price ≠ v := by
    rintro v hv rfl
    exact hv (by rw [htext]; rfl)
  cases field with
  | status =>
    have hreserved : toString price ≠ "reserved" := hne _ fun heq => hc (Option.some.inj heq).symm
    have hkept : (s.put (.status (toString price))).Paired ↔ (s.statusLineId.isSome → toString price = "reserved") :=
      paired_iff_of_kept hs rfl rfl rfl
    refine hkept.trans ?_
    show (s.statusLineId.isSome → toString price = "reserved") ↔ s.statusLineId = none
    cases s.statusLineId <;> simp [hreserved]
  | docId =>
    have hblank : toString price ≠ "" := hne _ (by simp)
    constructor
    · intro ht
      exact hs.number.1 (ht.number.2 rfl)
    · intro hid
      exact ⟨iff_of_true (hs.number.2 hid) rfl, fun hsome => ⟨(hs.line hsome).1, _, rfl, hblank⟩⟩
  | docNumber =>
    constructor
    · intro ht
      exact ht.number.1 rfl
    · intro hid
      exact ⟨iff_of_true rfl hid, hs.line⟩
  | lineId => exact ⟨fun ht => ht.line rfl, fun hheld => ⟨hs.number, fun _ => hheld⟩⟩

/-- Buying consigned goods leaves a lot paired where the consignment holds it by no line. -/
theorem paired_bought_iff {costTotal : ℚ} {consignmentDocId account : String} (hs : s.Paired)
    (h : s.applyEvent round (.consignmentBought costTotal consignmentDocId account) = some s') :
    s'.Paired ↔ s.KeepsPairing (.consignmentBought costTotal consignmentDocId account) := by
  by_cases hdoc : s.statusDocId = some consignmentDocId
  · have hpairing : s'.statusPairing = (s.status, none, none, s.statusLineId) := by
      obtain rfl := Option.some.inj h
      refine recomputeCost_statusPairing.trans ?_
      dsimp only
      rw [if_pos hdoc]
      rfl
    simp only [statusPairing, Prod.mk.injEq] at hpairing
    obtain ⟨-, hid, hnumber, hline⟩ := hpairing
    constructor
    · intro ht _
      by_contra hsome
      obtain ⟨-, docId, hheld, -⟩ := ht.line (by rw [hline]; exact Option.isSome_iff_ne_none.2 hsome)
      exact absurd (hid.symm.trans hheld) (by simp)
    · intro hnone
      exact paired_of_none hid hnumber (hline.trans (hnone hdoc))
  · refine iff_of_true (hs.congr ?_) fun hid => absurd hid hdoc
    obtain rfl := Option.some.inj h
    refine recomputeCost_statusPairing.trans ?_
    dsimp only
    rw [if_neg hdoc]
    rfl

theorem paired_applyEvent_iff (hs : s.Paired) (he : e.LeavesDocument) (h : s.applyEvent round e = some s') :
    s'.Paired ↔ s.KeepsPairing e := by
  cases e with
  | created data => exact paired_created_iff hs he.1 he.2 h
  | patched data =>
    obtain ⟨t, rfl, ht⟩ : ∃ t : ItemState, s' = t.migrateSellBy.recomputeCost round ∧
        t.statusPairing = ((s.update data).pairPatched data).statusPairing :=
      ⟨_, (Option.some.inj h).symm, rfl⟩
    have hpairing : (t.migrateSellBy.recomputeCost round).statusPairing =
        ((s.update data).pairPatched data).statusPairing := by
      rw [recomputeCost_statusPairing, migrateSellBy_statusPairing, ht]
    refine Iff.trans ?_ (paired_patched_iff hs he.1 he.2)
    exact ⟨fun hpaired => hpaired.congr hpairing.symm, fun hpaired => hpaired.congr hpairing⟩
  | updated fieldsChanged unknown =>
    obtain rfl := Option.some.inj h
    refine iff_of_true ((paired_foldl_edit hs he.2).congr ?_) trivial
    rw [recomputeCost_statusPairing, foldl_applyGoodsCost_statusPairing]
  | consignmentBought costTotal consignmentDocId account => exact paired_bought_iff hs h
  | pricingSet priceType newPrice unknown =>
    cases priceType with
    | statusField field =>
      obtain rfl := Option.some.inj h
      exact paired_setPrice_iff hs
    | goods field =>
      obtain rfl := Option.some.inj h
      exact iff_of_true (hs.congr recomputeCost_statusPairing) trivial
    | landedCosts =>
      simp only [applyEvent, setPrice] at h
      split_ifs at h
      obtain rfl := Option.some.inj h
      exact iff_of_true (hs.congr rfl) trivial
    | landedContributions =>
      simp only [applyEvent, setPrice] at h
      split_ifs at h
      obtain rfl := Option.some.inj h
      exact iff_of_true (hs.congr rfl) trivial
    | _ =>
      obtain rfl := Option.some.inj h
      exact iff_of_true (hs.congr rfl) trivial
  | quantityAdjusted newQty costBase landedCosts unknown consignedIn =>
    obtain rfl := Option.some.inj h
    exact iff_of_true (hs.congr (setQuantity_statusPairing newQty costBase landedCosts)) trivial
  | consumed quantityConsumed costBase landedCosts =>
    obtain rfl := Option.some.inj h
    exact iff_of_true (hs.congr (setQuantity_statusPairing _ costBase landedCosts)) trivial
  | costAdjusted costTotal unknown =>
    obtain rfl := Option.some.inj h
    exact iff_of_true (hs.congr recomputeCost_statusPairing) trivial
  | landedCostAllocated sourceBillId kind amount =>
    obtain rfl := Option.some.inj h
    exact iff_of_true (hs.congr recomputeCost_statusPairing) trivial
  | landedCostApplied sourceBillId kind unitAmount =>
    obtain rfl := Option.some.inj h
    exact iff_of_true (hs.congr recomputeCost_statusPairing) trivial
  | fulfilled quantityFulfilled memo sourceDocId docNumber =>
    obtain rfl := Option.some.inj h
    exact iff_of_true ((paired_setStatus _ _ _).congr rfl) trivial
  | fulfillmentReversed quantityRestored sourceDocId =>
    refine iff_of_true ?_ trivial
    simp only [applyEvent] at h
    split at h <;> obtain rfl := Option.some.inj h
    · exact (paired_setStatus _ _ _).congr rfl
    · exact paired_setStatus _ _ _
  | _ =>
    obtain rfl := Option.some.inj h
    first
      | exact iff_of_true (paired_setStatus _ _ _) trivial
      | exact iff_of_true (hs.congr rfl) trivial

/-- **An event leaves a lot paired exactly where it keeps the pairing.** -/
theorem paired_step_iff (hs : s.Paired) (he : e.LeavesDocument) (h : applyItemEvent round s e = some s') :
    s'.Paired ↔ s.KeepsPairing e := by
  have hunits : s.landedPoolsFromUnits.Paired := hs.congr rfl
  have hstep : s'.Paired ↔ s.landedPoolsFromUnits.KeepsPairing e := paired_applyEvent_iff hunits he h
  exact hstep

end ItemState

/-- **A lot's status names its document whole** in every state of a run exactly where each
    event of the run keeps the pairing. -/
theorem status_paired_iff (round : ℚ → ℚ) (events : List ItemEvent) (hnamed : ∀ e ∈ events, e.LeavesDocument) :
    (∀ before rest s, events = before ++ rest → runItemEvents round .empty before = some s → s.Paired) ↔
      ∀ before e rest s s', events = before ++ e :: rest → runItemEvents round .empty before = some s →
        applyItemEvent round s e = some s' → s.KeepsPairing e := by
  refine Runs.foldlM_reached_iff (ItemState.paired_of_none rfl rfl rfl) fun e he s s' hs h => ?_
  exact ItemState.paired_step_iff hs (hnamed e he) h

/-- A lot reserved for a line of an invoice, and shipped. -/
def shippedLot : List ItemEvent :=
  [.created [.quantity 1], .statusSet "reserved" ⟨some "doc:INV-1", some "INV-1", some "L1"⟩,
    .fulfilled 1 false "doc:INV-1" (some "INV-1")]

theorem shippedLot_paired :
    (∀ e ∈ shippedLot, e.LeavesDocument) ∧
      ∀ before rest s, shippedLot = before ++ rest → runItemEvents roundBasis .empty before = some s →
        s.Paired := by
  have hnamed : ∀ e ∈ shippedLot, e.LeavesDocument := by
    simp [shippedLot, ItemEvent.LeavesDocument, Keyed, ItemField.key, ItemField.documentKeys]
  refine ⟨hnamed, (status_paired_iff roundBasis shippedLot hnamed).2 ?_⟩
  intro before e rest s s' heq hrun _
  have hmem : e ∈ shippedLot := heq ▸ List.mem_append_right before List.mem_cons_self
  simp only [shippedLot, List.mem_cons, List.not_mem_nil, or_false] at hmem
  rcases hmem with rfl | rfl | rfl
  · exact .inr (by simp [ItemField.status?])
  · trivial
  · trivial

/-- A patch that names another document's sale leaves the lot pointing at the line that held
    it. -/
theorem patched_keeps_line :
    ∃ events s, (∀ e ∈ events, e.LeavesDocument) ∧ runItemEvents roundBasis .empty events = some s ∧
      s.status = "sold" ∧ s.statusDocId = some "doc:INV-2" ∧ s.statusLineId = some "L1" ∧ ¬s.Paired := by
  refine ⟨[.created [.quantity 1],
    .statusSet "reserved" ⟨some "doc:INV-1", some "INV-1", some "L1"⟩,
    .patched [.status "sold", .statusDocId (some "doc:INV-2"), .statusDocNumber (some "INV-2")]], _, ?_, rfl, ?_⟩
  · simp [ItemEvent.LeavesDocument, Keyed, ItemField.key, ItemField.documentKeys]
  · refine ⟨by decide +kernel, by decide +kernel, by decide +kernel, fun hpaired => ?_⟩
    exact absurd (hpaired.line (by decide +kernel)).1 (by decide +kernel)

end Celerp
