/-
  The value a production run's components record
  (`celerp_manufacturing/projection_handler.py`, `merge_inputs`).

  A run whose components are each listed once takes every item issued or returned on its own
  line (`inputs_issue`, `inputs_giveBack`), so the lines record what was issued in all, and
  what was returned comes off them (`issuedValues_issue`, `issuedValues_giveBack`).  The share
  of a component that is returned is no more than what it records (`shareOf_le`), and requests
  name each item once (`nodup_mergeInputs`).
-/
import Celerp.Lib.Tally
import Celerp.Manufacturing.Movements

namespace Celerp

open Outcome

/-- What the components record as issued. -/
def issuedValues (inputs : List RunInput) : ℚ := (inputs.map fun i => i.issuedValue.getD 0).sum

/-- The line of an issue or a return that is a component's. -/
def lineOf {α : Type*} (itemId : α → String) (lines : List α) (inp : RunInput) : Option α :=
  lines.find? fun line => itemId line = inp.itemId

section
variable {α : Type*} {itemId : α → String} {lines : List α} {inputs : List RunInput} {inp : RunInput} {id : String}

theorem lookup_filter_ne {β : Type*} {l : List (String × β)} {k : String} (h : k ≠ id) :
    (l.filter (·.1 ≠ id)).lookup k = l.lookup k := by
  induction l with
  | nil => rfl
  | cons p l ih =>
    obtain ⟨j, v⟩ := p
    by_cases hj : j = id
    · subst hj
      rw [List.filter_cons_of_neg (by simp), ih, List.lookup_cons, beq_eq_false_iff_ne.2 h]
    · rw [List.filter_cons_of_pos (by simpa using hj), List.lookup_cons, List.lookup_cons, ih]

theorem find?_filter_ne {k : String} (h : k ≠ id) :
    (lines.filter (itemId · ≠ id)).find? (itemId · = k) = lines.find? (itemId · = k) := by
  induction lines with
  | nil => rfl
  | cons line lines ih =>
    by_cases hline : itemId line = id
    · rw [List.filter_cons_of_neg (by simpa using hline), ih, List.find?_cons_of_neg]
      rw [hline]
      simpa using h.symm
    · rw [List.filter_cons_of_pos (by simpa using hline), List.find?_cons, List.find?_cons, ih]

theorem lookup_map {β : Type*} (f : α → β) (k : String) :
    (lines.map fun line => (itemId line, f line)).lookup k = (lines.find? (itemId · = k)).map f := by
  induction lines with
  | nil => rfl
  | cons line lines ih =>
    rw [List.map_cons, List.lookup_cons, ih]
    by_cases hline : itemId line = k
    · rw [List.find?_cons_of_pos (by simpa using hline), hline, beq_self_eq_true]
      rfl
    · rw [List.find?_cons_of_neg (by simpa using hline), beq_eq_false_iff_ne.2 (Ne.symm hline)]

/-- The lines found for the components come to all of them. -/
theorem sum_lineOf (f : α → ℚ) (hlines : (lines.map itemId).Nodup) (hinputs : (inputs.map (·.itemId)).Nodup)
    (hmem : ∀ line ∈ lines, itemId line ∈ inputs.map (·.itemId)) :
    (inputs.map fun inp => (lineOf itemId lines inp).elim 0 f).sum = (lines.map f).sum := by
  rw [← Tally.sum_find?_of_nodup itemId f hlines hinputs hmem, List.map_map]
  rfl

theorem lineOf_eq_some {line : α} (h : lineOf itemId lines inp = some line) : line ∈ lines ∧ itemId line = inp.itemId :=
  ⟨List.mem_of_find?_eq_some h, by simpa using List.find?_some h⟩

/-! ## Issuing -/

theorem issueInputs_eq {values issued : List (String × ℚ)} {unknown : List String}
    (h : (inputs.map (·.itemId)).Nodup) :
    issueInputs values unknown issued inputs = inputs.map fun inp =>
      (issued.lookup inp.itemId).elim inp fun q => inp.issue q (values.lookup inp.itemId) (inp.itemId ∈ unknown) := by
  induction inputs generalizing issued with
  | nil => rfl
  | cons inp inputs ih =>
    rw [List.map_cons, List.nodup_cons] at h
    rw [issueInputs, List.map_cons]
    cases hlookup : issued.lookup inp.itemId with
    | none =>
      dsimp only
      rw [ih h.2]
      rfl
    | some q =>
      dsimp only
      rw [ih h.2, Option.elim_some]
      refine congrArg _ (List.map_congr_left fun other hother => ?_)
      have hne : other.itemId ≠ inp.itemId := fun heq => h.1 (heq ▸ List.mem_map_of_mem hother)
      rw [lookup_filter_ne hne]

/-- A component once items are issued. -/
def RunInput.afterIssue (inp : RunInput) (items : List IssuedLine) : RunInput :=
  (lineOf IssuedLine.itemId items inp).elim inp fun line =>
    inp.issue line.quantity line.value (inp.itemId ∈ (items.filter (·.goodsCostUnknown)).map (·.itemId))

/-- The components once items are issued, each on its own line. -/
theorem inputs_issue {s : RunState} {items : List IssuedLine} {v : ℚ} {code : Option String}
    (hinputs : (s.inputs.map (·.itemId)).Nodup) (hitems : (items.map (·.itemId)).Nodup)
    (hvalues : ∀ i ∈ items, i.value.isSome) :
    (s.issue items (some v) code).inputs = s.inputs.map (·.afterIssue items) := by
  have hfilterMap : (items.filterMap fun i => i.value.map fun v => (i.itemId, v)) =
      items.map fun i => (i.itemId, i.value.getD 0) := by
    rw [← List.filterMap_eq_map]
    refine List.filterMap_congr fun i hi => ?_
    obtain ⟨v, hv⟩ := Option.isSome_iff_exists.1 (hvalues i hi)
    simp [hv]
  have hkeys : ∀ f : IssuedLine → ℚ, ((items.map fun i => (i.itemId, f i)).map Prod.fst).Nodup := by
    intro f
    rw [List.map_map]
    exact hitems
  unfold RunState.issue
  dsimp only
  unfold RunState.addIssued
  dsimp only
  rw [hfilterMap, Amounts.ofList_of_nodup (hkeys _), Amounts.ofList_of_nodup (hkeys _), issueInputs_eq hinputs]
  refine List.map_congr_left fun inp _ => ?_
  rw [lookup_map, lookup_map, RunInput.afterIssue, lineOf]
  cases hline : items.find? (IssuedLine.itemId · = inp.itemId) with
  | none => rfl
  | some line =>
    obtain ⟨v, hv⟩ := Option.isSome_iff_exists.1 (hvalues line (List.mem_of_find?_eq_some hline))
    simp [hv]

theorem issuedValue_issue {q v : ℚ} {unknown : Bool} (h : inp.issuedValue = none → inp.issuedQty = 0) :
    (inp.issue q (some v) unknown).issuedValue = some (inp.issuedValue.getD 0 + v) := by
  unfold RunInput.issue
  rw [Option.bind_some, if_pos]
  by_cases hnone : inp.issuedValue = none
  · exact .inr (h hnone)
  · exact .inl hnone

/-- What an issue leaves of a component that is not issued. -/
theorem afterIssue_cases {items : List IssuedLine} (hvalues : ∀ i ∈ items, i.value.isSome)
    (hvalued : inp.issuedValue = none → inp.issuedQty = 0) :
    inp.afterIssue items = inp ∧ lineOf IssuedLine.itemId items inp = none ∨
      ∃ line ∈ items, lineOf IssuedLine.itemId items inp = some line ∧
        (inp.afterIssue items).issuedValue = some (inp.issuedValue.getD 0 + line.value.getD 0) := by
  unfold RunInput.afterIssue
  cases hline : lineOf IssuedLine.itemId items inp with
  | none => exact .inl ⟨rfl, rfl⟩
  | some line =>
    obtain ⟨hmem, -⟩ := lineOf_eq_some hline
    obtain ⟨v, hv⟩ := Option.isSome_iff_exists.1 (hvalues line hmem)
    refine .inr ⟨line, hmem, rfl, ?_⟩
    rw [Option.elim_some, hv]
    exact issuedValue_issue hvalued

theorem afterIssue_plan (inp : RunInput) (items : List IssuedLine) :
    (inp.afterIssue items).itemId = inp.itemId ∧ (inp.afterIssue items).quantity = inp.quantity := by
  unfold RunInput.afterIssue
  cases lineOf IssuedLine.itemId items inp <;> exact ⟨rfl, rfl⟩

/-- **What is issued is added to what the components record.** -/
theorem issuedValues_issue {s : RunState} {items : List IssuedLine} {v : ℚ} {code : Option String}
    (hinputs : (s.inputs.map (·.itemId)).Nodup) (hitems : (items.map (·.itemId)).Nodup)
    (hmem : ∀ i ∈ items, i.itemId ∈ s.inputs.map (·.itemId)) (hvalues : ∀ i ∈ items, i.value.isSome)
    (hvalued : ∀ i ∈ s.inputs, i.issuedValue = none → i.issuedQty = 0) :
    issuedValues (s.issue items (some v) code).inputs = issuedValues s.inputs + issuedTotal items := by
  have hadd : ∀ inp ∈ s.inputs, (inp.afterIssue items).issuedValue.getD 0 =
      inp.issuedValue.getD 0 + (lineOf IssuedLine.itemId items inp).elim 0 fun line => line.value.getD 0 := by
    intro inp hinp
    rcases afterIssue_cases hvalues (hvalued inp hinp) with ⟨hsame, hline⟩ | ⟨line, -, hline, hvalue⟩
    · rw [hsame, hline, Option.elim_none, add_zero]
    · rw [hvalue, hline, Option.getD_some, Option.elim_some]
  unfold issuedValues issuedTotal
  rw [inputs_issue hinputs hitems hvalues, List.map_map, ← sum_lineOf (fun i => i.value.getD 0) hitems hinputs hmem,
    ← List.sum_map_add]
  exact congrArg List.sum (List.map_congr_left hadd)

/-! ## Returning -/

theorem linesByItem_of_nodup {lines : List ValuedLine} (h : (lines.map (·.itemId)).Nodup) : linesByItem lines = lines :=
  Tally.foldl_last_of_nodup ValuedLine.itemId h

theorem returnInputs_eq {returned : List ValuedLine} (h : (inputs.map (·.itemId)).Nodup) :
    returnInputs returned inputs = inputs.map fun inp =>
      (lineOf ValuedLine.itemId returned inp).elim inp inp.giveBack := by
  induction inputs generalizing returned with
  | nil => rfl
  | cons inp inputs ih =>
    rw [List.map_cons, List.nodup_cons] at h
    rw [returnInputs, List.map_cons, lineOf]
    cases hline : returned.find? (ValuedLine.itemId · = inp.itemId) with
    | none =>
      dsimp only
      rw [ih h.2]
      rfl
    | some line =>
      dsimp only
      rw [ih h.2, Option.elim_some]
      refine congrArg _ (List.map_congr_left fun other hother => ?_)
      have hne : other.itemId ≠ inp.itemId := fun heq => h.1 (heq ▸ List.mem_map_of_mem hother)
      rw [lineOf, lineOf, find?_filter_ne hne]

/-- A component once lines are returned. -/
def RunInput.afterReturn (inp : RunInput) (lines : List ValuedLine) : RunInput :=
  (lineOf ValuedLine.itemId lines inp).elim inp inp.giveBack

/-- The components once lines are returned, each on its own line. -/
theorem inputs_giveBack {lines : List ValuedLine} (hinputs : (inputs.map (·.itemId)).Nodup)
    (hlines : (lines.map (·.itemId)).Nodup) :
    returnInputs (linesByItem lines) inputs = inputs.map (·.afterReturn lines) := by
  rw [linesByItem_of_nodup hlines, returnInputs_eq hinputs]
  rfl

theorem afterReturn_cases (inp : RunInput) (lines : List ValuedLine) :
    inp.afterReturn lines = inp ∧ lineOf ValuedLine.itemId lines inp = none ∨
      ∃ line ∈ lines, lineOf ValuedLine.itemId lines inp = some line ∧ line.itemId = inp.itemId ∧
        (inp.afterReturn lines).issuedValue = some (inp.issuedValue.getD 0 - line.value) := by
  unfold RunInput.afterReturn
  cases hline : lineOf ValuedLine.itemId lines inp with
  | none => exact .inl ⟨rfl, rfl⟩
  | some line =>
    obtain ⟨hmem, hid⟩ := lineOf_eq_some hline
    exact .inr ⟨line, hmem, rfl, hid, rfl⟩

theorem afterReturn_plan (inp : RunInput) (lines : List ValuedLine) :
    (inp.afterReturn lines).itemId = inp.itemId ∧ (inp.afterReturn lines).quantity = inp.quantity := by
  unfold RunInput.afterReturn
  cases lineOf ValuedLine.itemId lines inp <;> exact ⟨rfl, rfl⟩

/-- **What is returned comes off what the components record.** -/
theorem issuedValues_giveBack {lines : List ValuedLine} (hinputs : (inputs.map (·.itemId)).Nodup)
    (hlines : (lines.map (·.itemId)).Nodup) (hmem : ∀ line ∈ lines, line.itemId ∈ inputs.map (·.itemId)) :
    issuedValues (returnInputs (linesByItem lines) inputs) = issuedValues inputs - totalValue lines := by
  have hback : ∀ inp ∈ inputs, (inp.afterReturn lines).issuedValue.getD 0 +
      (lineOf ValuedLine.itemId lines inp).elim 0 ValuedLine.value = inp.issuedValue.getD 0 := by
    intro inp _
    rcases afterReturn_cases inp lines with ⟨hsame, hline⟩ | ⟨line, -, hline, -, hvalue⟩
    · rw [hsame, hline, Option.elim_none, add_zero]
    · rw [hvalue, hline, Option.getD_some, Option.elim_some, sub_add_cancel]
  unfold issuedValues totalValue
  rw [inputs_giveBack hinputs hlines, List.map_map, ← sum_lineOf ValuedLine.value hlines hinputs hmem,
    eq_sub_iff_add_eq, ← List.sum_map_add]
  exact congrArg List.sum (List.map_congr_left hback)

/-- **The share of a component is no more than it records**, and whole where that is. -/
theorem shareOf_le {q v : ℚ} {c : String} (hq : 0 ≤ q) (hv : 0 ≤ v) (hwhole : IsWhole c v) :
    0 ≤ inp.shareOf q c v ∧ inp.shareOf q c v ≤ v ∧ IsWhole c (inp.shareOf q c v) := by
  unfold RunInput.shareOf
  split_ifs with hall
  · exact ⟨hv, le_rfl, hwhole⟩
  · have hless : q ≤ inp.issuedQty := by linarith [EPS_pos, not_le.1 hall]
    have hpos : 0 < inp.issuedQty := by linarith [EPS_pos, not_le.1 hall]
    have hshare : v * q / inp.issuedQty ≤ v := by
      rw [div_le_iff₀ hpos]
      exact mul_le_mul_of_nonneg_left hless hv
    refine ⟨roundMoney_nonneg c (by positivity), ?_, isWhole_roundMoney _ c⟩
    exact (roundMoney_mono c hshare).trans_eq (roundMoney_of_isWhole hwhole)

/-! ## Requests -/

/-- A request merged names each item once, and none of its quantities is less than nothing
    where none was. -/
theorem mergeInputs_ok {lines : List (String × ℚ)} (h : ∀ p ∈ lines, 0 ≤ p.2) :
    ((mergeInputs lines).map Prod.fst).Nodup ∧ ∀ p ∈ mergeInputs lines, 0 ≤ p.2 := by
  unfold mergeInputs
  refine List.foldlRecOn (motive := fun merged : List (String × ℚ) =>
    (merged.map Prod.fst).Nodup ∧ ∀ p ∈ merged, 0 ≤ p.2) lines _ ⟨List.nodup_nil, fun p hp => absurd hp List.not_mem_nil⟩ ?_
  rintro merged ⟨hnodup, hnn⟩ line hline
  split_ifs with hmem
  · have hkeys : (merged.map fun p => if p.1 = line.1 then (p.1, roundDigits (p.2 + line.2) 6) else p).map Prod.fst =
        merged.map Prod.fst := by
      rw [List.map_map]
      refine List.map_congr_left fun p _ => ?_
      rw [Function.comp_apply]
      split_ifs <;> rfl
    refine ⟨hkeys ▸ hnodup, List.forall_mem_map.2 fun p hp => ?_⟩
    split_ifs
    · exact Rounding.roundEvenTo_nonneg (by norm_num) (add_nonneg (hnn p hp) (h line hline))
    · exact hnn p hp
  · constructor
    · rw [List.map_append]
      refine List.nodup_append.2 ⟨hnodup, List.nodup_singleton _, fun a ha c hc heq => hmem ?_⟩
      obtain rfl : c = line.1 := List.mem_singleton.1 hc
      exact heq ▸ ha
    · rw [List.forall_mem_append]
      exact ⟨hnn, List.forall_mem_singleton.2 (h line hline)⟩

end

end Celerp
