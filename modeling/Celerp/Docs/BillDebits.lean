/-
  A bill's debits in the books' currency (`_base_debits` in `celerp/services/auto_je.py`):
  each part is converted on its own, and the largest goods line takes all that the
  conversions leave of the converted total.

  * `sum_baseDebits`: the debits come to the converted total;
  * `debits_right_iff`: none is negative or off by more than a minor unit exactly when what
    is left is at most one, and a line that can take it is converted to at least that;
  * `abs_roundingLeft_le`: what is left grows with the number of parts.
-/
import Celerp.Docs.BillCharges
import Celerp.Money.Pieces

namespace Celerp

open Outcome

/-! ## What is left -/

section
variable {parts : List (BillPart × ℚ)} {total rate : ℚ} {base : String}

/-- What the parts' own conversions leave of the converted total. -/
def roundingLeft (parts : List (BillPart × ℚ)) (total rate : ℚ) (base : String) : ℚ :=
  toBase total rate base - (parts.map fun p => toBase p.2 rate base).sum

/-- A bill's debits, one for each part: none negative, each within a minor unit of the
    part's own conversion, together the converted total. -/
structure DebitsRight (parts : List (BillPart × ℚ)) (total rate : ℚ) (base : String) (debits : List ℚ) : Prop where
  length_eq : debits.length = parts.length
  nonneg : ∀ v ∈ debits, 0 ≤ v
  near : ∀ p ∈ parts.zip debits, |p.2 - toBase p.1.2 rate base| ≤ quant base
  sum_eq : debits.sum = toBase total rate base

/-- A part that may take what is left: a line, or any part of a bill without lines. -/
def CanTake (parts : List (BillPart × ℚ)) (p : BillPart × ℚ) : Prop :=
  p ∈ parts ∧ (p.1.isLine ∨ ∀ q ∈ parts, ¬ q.1.isLine)

theorem mem_roundingTakers {i : ℕ} :
    i ∈ roundingTakers parts ↔ ∃ p, parts[i]? = some p ∧ (p.1.isLine ∨ ∀ q ∈ parts, ¬ q.1.isLine) := by
  have hgoods : ∀ j, j ∈ ((List.range parts.length).filter fun i => (parts[i]?).any fun p => p.1.isLine) ↔
      ∃ p, parts[j]? = some p ∧ p.1.isLine := by
    intro j
    rw [List.mem_filter, List.mem_range, Option.any_eq_true]
    constructor
    · rintro ⟨-, p, hp, hline⟩
      exact ⟨p, hp, hline⟩
    · rintro ⟨p, hp, hline⟩
      exact ⟨(List.getElem?_eq_some_iff.1 hp).1, p, hp, hline⟩
  unfold roundingTakers
  dsimp only
  split_ifs with hnone
  · have hlines : ∀ q ∈ parts, ¬ q.1.isLine := by
      intro q hq hline
      obtain ⟨j, hj⟩ := List.mem_iff_getElem?.1 hq
      exact List.not_mem_nil (hnone ▸ (hgoods j).2 ⟨q, hj, hline⟩)
    rw [List.mem_range]
    constructor
    · intro hlt
      exact ⟨parts[i], List.getElem?_eq_getElem hlt, .inr hlines⟩
    · rintro ⟨p, hp, -⟩
      exact (List.getElem?_eq_some_iff.1 hp).1
  · rw [hgoods]
    constructor
    · rintro ⟨p, hp, hline⟩
      exact ⟨p, hp, .inl hline⟩
    · rintro ⟨p, hp, hline | hlines⟩
      · exact ⟨p, hp, hline⟩
      · obtain ⟨j, hj⟩ := List.exists_mem_of_ne_nil _ hnone
        obtain ⟨q, hq, hline⟩ := (hgoods j).1 hj
        exact absurd hline (hlines q (List.mem_of_getElem? hq))

theorem canTake_iff {p : BillPart × ℚ} : CanTake parts p ↔ ∃ i ∈ roundingTakers parts, parts[i]? = some p := by
  simp only [mem_roundingTakers]
  constructor
  · rintro ⟨hp, htakes⟩
    obtain ⟨i, hi⟩ := List.mem_iff_getElem?.1 hp
    exact ⟨i, ⟨p, hi, htakes⟩, hi⟩
  · rintro ⟨i, ⟨q, hq, htakes⟩, hi⟩
    obtain rfl := Option.some.inj (hq.symm.trans hi)
    exact ⟨List.mem_of_getElem? hi, htakes⟩

/-! ## The debits -/

theorem sum_modify_add (l : List ℚ) {i : ℕ} (hi : i < l.length) (d : ℚ) : (l.modify i (· + d)).sum = l.sum + d := by
  induction l generalizing i with
  | nil => simp at hi
  | cons v l ih =>
    cases i with
    | zero =>
      rw [List.modify_zero_cons, List.sum_cons, List.sum_cons]
      ring
    | succ i =>
      rw [List.modify_succ_cons, List.sum_cons, List.sum_cons, ih (by simpa using hi)]
      ring

theorem roundingTakers_ne_nil (hparts : parts ≠ []) : roundingTakers parts ≠ [] := by
  have hrange : List.range parts.length ≠ [] := by simpa using hparts
  unfold roundingTakers
  dsimp only
  split_ifs with hnone
  · exact hrange
  · exact hnone

/-- The part that takes what is left converts to the most of those that may, and only its
    debit is not its own conversion. -/
theorem baseDebits_spec (hparts : parts ≠ []) (total rate : ℚ) (base : String) :
    ∃ largest p, CanTake parts p ∧ parts[largest]? = some p ∧
      (∀ q, CanTake parts q → toBase q.2 rate base ≤ toBase p.2 rate base) ∧
      baseDebits parts (toBase total rate base) rate base =
        (parts.map fun p => toBase p.2 rate base).modify largest (· + roundingLeft parts total rate base) := by
  have hget : ∀ i p, parts[i]? = some p →
      (parts.map fun p => toBase p.2 rate base).getD i 0 = toBase p.2 rate base := by
    intro i p hp
    rw [List.getD_eq_getElem?_getD, List.getElem?_map, hp]
    rfl
  cases hmax : (roundingTakers parts).argmax fun i => (parts.map fun p => toBase p.2 rate base).getD i 0 with
  | none => exact absurd (List.argmax_eq_none.1 hmax) (roundingTakers_ne_nil hparts)
  | some largest =>
    obtain ⟨p, hp, htakes⟩ := mem_roundingTakers.1 (List.argmax_mem hmax)
    refine ⟨largest, p, ⟨List.mem_of_getElem? hp, htakes⟩, hp, ?_, ?_⟩
    · intro q hq
      obtain ⟨j, hj, hqj⟩ := canTake_iff.1 hq
      have hle := List.le_of_mem_argmax hj hmax
      rwa [hget j q hqj, hget largest p hp] at hle
    · unfold baseDebits
      dsimp only
      rw [hmax]
      rfl

/-- **The debits come to the converted total.** -/
theorem sum_baseDebits (hparts : parts ≠ []) (total rate : ℚ) (base : String) :
    (baseDebits parts (toBase total rate base) rate base).sum = toBase total rate base := by
  obtain ⟨largest, p, -, hp, -, hdebits⟩ := baseDebits_spec hparts total rate base
  have hlt : largest < (parts.map fun p => toBase p.2 rate base).length := by
    rw [List.length_map]
    exact (List.getElem?_eq_some_iff.1 hp).1
  rw [hdebits, sum_modify_add _ hlt, roundingLeft]
  ring

/-- The debit of each part. -/
theorem getElem?_debits (largest : ℕ) (left rate : ℚ) (base : String) {i : ℕ} {p : BillPart × ℚ}
    (hi : parts[i]? = some p) :
    ((parts.map fun p => toBase p.2 rate base).modify largest (· + left))[i]? =
      some (toBase p.2 rate base + if largest = i then left else 0) := by
  rw [List.getElem?_modify, List.getElem?_map, hi]
  split_ifs
  · rfl
  · rw [add_zero]
    rfl

/-- When every debit is right: what is left is a minor unit at most, and a part that may
    take it converts to at least what it takes off. -/
theorem debitsRight_iff (hparts : parts ≠ []) (hrate : 0 ≤ rate) (hnn : ∀ p ∈ parts, 0 ≤ p.2) :
    DebitsRight parts total rate base (baseDebits parts (toBase total rate base) rate base) ↔
      |roundingLeft parts total rate base| ≤ quant base ∧
        ∃ p, CanTake parts p ∧ 0 ≤ toBase p.2 rate base + roundingLeft parts total rate base := by
  obtain ⟨largest, p, htakes, hp, hmost, hdebits⟩ := baseDebits_spec hparts total rate base
  have hconv : ∀ q ∈ parts, 0 ≤ toBase q.2 rate base := by
    intro q hq
    simpa using toBase_mono hrate (hnn q hq)
  have htaker := getElem?_debits largest (roundingLeft parts total rate base) rate base hp
  rw [if_pos rfl, ← hdebits] at htaker
  constructor
  · intro hright
    have hmem : (p, toBase p.2 rate base + roundingLeft parts total rate base) ∈
        parts.zip (baseDebits parts (toBase total rate base) rate base) :=
      List.mem_of_getElem? (List.getElem?_zip_eq_some.2 ⟨hp, htaker⟩)
    have hnear := hright.near _ hmem
    rw [add_sub_cancel_left] at hnear
    exact ⟨hnear, p, htakes, hright.nonneg _ (List.mem_of_getElem? htaker)⟩
  · rintro ⟨hleft, q, hq, hcovers⟩
    have heach : ∀ r ∈ parts.zip (baseDebits parts (toBase total rate base) rate base),
        0 ≤ r.2 ∧ |r.2 - toBase r.1.2 rate base| ≤ quant base := by
      intro r hr
      obtain ⟨i, hi⟩ := List.mem_iff_getElem?.1 hr
      obtain ⟨hpart, hdebit⟩ := List.getElem?_zip_eq_some.1 hi
      rw [hdebits, getElem?_debits largest _ rate base hpart] at hdebit
      rw [← Option.some.inj hdebit, add_sub_cancel_left]
      by_cases hlargest : largest = i
      · subst hlargest
        obtain rfl := Option.some.inj (hp.symm.trans hpart)
        rw [if_pos rfl]
        exact ⟨by linarith [hmost q hq], hleft⟩
      · rw [if_neg hlargest, add_zero, abs_zero]
        exact ⟨hconv _ (List.mem_of_getElem? hpart), (quant_pos base).le⟩
    have hlength : (baseDebits parts (toBase total rate base) rate base).length = parts.length := by
      rw [hdebits, List.length_modify, List.length_map]
    refine ⟨hlength, fun v hv => ?_, fun r hr => (heach r hr).2, sum_baseDebits hparts total rate base⟩
    obtain ⟨i, hi⟩ := List.mem_iff_getElem?.1 hv
    have hlt : i < parts.length := hlength ▸ (List.getElem?_eq_some_iff.1 hi).1
    exact (heach (parts[i], v) (List.mem_of_getElem? (List.getElem?_zip_eq_some.2
      ⟨List.getElem?_eq_getElem hlt, hi⟩))).1

/-- Each part's conversion, and the total's, can leave half a minor unit. -/
theorem abs_roundingLeft_le (hsum : (parts.map Prod.snd).sum = total) (rate : ℚ) (base : String) :
    |roundingLeft parts total rate base| ≤ (parts.length + 1) * (quant base / 2) := by
  have hparts : ∀ l : List (BillPart × ℚ), |(l.map fun p => toBase p.2 rate base).sum - (l.map Prod.snd).sum * rate| ≤
      l.length * (quant base / 2) := by
    intro l
    induction l with
    | nil => simp
    | cons p l ih =>
      have hone := abs_roundMoney_sub_le (p.2 * rate) base
      rw [List.map_cons, List.map_cons, List.sum_cons, List.sum_cons, List.length_cons]
      have hsplit : toBase p.2 rate base + (l.map fun p => toBase p.2 rate base).sum -
          (p.2 + (l.map Prod.snd).sum) * rate =
          (roundMoney (p.2 * rate) base - p.2 * rate) +
            ((l.map fun p => toBase p.2 rate base).sum - (l.map Prod.snd).sum * rate) := by
        rw [toBase]
        ring
      rw [hsplit]
      push_cast
      linarith [abs_add_le (roundMoney (p.2 * rate) base - p.2 * rate)
        ((l.map fun p => toBase p.2 rate base).sum - (l.map Prod.snd).sum * rate)]
  have htotal := abs_roundMoney_sub_le (total * rate) base
  have hrest := hparts parts
  rw [hsum] at hrest
  have hsplit : roundingLeft parts total rate base = (roundMoney (total * rate) base - total * rate) -
      ((parts.map fun p => toBase p.2 rate base).sum - total * rate) := by
    rw [roundingLeft, toBase]
    ring
  rw [hsplit]
  linarith [abs_sub (roundMoney (total * rate) base - total * rate)
    ((parts.map fun p => toBase p.2 rate base).sum - total * rate)]

end

/-! ## The debits of a bill -/

namespace BillFigures
variable {c : String} (f : BillFigures c)

theorem lineParts_nonneg : ∀ p ∈ f.lineParts, 0 ≤ p.2 := by
  intro p hp
  obtain ⟨⟨ch, i⟩, hch, hpart⟩ := List.mem_filterMap.1 hp
  unfold BillCharge.part at hpart
  split_ifs at hpart
  obtain rfl := Option.some.inj hpart
  exact sub_nonneg.2 (f.charges_spec ch (List.fst_mem_of_mem_zipIdx hch)).2

theorem debitParts_nonneg : ∀ p ∈ f.debitParts, 0 ≤ p.2 := by
  have hwhen : ∀ (r : AccountRole) (v : ℚ), ∀ p ∈ (if 0 < v then [(BillPart.role r, v)] else []), 0 ≤ p.2 := by
    intro r v p hp
    split_ifs at hp with hpos
    · obtain rfl := List.mem_singleton.1 hp
      exact hpos.le
    · exact absurd hp List.not_mem_nil
  intro p hp
  rcases List.mem_append.1 hp with hp | hp
  · rcases List.mem_append.1 hp with hp | hp
    · exact f.lineParts_nonneg p hp
    · exact hwhen _ _ p hp
  · exact hwhen _ _ p hp

theorem bookedParts_ne_nil : f.bookedParts ≠ [] := by
  unfold bookedParts
  split_ifs with hnone
  · exact List.cons_ne_nil _ _
  · exact hnone

theorem bookedParts_nonneg (htotal : 0 ≤ f.total) : ∀ p ∈ f.bookedParts, 0 ≤ p.2 := by
  unfold bookedParts
  split_ifs
  · intro p hp
    obtain rfl := List.mem_singleton.1 hp
    exact htotal
  · exact f.debitParts_nonneg

end BillFigures

/-- **When a bill's entry debits no line a wrong amount**: exactly when the conversions of
    its parts leave at most a minor unit of its converted total, and a line converts to at
    least what that takes off it.  The debits always come to the converted total. -/
theorem billDebits_right_iff {c : String} (f : BillFigures c) (htotal : 0 ≤ f.total) (rate : ℚ)
    (hrate : 0 < rate) (base : String) :
    (DebitsRight f.bookedParts f.total rate base
        (baseDebits f.bookedParts (toBase f.total rate base) rate base) ↔
      |roundingLeft f.bookedParts f.total rate base| ≤ quant base ∧
        ∃ p, CanTake f.bookedParts p ∧ 0 ≤ toBase p.2 rate base + roundingLeft f.bookedParts f.total rate base) ∧
      (baseDebits f.bookedParts (toBase f.total rate base) rate base).sum = toBase f.total rate base :=
  ⟨debitsRight_iff f.bookedParts_ne_nil hrate.le (f.bookedParts_nonneg htotal),
    sum_baseDebits f.bookedParts_ne_nil f.total rate base⟩

theorem discountedBill_debits :
    ∃ f, discountedBill.figures = .ok f ∧
      ((DebitsRight f.bookedParts f.total (11 / 10) "EUR"
          (baseDebits f.bookedParts (toBase f.total (11 / 10) "EUR") (11 / 10) "EUR") ↔
        |roundingLeft f.bookedParts f.total (11 / 10) "EUR"| ≤ quant "EUR" ∧
          ∃ p, CanTake f.bookedParts p ∧
            0 ≤ toBase p.2 (11 / 10) "EUR" + roundingLeft f.bookedParts f.total (11 / 10) "EUR") ∧
        (baseDebits f.bookedParts (toBase f.total (11 / 10) "EUR") (11 / 10) "EUR").sum =
          toBase f.total (11 / 10) "EUR") := by
  obtain ⟨f, hf⟩ : Succeeds discountedBill.figures := by decide +kernel
  have htotal : discountedBill.figures.map (·.total) = .ok 31 := by decide +kernel
  rw [hf] at htotal
  have hvalue : f.total = 31 := Except.ok.inj htotal
  exact ⟨f, hf, billDebits_right_iff f (by rw [hvalue]; norm_num) (11 / 10) (by norm_num) "EUR"⟩

/-- Ten lines of one yen. -/
def smallLinesBill : Bill where
  currency := "JPY"
  lines := List.replicate 10 ⟨{ lineTotal := .number 1 }, []⟩
  total := .number 10

/-- At 0.0066 dollars a yen each line converts to a cent and the bill to seven, so the
    first line is debited 0.01 - 0.03. -/
theorem smallLinesBill_debits_negative :
    ¬ ∀ (b : Bill) (f : BillFigures b.currency) (rate : ℚ) (base : String), b.figures = .ok f → 0 < rate →
      (∀ l ∈ b.lines, 0 ≤ l.money.lineAmount b.currency) → 0 ≤ f.tax → 0 ≤ f.shipping →
      (f.debitParts.map Prod.snd).sum = f.total →
      DebitsRight f.bookedParts f.total rate base (baseDebits f.bookedParts (toBase f.total rate base) rate base) := by
  intro h
  obtain ⟨f, hf⟩ : Succeeds smallLinesBill.figures := by decide +kernel
  have hvalues : (smallLinesBill.figures.map fun f => (f.tax, f.shipping,
      decide ((f.debitParts.map Prod.snd).sum = f.total),
      (baseDebits f.bookedParts (toBase f.total (66 / 10000) "USD") (66 / 10000) "USD").all fun v => 0 ≤ v)) =
      .ok (0, 0, true, false) := by
    decide +kernel
  rw [hf] at hvalues
  obtain ⟨htax, hrest⟩ := Prod.mk.inj (Except.ok.inj hvalues)
  obtain ⟨hshipping, hrest⟩ := Prod.mk.inj hrest
  obtain ⟨hsum, hnegative⟩ := Prod.mk.inj hrest
  have hright := h smallLinesBill f (66 / 10000) "USD" hf (by norm_num) (by decide +kernel) htax.ge hshipping.ge
    (of_decide_eq_true hsum)
  have hall : ((baseDebits f.bookedParts (toBase f.total (66 / 10000) "USD") (66 / 10000) "USD").all
      fun v => 0 ≤ v) = true := List.all_eq_true.2 fun v hv => decide_eq_true (hright.nonneg v hv)
  exact Bool.noConfusion (hall.symm.trans hnegative)

end Celerp
