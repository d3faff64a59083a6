/-
  What the months of a layer are charged together.

  Along a curve they are charged the share of the basis at the position reached
  (`sum_byCurve`), whatever the months consumed. A declining balance keeps its pace
  (`Paced`) over months that consume some of the life, and stays between the cost and the
  residual; a month that takes life back stays below the cost exactly when what it takes
  back was charged (`le_cost_iff`).
-/
import Celerp.FixedAssets.Method

namespace Celerp

open Scan

/-! ## Curves -/

section
variable {inputs : MethodInputs} {curve : ℚ → ℚ} {life t : ℚ}

theorem sum_scan_curveStep (basis : ℚ) (curve : ℚ → ℚ) (fractions : List ℚ) (p : ℚ) :
    (scan (curveStep basis curve) (p, basis * curve p) fractions).sum =
      basis * curve (p + fractions.sum) - basis * curve p := by
  induction fractions generalizing p with
  | nil => simp
  | cons f fractions ih =>
    have hstep : (curveStep basis curve (p, basis * curve p) f).2 = (p + f, basis * curve (p + f)) := rfl
    rw [scan_cons, List.sum_cons, hstep, ih, List.sum_cons, add_assoc]
    simp only [curveStep]
    ring

/-- The months of a layer are charged the share of the basis at the position they reach. -/
theorem sum_byCurve (h : curve 0 = 0) :
    (byCurve inputs curve).sum = inputs.basis * curve inputs.fractions.sum := by
  have hsum := sum_scan_curveStep inputs.basis curve inputs.fractions 0
  rw [h, mul_zero, sub_zero, zero_add] at hsum
  exact hsum

theorem sum_byCurve_mem (h : curve 0 = 0) (hcurve : ∀ t, 0 ≤ curve t ∧ curve t ≤ 1) (hbasis : 0 ≤ inputs.basis) :
    0 ≤ (byCurve inputs curve).sum ∧ (byCurve inputs curve).sum ≤ inputs.basis := by
  obtain ⟨hnonneg, hle⟩ := hcurve inputs.fractions.sum
  rw [sum_byCurve h]
  exact ⟨mul_nonneg hbasis hnonneg, mul_le_of_le_one_right hbasis hle⟩

theorem straightCurve_zero (hlife : 0 < life) : straightCurve life 0 = 0 := by
  simp [straightCurve, hlife.le]

theorem straightCurve_mem (hlife : 0 < life) (t : ℚ) : 0 ≤ straightCurve life t ∧ straightCurve life t ≤ 1 := by
  unfold straightCurve
  refine ⟨div_nonneg (le_min (le_max_right _ _) hlife.le) hlife.le, ?_⟩
  rw [div_le_one hlife]
  exact min_le_right _ _

theorem digitsCurve_zero (hlife : 0 < life) (total : ℚ) (digits : List ℚ) :
    digitsCurve life total 0 digits 0 0 = 0 := by
  cases digits with
  | nil => rfl
  | cons digit digits =>
    have hlength : 0 ≤ min 12 (life - 0) := le_min (by norm_num) (by linarith)
    simp only [digitsCurve]
    rw [if_pos (by linarith)]
    simp

/-- The loop stays between the share it has reached and the share all digits make. -/
theorem digitsCurve_mem {total share start : ℚ} {digits : List ℚ} (htotal : 0 < total)
    (hdigits : ∀ d ∈ digits, 0 ≤ d) (hshare : 0 ≤ share) (hsum : share + digits.sum / total ≤ 1)
    (ht : start ≤ t) (hlife : t ≤ life) (hstart : start < life) :
    0 ≤ digitsCurve life total t digits share start ∧ digitsCurve life total t digits share start ≤ 1 := by
  induction digits generalizing share start with
  | nil =>
    rw [digitsCurve]
    exact ⟨hshare, by simpa using hsum⟩
  | cons digit digits ih =>
    rw [List.forall_mem_cons] at hdigits
    rw [List.sum_cons, add_div] at hsum
    have hrest : 0 ≤ digits.sum / total := div_nonneg (List.sum_nonneg hdigits.2) htotal.le
    have hdigit : 0 ≤ digit / total := div_nonneg hdigits.1 htotal.le
    have hlength : 0 < min 12 (life - start) := lt_min (by norm_num) (by linarith)
    rw [digitsCurve]
    split_ifs with hin
    · have hpart : 0 ≤ (t - start) / min 12 (life - start) := div_nonneg (by linarith) hlength.le
      have hwhole : (t - start) / min 12 (life - start) ≤ 1 := by
        rw [div_le_one hlength]
        linarith
      rw [mul_div_assoc]
      have hle := mul_le_of_le_one_right hdigit hwhole
      have hnonneg := mul_nonneg hdigit hpart
      exact ⟨by linarith, by linarith⟩
    · rw [not_le] at hin
      exact ih hdigits.2 (by linarith) (by linarith) hin.le (hin.trans_le hlife)

theorem yearDigits_pos {d : ℚ} (hd : d ∈ yearDigits life) : 0 < d := by
  obtain ⟨k, hk, rfl⟩ := List.mem_map.1 hd
  have hlt : (k : ℚ) < life / 12 := Nat.lt_ceil.1 (List.mem_range.1 hk)
  linarith

theorem sum_yearDigits_pos (hlife : 0 < life) : 0 < (yearDigits life).sum := by
  have hne : yearDigits life ≠ [] := by
    have hpos : 0 < ⌈life / 12⌉₊ := Nat.ceil_pos.2 (by linarith)
    simp [yearDigits, hpos.ne']
  exact List.sum_pos _ (fun d hd => yearDigits_pos hd) hne

theorem sumOfYearsCurve_zero (hlife : 0 < life) : sumOfYearsCurve life 0 = 0 := by
  have hzero : min (max (0 : ℚ) 0) life = 0 := by simp [hlife.le]
  rw [sumOfYearsCurve, hzero, digitsCurve_zero hlife]

theorem sumOfYearsCurve_mem (hlife : 0 < life) (t : ℚ) : 0 ≤ sumOfYearsCurve life t ∧ sumOfYearsCurve life t ≤ 1 := by
  have htotal := sum_yearDigits_pos hlife
  refine digitsCurve_mem htotal (fun d hd => (yearDigits_pos hd).le) le_rfl ?_
    (le_min (le_max_right _ _) hlife.le) (min_le_right _ _) hlife
  rw [zero_add, div_self htotal.ne']

end

section
variable {inputs : MethodInputs} {life : ℚ}

theorem straightCurve_life (hlife : 0 < life) : straightCurve life life = 1 := by
  simp [straightCurve, hlife.le, hlife.ne']

/-- At the end of the life the loop has gone through all digits: each but the last takes a
    whole year. -/
theorem digitsCurve_life (total share : ℚ) {start : ℚ} {digits : List ℚ}
    (hlength : 12 * ((digits.length : ℚ) - 1) < life - start) :
    digitsCurve life total life digits share start = share + digits.sum / total := by
  induction digits generalizing share start with
  | nil => simp [digitsCurve]
  | cons digit digits ih =>
    rw [List.length_cons, Nat.cast_add, Nat.cast_one, add_sub_cancel_right] at hlength
    have hstart : 0 < life - start := (by positivity : (0 : ℚ) ≤ 12 * digits.length).trans_lt hlength
    rw [digitsCurve, List.sum_cons]
    rcases le_or_gt (life - start) 12 with hlast | hmore
    · -- the last year, or the part of one left
      have hnone : digits = [] := by
        have hlt : (digits.length : ℚ) < 1 := by linarith
        exact List.length_eq_zero_iff.1 (Nat.lt_one_iff.1 (by exact_mod_cast hlt))
      rw [min_eq_right hlast, if_pos (by linarith), mul_div_assoc, div_self hstart.ne', hnone]
      simp
    · rw [min_eq_left hmore.le, if_neg (by linarith), ih _ (by linarith)]
      ring

theorem sumOfYearsCurve_life (hlife : 0 < life) : sumOfYearsCurve life life = 1 := by
  have htotal := sum_yearDigits_pos hlife
  have hlength : 12 * (((yearDigits life).length : ℚ) - 1) < life - 0 := by
    have hceil : (⌈life / 12⌉₊ : ℚ) < life / 12 + 1 := Nat.ceil_lt_add_one (by positivity)
    rw [yearDigits, List.length_map, List.length_range]
    linarith
  have hend : min (max life 0) life = life := by simp [hlife.le]
  rw [sumOfYearsCurve, hend, digitsCurve_life _ _ hlength, zero_add, div_self htotal.ne']

end

/-! ## The declining balance -/

section
variable {inputs : MethodInputs} {s : ℚ × ℚ} {f : ℚ} {fractions : List ℚ}

/-- Until the life is used up, a declining balance is short of its end, or at its residual. -/
theorem spent_decliningStep (h : s.2 < inputs.life ∨ s.1 = inputs.residual) (f : ℚ) :
    (decliningStep inputs s f).2.2 < inputs.life ∨ (decliningStep inputs s f).2.1 = inputs.residual := by
  simp only [decliningStep, decliningCharge]
  split_ifs with hlast hsome
  · -- the last month writes down to the residual
    exact .inr (sub_sub_cancel _ _)
  · exact .inl (not_le.1 fun hle => hlast ⟨hsome, hle⟩)
  · exact .inl (not_le.1 fun hle => hlast ⟨hsome, hle⟩)
  · rw [not_not.1 hsome, add_zero, sub_zero]
    exact h

theorem spent_scanState (h : s.2 < inputs.life ∨ s.1 = inputs.residual) (fractions : List ℚ) :
    (scanState (decliningStep inputs) s fractions).2 < inputs.life ∨
      (scanState (decliningStep inputs) s fractions).1 = inputs.residual := by
  induction fractions generalizing s with
  | nil => exact h
  | cons f fractions ih => exact ih (spent_decliningStep h f)

theorem sum_scan_decliningStep (inputs : MethodInputs) (s : ℚ × ℚ) (fractions : List ℚ) :
    (scan (decliningStep inputs) s fractions).sum = s.1 - (scanState (decliningStep inputs) s fractions).1 := by
  induction fractions generalizing s with
  | nil => simp
  | cons f fractions ih =>
    rw [scan_cons, List.sum_cons, ih, scanState_cons]
    simp only [decliningStep]
    ring

theorem scanState_decliningStep (inputs : MethodInputs) (s : ℚ × ℚ) (fractions : List ℚ) :
    (scanState (decliningStep inputs) s fractions).2 = s.2 + fractions.sum := by
  induction fractions generalizing s with
  | nil => simp
  | cons f fractions ih =>
    rw [scanState_cons, ih, List.sum_cons, ← add_assoc]
    rfl

/-- A declining balance, over months that take nothing back, is at its residual or has
    been charged at its monthly rate for the life consumed. -/
structure Paced (inputs : MethodInputs) (s : ℚ × ℚ) : Prop where
  residual_le : inputs.residual ≤ s.1
  position_nonneg : 0 ≤ s.2
  pace : s.1 = inputs.residual ∨ s.1 * (1 + monthlyRate inputs * s.2) ≤ inputs.basis + inputs.residual

theorem Paced.le_cost (h : Paced inputs s) (hbasis : 0 ≤ inputs.basis) (hresidual : 0 ≤ inputs.residual)
    (hrate : 0 ≤ monthlyRate inputs) : s.1 ≤ inputs.basis + inputs.residual := by
  rcases h.pace with hpace | hpace
  · rw [hpace]
    exact le_add_of_nonneg_left hbasis
  · have hcarrying : 0 ≤ s.1 := hresidual.trans h.residual_le
    have hfactor : 0 ≤ monthlyRate inputs * s.2 := mul_nonneg hrate h.position_nonneg
    nlinarith [mul_nonneg hcarrying hfactor]

theorem paced_start (hbasis : 0 ≤ inputs.basis) : Paced inputs (inputs.basis + inputs.residual, 0) where
  residual_le := le_add_of_nonneg_left hbasis
  position_nonneg := le_rfl
  pace := Or.inr (by simp)

/-- A charge of no less than the monthly rate, up to what is left, keeps the pace. -/
theorem paced_of_charge {charge : ℚ} (h : Paced inputs s) (hrate : 0 ≤ monthlyRate inputs) (hcarrying : 0 ≤ s.1)
    (hf : 0 ≤ f) (hcharge : s.1 * monthlyRate inputs * f ≤ charge) :
    Paced inputs (s.1 - min charge (s.1 - inputs.residual), s.2 + f) := by
  have hleft : 0 ≤ s.1 - inputs.residual := sub_nonneg.2 h.residual_le
  have hnonneg : 0 ≤ charge := (mul_nonneg (mul_nonneg hcarrying hrate) hf).trans hcharge
  have hposition : 0 ≤ s.2 + f := add_nonneg h.position_nonneg hf
  refine ⟨by linarith [min_le_right charge (s.1 - inputs.residual)], hposition, ?_⟩
  rcases min_choice charge (s.1 - inputs.residual) with hmin | hmin
  · rcases h.pace with hpace | hpace
    · left
      have hzero : charge ≤ 0 := by
        have hle := min_le_right charge (s.1 - inputs.residual)
        rw [hmin, hpace, sub_self] at hle
        exact hle
      rw [hmin, le_antisymm hzero hnonneg, sub_zero]
      exact hpace
    · right
      -- the carrying amount falls by more than the pace asks
      have hfactor : 0 ≤ 1 + monthlyRate inputs * (s.2 + f) := by
        linarith [mul_nonneg hrate hposition]
      rw [hmin]
      calc (s.1 - charge) * (1 + monthlyRate inputs * (s.2 + f))
          ≤ (s.1 - s.1 * monthlyRate inputs * f) * (1 + monthlyRate inputs * (s.2 + f)) :=
            mul_le_mul_of_nonneg_right (by linarith) hfactor
        _ = s.1 * (1 + monthlyRate inputs * s.2) -
            s.1 * (monthlyRate inputs * f * (monthlyRate inputs * (s.2 + f))) := by ring
        _ ≤ s.1 * (1 + monthlyRate inputs * s.2) :=
            sub_le_self _ (mul_nonneg hcarrying (mul_nonneg (mul_nonneg hrate hf) (mul_nonneg hrate hposition)))
        _ ≤ inputs.basis + inputs.residual := hpace
  · left
    rw [hmin, sub_sub_cancel]

/-- A month that consumes some of the life keeps the pace. -/
theorem paced_decliningStep (h : Paced inputs s) (hresidual : 0 ≤ inputs.residual)
    (hrate : 0 ≤ monthlyRate inputs) (hf : 0 ≤ f) : Paced inputs (decliningStep inputs s f).2 := by
  have hcarrying : 0 ≤ s.1 := hresidual.trans h.residual_le
  have hposition : 0 ≤ s.2 + f := add_nonneg h.position_nonneg hf
  simp only [decliningStep, decliningCharge]
  split_ifs with hlast hsome hswitch
  · -- the last month of the life writes down to the residual
    exact ⟨(sub_sub_cancel _ _).ge, hposition, Or.inl (sub_sub_cancel _ _)⟩
  · exact paced_of_charge h hrate hcarrying hf (le_max_left _ _)
  · exact paced_of_charge h hrate hcarrying hf le_rfl
  · rw [not_not] at hsome
    subst hsome
    simpa using h

theorem paced_scanState (h : Paced inputs s) (hresidual : 0 ≤ inputs.residual) (hrate : 0 ≤ monthlyRate inputs)
    (hf : ∀ f ∈ fractions, 0 ≤ f) : Paced inputs (scanState (decliningStep inputs) s fractions) := by
  induction fractions generalizing s with
  | nil => exact h
  | cons f fractions ih =>
    rw [List.forall_mem_cons] at hf
    exact ih (paced_decliningStep h hresidual hrate hf.1) hf.2

/-- Whatever a month consumes, a declining balance stays above its residual. -/
theorem residual_le_decliningStep (h : inputs.residual ≤ s.1) : inputs.residual ≤ (decliningStep inputs s f).2.1 := by
  have hleft : 0 ≤ s.1 - inputs.residual := sub_nonneg.2 h
  simp only [decliningStep, decliningCharge]
  split_ifs
  · linarith
  · linarith [min_le_right (max (s.1 * monthlyRate inputs * f)
      ((s.1 - inputs.residual) * f / (inputs.life - s.2))) (s.1 - inputs.residual)]
  · linarith [min_le_right (s.1 * monthlyRate inputs * f) (s.1 - inputs.residual)]
  · linarith

/-- What a month gives back of a balance written down to its residual was charged. -/
def GivesBackCharged (inputs : MethodInputs) (s : ℚ × ℚ) (f : ℚ) : Prop :=
  s.1 = inputs.residual → ¬(inputs.params.switchToStraightLine ∧ s.2 < inputs.life) →
    inputs.residual * monthlyRate inputs * -f ≤ inputs.basis

/-- A balance charged at its pace stays below the cost when life is taken back. -/
theorem charge_ge_of_pace {charge : ℚ} (hpace : s.1 * (1 + monthlyRate inputs * s.2) ≤ inputs.basis + inputs.residual)
    (hcarrying : 0 ≤ s.1) (hrate : 0 ≤ monthlyRate inputs) (hf : -s.2 ≤ f)
    (hcharge : s.1 * monthlyRate inputs * f ≤ charge) : s.1 - charge ≤ inputs.basis + inputs.residual := by
  have hback : s.1 * monthlyRate inputs * -s.2 ≤ s.1 * monthlyRate inputs * f :=
    mul_le_mul_of_nonneg_left hf (mul_nonneg hcarrying hrate)
  linarith

/-- **A month leaves a declining balance below its cost exactly when what it gives back
    was charged.** -/
theorem le_cost_iff (h : Paced inputs s) (hbasis : 0 ≤ inputs.basis) (hresidual : 0 ≤ inputs.residual)
    (hrate : 0 ≤ monthlyRate inputs) (hlife : s.2 ≤ inputs.life) (hf : -s.2 ≤ f) :
    (decliningStep inputs s f).2.1 ≤ inputs.basis + inputs.residual ↔ GivesBackCharged inputs s f := by
  have hcarrying : 0 ≤ s.1 := hresidual.trans h.residual_le
  have hmonthly : 0 ≤ inputs.residual * monthlyRate inputs := mul_nonneg hresidual hrate
  simp only [decliningStep, decliningCharge, GivesBackCharged, sub_pos]
  split_ifs with hlast hsome hswitch
  · -- the last month of the life is charged what is left
    have hpos : 0 ≤ f := by linarith [hlast.2]
    refine iff_of_true (by linarith) fun _ _ => ?_
    linarith [mul_nonneg hmonthly hpos]
  · -- the straight line takes nothing back once nothing is left
    refine iff_of_true ?_ fun _ hnot => absurd hswitch hnot
    rcases h.pace with hpace | hpace
    · have hzero : (s.1 - inputs.residual) * f / (inputs.life - s.2) = 0 := by rw [hpace]; simp
      have hcharge : 0 ≤ min (max (s.1 * monthlyRate inputs * f)
          ((s.1 - inputs.residual) * f / (inputs.life - s.2))) (s.1 - inputs.residual) :=
        le_min (hzero ▸ le_max_right _ _) (sub_nonneg.2 h.residual_le)
      linarith
    · rcases min_choice (max (s.1 * monthlyRate inputs * f) ((s.1 - inputs.residual) * f / (inputs.life - s.2)))
        (s.1 - inputs.residual) with hmin | hmin
      · rw [hmin]
        exact charge_ge_of_pace hpace hcarrying hrate hf (le_max_left _ _)
      · rw [hmin]
        linarith
  · by_cases hpace : s.1 = inputs.residual
    · -- nothing is left: what the month gives back is the residual's
      rw [hpace, sub_self]
      constructor
      · intro hle _ _
        linarith [min_le_left (inputs.residual * monthlyRate inputs * f) 0]
      · intro hback
        have hle := hback rfl hswitch
        rcases min_choice (inputs.residual * monthlyRate inputs * f) 0 with hmin | hmin
        · rw [hmin]
          linarith
        · rw [hmin]
          linarith
    · refine iff_of_true ?_ fun hdone => absurd hdone hpace
      rcases min_choice (s.1 * monthlyRate inputs * f) (s.1 - inputs.residual) with hmin | hmin
      · rw [hmin]
        exact charge_ge_of_pace (h.pace.resolve_left hpace) hcarrying hrate hf le_rfl
      · rw [hmin]
        linarith
  · rw [not_not] at hsome
    subst hsome
    refine iff_of_true ?_ fun _ _ => by simpa using hbasis
    simpa using h.le_cost hbasis hresidual hrate

end

/-! ## Every method -/

section
variable {inputs : MethodInputs} {fs : List ℚ} {f : ℚ}

theorem sum_zeros (l : List ℚ) : (l.map fun _ => (0 : ℚ)).sum = 0 := by simp

/-- A method that does not decline stays within the basis, whatever the months consumed. -/
theorem sum_amounts_mem_of_ne {method : Method} (hmethod : method ≠ .decliningBalance) (hbasis : 0 ≤ inputs.basis) :
    0 ≤ (method.amounts inputs).sum ∧ (method.amounts inputs).sum ≤ inputs.basis := by
  have hzeros : 0 ≤ (inputs.fractions.map fun _ => (0 : ℚ)).sum ∧
      (inputs.fractions.map fun _ => (0 : ℚ)).sum ≤ inputs.basis := by
    rw [sum_zeros]
    exact ⟨le_rfl, hbasis⟩
  rcases le_or_gt inputs.life 0 with hlife | hlife
  · cases method <;> simpa only [Method.amounts, hlife, ↓reduceIte] using hzeros
  · cases method with
    | straightLine | unitsOfUse =>
      simp only [Method.amounts, hlife.not_ge, ↓reduceIte]
      exact sum_byCurve_mem (straightCurve_zero hlife) (straightCurve_mem hlife) hbasis
    | sumOfYearsDigits =>
      simp only [Method.amounts, hlife.not_ge, ↓reduceIte]
      exact sum_byCurve_mem (sumOfYearsCurve_zero hlife) (sumOfYearsCurve_mem hlife) hbasis
    | decliningBalance => exact absurd rfl hmethod
    | noDepreciation => exact hzeros

/-- The carrying amount and the position of a declining balance after its months. -/
def decliningState (inputs : MethodInputs) : ℚ × ℚ :=
  scanState (decliningStep inputs) (inputs.basis + inputs.residual, 0) inputs.fractions

theorem amounts_declining (hlife : 0 < inputs.life) :
    Method.amounts inputs .decliningBalance = decliningAmounts inputs := by
  simp only [Method.amounts, hlife.not_ge, ↓reduceIte]

theorem fst_decliningState {i : MethodInputs} (hlife : 0 < i.life) :
    (decliningState i).1 = i.basis + i.residual - (Method.amounts i .decliningBalance).sum := by
  rw [amounts_declining hlife, decliningAmounts, sum_scan_decliningStep, decliningState, sub_sub_cancel]

theorem snd_decliningState : (decliningState inputs).2 = inputs.fractions.sum := by
  rw [decliningState, scanState_decliningStep, zero_add]

theorem decliningState_append : decliningState (inputs.consuming (fs ++ [f])) =
    (decliningStep inputs (decliningState (inputs.consuming fs)) f).2 :=
  scanState_append

theorem paced_decliningState (hbasis : 0 ≤ inputs.basis) (hresidual : 0 ≤ inputs.residual)
    (hrate : 0 ≤ monthlyRate inputs) (hf : ∀ f ∈ inputs.fractions, 0 ≤ f) : Paced inputs (decliningState inputs) :=
  paced_scanState (paced_start hbasis) hresidual hrate hf

/-- **Months that take no life back are charged within the basis.** -/
theorem sum_amounts_mem (method : Method) (hbasis : 0 ≤ inputs.basis) (hresidual : 0 ≤ inputs.residual)
    (hrate : 0 < inputs.life → 0 ≤ monthlyRate inputs) (hf : 0 < inputs.life → ∀ f ∈ inputs.fractions, 0 ≤ f) :
    0 ≤ (method.amounts inputs).sum ∧ (method.amounts inputs).sum ≤ inputs.basis := by
  by_cases hmethod : method = .decliningBalance
  · subst hmethod
    rcases le_or_gt inputs.life 0 with hlife | hlife
    · simp only [Method.amounts, hlife, ↓reduceIte, sum_zeros]
      exact ⟨le_rfl, hbasis⟩
    · have hpaced := paced_decliningState hbasis hresidual (hrate hlife) (hf hlife)
      have hcost := hpaced.le_cost hbasis hresidual (hrate hlife)
      have hleft := hpaced.residual_le
      rw [fst_decliningState hlife] at hcost hleft
      exact ⟨by linarith, by linarith⟩
  · exact sum_amounts_mem_of_ne hmethod hbasis

/-- **A last month of a declining balance is charged within the basis exactly when what it
    gives back was charged.** -/
theorem sum_amounts_last (hlife : 0 < inputs.life) (hbasis : 0 ≤ inputs.basis) (hresidual : 0 ≤ inputs.residual)
    (hrate : 0 ≤ monthlyRate inputs) (hfs : ∀ f ∈ fs, 0 ≤ f) (hposition : fs.sum ≤ inputs.life)
    (hf : -fs.sum ≤ f) :
    (0 ≤ (Method.amounts (inputs.consuming (fs ++ [f])) .decliningBalance).sum ↔
        GivesBackCharged inputs (decliningState (inputs.consuming fs)) f) ∧
      (Method.amounts (inputs.consuming (fs ++ [f])) .decliningBalance).sum ≤ inputs.basis := by
  have hpaced : Paced inputs (decliningState (inputs.consuming fs)) :=
    paced_scanState (paced_start hbasis) hresidual hrate hfs
  have hsnd : (decliningState (inputs.consuming fs)).2 = fs.sum := snd_decliningState
  have hfst := fst_decliningState (i := inputs.consuming (fs ++ [f])) hlife
  rw [decliningState_append] at hfst
  have hleft : inputs.residual ≤ (decliningStep inputs (decliningState (inputs.consuming fs)) f).2.1 :=
    residual_le_decliningStep hpaced.residual_le
  have hcost := le_cost_iff hpaced hbasis hresidual hrate (hsnd ▸ hposition) (hsnd ▸ hf)
  have hbasis' : (inputs.consuming (fs ++ [f])).basis = inputs.basis := rfl
  have hresidual' : (inputs.consuming (fs ++ [f])).residual = inputs.residual := rfl
  rw [hbasis', hresidual'] at hfst
  rw [← hcost]
  exact ⟨⟨fun h => by linarith, fun h => by linarith⟩, by linarith⟩

/-- **A layer whose months used up its life is charged its basis.** -/
theorem sum_amounts_spent {method : Method} (hmethod : method ≠ .noDepreciation) (hlife : 0 < inputs.life)
    (hspent : inputs.fractions.sum = inputs.life) : (method.amounts inputs).sum = inputs.basis := by
  cases method with
  | straightLine | unitsOfUse =>
    simp only [Method.amounts, hlife.not_ge, ↓reduceIte]
    rw [sum_byCurve (straightCurve_zero hlife), hspent, straightCurve_life hlife, mul_one]
  | sumOfYearsDigits =>
    simp only [Method.amounts, hlife.not_ge, ↓reduceIte]
    rw [sum_byCurve (sumOfYearsCurve_zero hlife), hspent, sumOfYearsCurve_life hlife, mul_one]
  | decliningBalance =>
    have hend : (decliningState inputs).1 = inputs.residual := by
      refine (spent_scanState (Or.inl hlife) inputs.fractions).resolve_left ?_
      have hposition : (decliningState inputs).2 = inputs.life := snd_decliningState.trans hspent
      exact fun hlt => hlt.ne hposition
    have hfst := fst_decliningState hlife
    rw [hend] at hfst
    linarith
  | noDepreciation => exact absurd rfl hmethod

end

end Celerp
