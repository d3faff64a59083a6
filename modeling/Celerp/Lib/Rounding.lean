/-
  Rounding to a grid: rounding of the elements of an ordered field to integers,
  halves away from zero (`roundHalfUp`) or to the even one (`roundHalfEven`), and
  to the multiples of a unit (`roundTo`, `roundEvenTo`).

  * `roundHalfUp` fixes the integers, is monotone and odd, and on elements that
    stay nonnegative it commutes with taking an integer off
    (`roundHalfUp_sub_intCast`);
  * `roundHalfEven` fixes the integers, is monotone and commutes with taking an even one off
    (`roundHalfEven_sub_even`);
  * `IsMultiple u` are the multiples of `u`; `roundTo u` lands on one
    (`isMultiple_roundTo`), half a unit away at most (`abs_roundTo_sub_le`) and less where
    the value is no odd number of half units (`abs_sub_roundTo_lt_iff`), fixes each
    (`roundTo_of_isMultiple`), and commutes with taking one off (`roundTo_sub`).
-/
import Mathlib.Algebra.Order.Archimedean.Basic
import Mathlib.Algebra.Order.Floor.Ring
import Mathlib.Data.Rat.Floor
import Mathlib.Tactic.FieldSimp
import Mathlib.Tactic.Linarith
import Mathlib.Tactic.Positivity
import Mathlib.Tactic.Ring

namespace Rounding

variable {α : Type*} [Field α] [LinearOrder α] [FloorRing α]

/-! ## Rounding to an integer -/

/-- The nearest integer, halves away from zero. -/
def roundHalfUp (x : α) : ℤ := if 0 ≤ x then ⌊x + 1 / 2⌋ else -⌊-x + 1 / 2⌋

section
variable {x y : α}

theorem roundHalfUp_of_nonneg (hx : 0 ≤ x) : roundHalfUp x = ⌊x + 1 / 2⌋ := if_pos hx

theorem roundHalfUp_of_neg (hx : x < 0) : roundHalfUp x = -⌊-x + 1 / 2⌋ := if_neg (not_le.2 hx)

variable [IsStrictOrderedRing α]

@[simp] theorem roundHalfUp_zero : roundHalfUp (0 : α) = 0 := by
  rw [roundHalfUp_of_nonneg le_rfl, Int.floor_eq_iff]
  norm_num

theorem roundHalfUp_neg (x : α) : roundHalfUp (-x) = -roundHalfUp x := by
  rcases lt_trichotomy x 0 with hx | rfl | hx
  · rw [roundHalfUp_of_neg hx, roundHalfUp_of_nonneg (by linarith), neg_neg]
  · simp
  · rw [roundHalfUp_of_neg (by linarith), roundHalfUp_of_nonneg hx.le, neg_neg]

theorem roundHalfUp_nonneg (hx : 0 ≤ x) : 0 ≤ roundHalfUp x := by
  rw [roundHalfUp_of_nonneg hx]
  exact Int.floor_nonneg.2 (by linarith)

theorem roundHalfUp_nonpos (hx : x ≤ 0) : roundHalfUp x ≤ 0 := by
  have h := roundHalfUp_nonneg (x := -x) (by linarith)
  rw [roundHalfUp_neg] at h
  omega

theorem roundHalfUp_mono (h : x ≤ y) : roundHalfUp x ≤ roundHalfUp y := by
  rcases le_or_gt 0 x with hx | hx
  · rw [roundHalfUp_of_nonneg hx, roundHalfUp_of_nonneg (hx.trans h)]
    exact Int.floor_mono (by linarith)
  · rcases le_or_gt 0 y with hy | hy
    · exact (roundHalfUp_nonpos hx.le).trans (roundHalfUp_nonneg hy)
    · rw [roundHalfUp_of_neg hx, roundHalfUp_of_neg hy]
      have := Int.floor_mono (show -y + 1 / 2 ≤ -x + 1 / 2 by linarith)
      omega

theorem roundHalfUp_le_iff {n : ℤ} (hx : 0 ≤ x) : roundHalfUp x ≤ n ↔ x < n + 1 / 2 := by
  rw [roundHalfUp_of_nonneg hx, Int.floor_le_iff]
  constructor
  · intro h
    linarith
  · intro h
    linarith

theorem roundHalfUp_sub_intCast {n : ℤ} (hx : 0 ≤ x) (hn : 0 ≤ x - n) :
    roundHalfUp (x - n) = roundHalfUp x - n := by
  rw [roundHalfUp_of_nonneg hx, roundHalfUp_of_nonneg hn, ← Int.floor_sub_intCast]
  congr 1
  ring

theorem abs_roundHalfUp_sub_le (x : α) : |(roundHalfUp x : α) - x| ≤ 1 / 2 := by
  have hnn : ∀ y : α, 0 ≤ y → |(roundHalfUp y : α) - y| ≤ 1 / 2 := by
    intro y hy
    rw [roundHalfUp_of_nonneg hy, abs_le]
    constructor
    · linarith [Int.lt_floor_add_one (y + 1 / 2)]
    · linarith [Int.floor_le (y + 1 / 2)]
  rcases le_total 0 x with hx | hx
  · exact hnn x hx
  · have hneg := hnn (-x) (neg_nonneg.2 hx)
    rw [roundHalfUp_neg, ← abs_neg] at hneg
    convert hneg using 2
    push_cast
    ring

@[simp] theorem roundHalfUp_intCast (n : ℤ) : roundHalfUp (n : α) = n := by
  rcases le_or_gt 0 n with hn | hn
  · have h := roundHalfUp_sub_intCast (x := (n : α)) (n := n) (by exact_mod_cast hn) (by simp)
    simp only [sub_self, roundHalfUp_zero] at h
    omega
  · have hn' : (0 : α) ≤ ((-n : ℤ) : α) := by exact_mod_cast (by omega : 0 ≤ -n)
    have h := roundHalfUp_sub_intCast (n := -n) hn' (by simp)
    rw [sub_self, roundHalfUp_zero, Int.cast_neg, roundHalfUp_neg] at h
    omega

end

/-- The nearest integer, halves to the even one. -/
def roundHalfEven (x : α) : ℤ :=
  if Int.fract x < 1 / 2 then ⌊x⌋
  else if 1 / 2 < Int.fract x then ⌊x⌋ + 1
  else if Even ⌊x⌋ then ⌊x⌋ else ⌊x⌋ + 1

section
theorem roundHalfEven_nonneg {x : α} (hx : 0 ≤ x) : 0 ≤ roundHalfEven x := by
  have hfloor : 0 ≤ ⌊x⌋ := Int.floor_nonneg.2 hx
  unfold roundHalfEven
  split_ifs <;> omega

@[simp] theorem roundHalfEven_intCast [IsStrictOrderedRing α] (n : ℤ) :
    roundHalfEven (n : α) = n := by
  simp [roundHalfEven]

theorem roundHalfEven_sub_even [IsStrictOrderedRing α] (x : α) {n : ℤ} (hn : Even n) :
    roundHalfEven (x - n) = roundHalfEven x - n := by
  simp only [roundHalfEven, Int.fract_sub_intCast, Int.floor_sub_intCast, Int.even_sub, hn,
    iff_true]
  split_ifs <;> ring

theorem roundHalfEven_mono [IsStrictOrderedRing α] {x y : α} (h : x ≤ y) : roundHalfEven x ≤ roundHalfEven y := by
  have hx : roundHalfEven x ≤ ⌊x⌋ + 1 := by
    unfold roundHalfEven
    split_ifs <;> omega
  have hy : ⌊y⌋ ≤ roundHalfEven y := by
    unfold roundHalfEven
    split_ifs <;> omega
  rcases (Int.floor_mono h).lt_or_eq with hlt | heq
  · omega
  · have hfract : Int.fract x ≤ Int.fract y := by
      rw [Int.fract, Int.fract, heq]
      exact sub_le_sub_right h _
    unfold roundHalfEven
    rw [heq]
    split_ifs <;> first | omega | linarith

end

/-! ## Rounding to the multiples of a unit -/

/-- `v` is a whole number of units `u`. -/
def IsMultiple (u v : α) : Prop := ∃ n : ℤ, v = n * u

/-- The nearest multiple of `u`, halves away from zero. -/
def roundTo (u v : α) : α := roundHalfUp (v / u) * u

/-- The nearest multiple of `u`, halves to the even one. -/
def roundEvenTo (u v : α) : α := roundHalfEven (v / u) * u

section
omit [LinearOrder α] [FloorRing α]
variable {u v w : α}

theorem isMultiple_zero (u : α) : IsMultiple u 0 := ⟨0, by simp⟩

theorem isMultiple_intCast_mul (n : ℤ) (u : α) : IsMultiple u (n * u) := ⟨n, rfl⟩

theorem IsMultiple.add : IsMultiple u v → IsMultiple u w → IsMultiple u (v + w)
  | ⟨n, hn⟩, ⟨m, hm⟩ => ⟨n + m, by rw [hn, hm]; push_cast; ring⟩

theorem IsMultiple.sub : IsMultiple u v → IsMultiple u w → IsMultiple u (v - w)
  | ⟨n, hn⟩, ⟨m, hm⟩ => ⟨n - m, by rw [hn, hm]; push_cast; ring⟩

theorem IsMultiple.sum {l : List α} (h : ∀ v ∈ l, IsMultiple u v) : IsMultiple u l.sum := by
  induction l with
  | nil => exact isMultiple_zero u
  | cons v l ih =>
    rw [List.sum_cons]
    exact (h v List.mem_cons_self).add (ih fun w hw => h w (List.mem_cons_of_mem _ hw))

end

section
variable {u v w : α}

theorem isMultiple_roundTo (u v : α) : IsMultiple u (roundTo u v) := ⟨_, rfl⟩

theorem isMultiple_roundEvenTo (u v : α) : IsMultiple u (roundEvenTo u v) := ⟨_, rfl⟩

variable [IsStrictOrderedRing α]

theorem roundEvenTo_of_isMultiple (hu : 0 < u) : IsMultiple u v → roundEvenTo u v = v
  | ⟨n, hn⟩ => by rw [roundEvenTo, hn, mul_div_cancel_right₀ _ hu.ne', roundHalfEven_intCast]

theorem roundEvenTo_sub_even (hu : 0 < u) {n : ℤ} (hn : Even n) (v : α) :
    roundEvenTo u (v - n * u) = roundEvenTo u v - n * u := by
  have hsub : (v - n * u) / u = v / u - n := by field_simp
  rw [roundEvenTo, hsub, roundHalfEven_sub_even _ hn, roundEvenTo]
  push_cast
  ring

theorem roundEvenTo_nonneg (hu : 0 < u) (hv : 0 ≤ v) : 0 ≤ roundEvenTo u v :=
  mul_nonneg (by exact_mod_cast roundHalfEven_nonneg (div_nonneg hv hu.le)) hu.le

theorem roundEvenTo_mono (hu : 0 < u) (h : v ≤ w) : roundEvenTo u v ≤ roundEvenTo u w := by
  have hdiv : v / u ≤ w / u := div_le_div_of_nonneg_right h hu.le
  exact mul_le_mul_of_nonneg_right (by exact_mod_cast roundHalfEven_mono hdiv) hu.le

@[simp] theorem roundTo_zero (u : α) : roundTo u 0 = 0 := by simp [roundTo]

theorem roundTo_of_isMultiple (hu : 0 < u) : IsMultiple u v → roundTo u v = v
  | ⟨n, hn⟩ => by rw [roundTo, hn, mul_div_cancel_right₀ _ hu.ne', roundHalfUp_intCast]

theorem roundTo_neg (u v : α) : roundTo u (-v) = -roundTo u v := by
  rw [roundTo, neg_div, roundHalfUp_neg, roundTo]
  push_cast
  ring

theorem roundTo_mono (hu : 0 < u) (h : v ≤ w) : roundTo u v ≤ roundTo u w := by
  have hdiv : v / u ≤ w / u := div_le_div_of_nonneg_right h hu.le
  exact mul_le_mul_of_nonneg_right (by exact_mod_cast roundHalfUp_mono hdiv) hu.le

theorem roundTo_nonneg (hu : 0 < u) (hv : 0 ≤ v) : 0 ≤ roundTo u v := by
  simpa using roundTo_mono hu hv

/-- Rounding moves a value by half a unit at most. -/
theorem abs_roundTo_sub_le (hu : 0 < u) (v : α) : |roundTo u v - v| ≤ u / 2 := by
  have hfactor : roundTo u v - v = (roundHalfUp (v / u) - v / u) * u := by
    rw [roundTo, sub_mul, div_mul_cancel₀ _ hu.ne']
  rw [hfactor, abs_mul, abs_of_pos hu]
  calc |(roundHalfUp (v / u) : α) - v / u| * u ≤ 1 / 2 * u :=
        mul_le_mul_of_nonneg_right (abs_roundHalfUp_sub_le _) hu.le
    _ = u / 2 := by ring

/-- A value less than half a unit from a multiple rounds to it. -/
theorem roundTo_of_near (hu : 0 < u) (hw : IsMultiple u w) (h : |v - w| < u / 2) : roundTo u v = w := by
  obtain ⟨n, rfl⟩ := hw
  have hround := abs_roundTo_sub_le hu v
  rw [abs_le] at hround
  rw [abs_lt] at h
  -- two multiples less than a unit apart
  have hlow : ((n - 1 : ℤ) : α) * u < roundHalfUp (v / u) * u := by
    rw [roundTo] at hround
    push_cast
    linarith
  have hhigh : (roundHalfUp (v / u) : α) * u < ((n + 1 : ℤ) : α) * u := by
    rw [roundTo] at hround
    push_cast
    linarith
  have hlow' : n - 1 < roundHalfUp (v / u) := by exact_mod_cast lt_of_mul_lt_mul_right hlow hu.le
  have hhigh' : roundHalfUp (v / u) < n + 1 := by exact_mod_cast lt_of_mul_lt_mul_right hhigh hu.le
  rw [roundTo, show roundHalfUp (v / u) = n by omega]

/-- A value rounds to no more than a whole amount when it is less than half a unit above. -/
theorem roundTo_le_iff (hu : 0 < u) (hv : 0 ≤ v) (hw : IsMultiple u w) : roundTo u v ≤ w ↔ v < w + u / 2 := by
  obtain ⟨n, rfl⟩ := hw
  rw [roundTo, mul_le_mul_iff_left₀ hu, Int.cast_le, roundHalfUp_le_iff (div_nonneg hv hu.le), div_lt_iff₀ hu]
  constructor
  · intro h
    linarith
  · intro h
    linarith

/-- What rounds to nothing is less than half a unit. -/
theorem roundTo_eq_zero_iff (hu : 0 < u) : roundTo u v = 0 ↔ |v| < u / 2 := by
  have hnn : ∀ w : α, 0 ≤ w → (roundTo u w = 0 ↔ w < u / 2) := by
    intro w hw
    have hle := roundTo_le_iff hu hw (isMultiple_zero u)
    rw [zero_add] at hle
    rw [← hle]
    exact ⟨le_of_eq, fun h => le_antisymm h (roundTo_nonneg hu hw)⟩
  rcases abs_cases v with ⟨habs, hv⟩ | ⟨habs, hv⟩
  · rw [habs, hnn v hv]
  · rw [habs, ← hnn (-v) (by linarith), roundTo_neg, neg_eq_zero]

/-- A multiple of the unit can be taken off before or after rounding, as long as
    both sides stay nonnegative. -/
theorem roundTo_sub (hu : 0 < u) (hv : 0 ≤ v) (hw : IsMultiple u w) (hvw : 0 ≤ v - w) :
    roundTo u (v - w) = roundTo u v - w := by
  obtain ⟨n, rfl⟩ := hw
  have hsub : (v - n * u) / u = v / u - n := by field_simp
  have hnn : 0 ≤ v / u - n := hsub ▸ div_nonneg hvw hu.le
  rw [roundTo, hsub, roundHalfUp_sub_intCast (div_nonneg hv hu.le) hnn, roundTo]
  push_cast
  ring

/-! ## Half units -/

/-- `v` is an odd number of half units `u`. -/
def IsHalf (u v : α) : Prop := ∃ n : ℤ, v = (n + 1 / 2) * u

omit [LinearOrder α] [FloorRing α] [IsStrictOrderedRing α] in
theorem IsMultiple.sub_isHalf [CharZero α] (hw : IsMultiple u w) (h : IsHalf u v) : IsHalf u (w - v) := by
  obtain ⟨n, rfl⟩ := hw
  obtain ⟨m, rfl⟩ := h
  refine ⟨n - m - 1, ?_⟩
  push_cast
  ring

omit [LinearOrder α] [FloorRing α] [IsStrictOrderedRing α] in
theorem IsMultiple.isHalf_sub_iff [CharZero α] (hw : IsMultiple u w) : IsHalf u (w - v) ↔ IsHalf u v := by
  constructor
  · intro h
    simpa using hw.sub_isHalf h
  · exact hw.sub_isHalf

/-- Rounding moves a value by less than half a unit where it is no odd number of half
    units. -/
theorem abs_sub_roundTo_lt_iff (hu : 0 < u) : |v - roundTo u v| < u / 2 ↔ ¬IsHalf u v := by
  have hle := abs_roundTo_sub_le hu v
  rw [abs_sub_comm] at hle
  constructor
  · rintro h ⟨n, rfl⟩
    obtain ⟨m, hm⟩ := isMultiple_roundTo u ((n + 1 / 2) * u)
    rw [hm, ← sub_mul, abs_mul, abs_of_pos hu] at h
    -- no whole number is less than a half from `n + 1 / 2`
    have hnear : |(n : α) + 1 / 2 - m| < 1 / 2 := lt_of_mul_lt_mul_right (by linarith) hu.le
    rw [abs_lt] at hnear
    have hlow : ((n : ℤ) : α) < m := by linarith
    have hhigh : ((m : ℤ) : α) < (n + 1 : ℤ) := by
      push_cast
      linarith
    have hlow' : n < m := by exact_mod_cast hlow
    have hhigh' : m < n + 1 := by exact_mod_cast hhigh
    omega
  · intro h
    refine lt_of_le_of_ne hle fun heq => h ?_
    obtain ⟨m, hm⟩ := isMultiple_roundTo u v
    rcases abs_cases (v - roundTo u v) with ⟨habs, -⟩ | ⟨habs, -⟩
    · refine ⟨m, ?_⟩
      rw [add_mul, ← hm]
      linarith
    · refine ⟨m - 1, ?_⟩
      have hexpand : (((m - 1 : ℤ) : α) + 1 / 2) * u = m * u - u / 2 := by
        push_cast
        ring
      rw [hexpand, ← hm]
      linarith

end

end Rounding
