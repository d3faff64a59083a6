/-
  Amounts taken in steps: along a list of marks, the differences of a function
  between each mark and the one before it.

  * `sum_steps`: the steps come to the difference between the two ends, whatever lies
    between;
  * `near_steps`: where two functions stay within `e` of each other, their steps stay
    within twice that;
  * `steps_nonneg`: a monotone function steps up along an increasing list.
-/
import Mathlib.Algebra.BigOperators.Group.List.Basic
import Mathlib.Algebra.Order.Group.Unbundled.Abs
import Mathlib.Tactic.Abel
import Mathlib.Tactic.Linarith

namespace Telescope

variable {α β : Type*}

/-! ## Steps -/

/-- The differences of `f` from mark to mark, from `a` on. -/
def steps [Sub β] (f : α → β) : α → List α → List β
  | _, [] => []
  | a, b :: l => (f b - f a) :: steps f b l

theorem length_steps [Sub β] (f : α → β) (a : α) (l : List α) : (steps f a l).length = l.length := by
  induction l generalizing a with
  | nil => rfl
  | cons b l ih => simp [steps, ih]

/-- The steps of `f`, each as a function of the two marks it lies between. -/
theorem steps_eq_map_zip [Sub β] (f : α → β) (a : α) (l : List α) :
    steps f a l = ((a :: l).zip l).map fun p => f p.2 - f p.1 := by
  induction l generalizing a with
  | nil => rfl
  | cons b l ih => rw [steps, ih, List.zip_cons_cons, List.map_cons]

theorem sum_steps [AddCommGroup β] (f : α → β) (a : α) (l : List α) :
    (steps f a l).sum = f (l.getLastD a) - f a := by
  induction l generalizing a with
  | nil => simp [steps]
  | cons b l ih =>
    rw [steps, List.sum_cons, ih, List.getLastD_cons]
    abel

section
variable [AddCommGroup β] [LinearOrder β] [IsOrderedAddMonoid β] {f g : α → β} {e : β}

theorem near_steps (h : ∀ x, |g x - f x| ≤ e) (a : α) (l : List α) :
    ∀ p ∈ (steps f a l).zip (steps g a l), |p.2 - p.1| ≤ e + e := by
  induction l generalizing a with
  | nil =>
    intro p hp
    exact absurd hp List.not_mem_nil
  | cons b l ih =>
    intro p hp
    rw [steps, steps, List.zip_cons_cons, List.mem_cons] at hp
    rcases hp with rfl | hp
    · have hsplit : g b - g a - (f b - f a) = (g b - f b) - (g a - f a) := by abel
      calc |g b - g a - (f b - f a)| = |(g b - f b) - (g a - f a)| := by rw [hsplit]
        _ ≤ |g b - f b| + |g a - f a| := abs_sub _ _
        _ ≤ e + e := add_le_add (h b) (h a)
    · exact ih b p hp

theorem steps_nonneg [Preorder α] (hf : Monotone f) {a : α} {l : List α} (hl : List.IsChain (· ≤ ·) (a :: l)) :
    ∀ v ∈ steps f a l, 0 ≤ v := by
  induction l generalizing a with
  | nil =>
    intro v hv
    exact absurd hv List.not_mem_nil
  | cons b l ih =>
    intro v hv
    obtain ⟨hab, hbl⟩ := List.isChain_cons_cons.1 hl
    rcases List.mem_cons.1 hv with rfl | hv
    · exact sub_nonneg.2 (hf hab)
    · exact ih hbl v hv

end

/-! ## Running totals -/

/-- The totals reached by adding the entries of a list one at a time to `a`. -/
def totals [Add α] : α → List α → List α
  | _, [] => []
  | a, b :: l => (a + b) :: totals (a + b) l

section
variable [AddCommGroup α]

theorem getLastD_totals (a : α) (l : List α) : (totals a l).getLastD a = a + l.sum := by
  induction l generalizing a with
  | nil => simp [totals]
  | cons b l ih => rw [totals, List.getLastD_cons, ih, List.sum_cons, add_assoc]

/-- The steps of an additive function along running totals are its values at the entries. -/
theorem steps_totals [AddCommGroup β] (f : α →+ β) (a : α) (l : List α) :
    steps f a (totals a l) = l.map f := by
  induction l generalizing a with
  | nil => rfl
  | cons b l ih => rw [totals, steps, ih, List.map_cons, map_add, add_sub_cancel_left]

theorem isChain_totals [PartialOrder α] [IsOrderedAddMonoid α] {a : α} {l : List α} (h : ∀ v ∈ l, 0 ≤ v) :
    List.IsChain (· ≤ ·) (a :: totals a l) := by
  induction l generalizing a with
  | nil => exact .singleton a
  | cons b l ih =>
    refine List.isChain_cons_cons.2 ⟨?_, ih fun v hv => h v (List.mem_cons_of_mem _ hv)⟩
    exact le_add_of_nonneg_right (h b List.mem_cons_self)

end

end Telescope
