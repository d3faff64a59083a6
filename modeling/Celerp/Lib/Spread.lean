/-
  Spreads: what amounts that may or may not count could bring a difference to.

  Each of the amounts counts in full or not at all, so together they move a difference
  by anything from `low` to `high`.  `nearest gap moves` is the end of that range nearest
  zero, or zero where the range reaches it (`nearest_eq_zero`).  What it leaves of the
  difference some of the amounts explain where they explain the difference, or come to as
  much as all of them on its side (`explains_sub_nearest_iff`).
-/
import Mathlib.Algebra.BigOperators.Group.List.Basic
import Mathlib.Algebra.Order.BigOperators.Group.List
import Mathlib.Algebra.Order.Group.Defs
import Mathlib.Algebra.Order.Group.Unbundled.Basic
import Mathlib.Tactic.Abel

namespace Spread

variable {α : Type*} [AddCommGroup α] [LinearOrder α]

/-- The least the amounts can come to. -/
def low (moves : List α) : α := (moves.filter (· < 0)).sum

/-- The most the amounts can come to. -/
def high (moves : List α) : α := (moves.filter (0 < ·)).sum

/-- What no choice of the amounts explains of a difference. -/
def nearest (gap : α) (moves : List α) : α :=
  if gap + high moves < 0 then gap + high moves
  else if 0 < gap + low moves then gap + low moves
  else 0

/-- Some choice of the amounts brings the difference to zero or past it, either way. -/
def Explains (moves : List α) (gap : α) : Prop := 0 ≤ gap + high moves ∧ gap + low moves ≤ 0

instance instDecidableExplains (moves : List α) (gap : α) : Decidable (Explains moves gap) :=
  inferInstanceAs (Decidable (_ ∧ _))

section
variable {gap : α} {moves : List α}

theorem nearest_eq_zero : nearest gap moves = 0 ↔ Explains moves gap := by
  unfold nearest Explains
  constructor
  · intro h
    split_ifs at h with hhigh hlow
    · exact absurd h hhigh.ne
    · exact absurd h hlow.ne'
    · exact ⟨not_lt.1 hhigh, not_lt.1 hlow⟩
  · rintro ⟨hhigh, hlow⟩
    rw [if_neg (not_lt.2 hhigh), if_neg (not_lt.2 hlow)]

@[simp] theorem low_nil : low ([] : List α) = 0 := rfl

@[simp] theorem high_nil : high ([] : List α) = 0 := rfl

variable [IsOrderedAddMonoid α]

theorem low_nonpos (moves : List α) : low moves ≤ 0 := by
  have h := List.sum_le_card_nsmul (moves.filter (· < 0)) 0 fun v hv => ?_
  · rwa [nsmul_zero] at h
  · have hv := (List.mem_filter.1 hv).2
    simp only [decide_eq_true_eq] at hv
    exact hv.le

theorem high_nonneg (moves : List α) : 0 ≤ high moves := by
  refine List.sum_nonneg fun v hv => ?_
  have h := (List.mem_filter.1 hv).2
  simp only [decide_eq_true_eq] at h
  exact h.le

theorem low_eq (moves : List α) : low moves = -high (moves.map (-·)) := by
  induction moves with
  | nil => simp
  | cons m moves ih =>
    rw [low, high, List.map_cons, List.filter_cons, List.filter_cons]
    rw [low, high] at ih
    simp only [Left.neg_pos_iff, decide_eq_true_eq]
    split_ifs
    · rw [List.sum_cons, List.sum_cons, ih, neg_add, neg_neg]
    · exact ih

/-- What amounts leave of a difference some of them explain just where they explain it
    all, or come to as much as all of them on its side. -/
theorem explains_sub_nearest_iff {own : List α} (hhigh : high own ≤ high moves) (hlow : low moves ≤ low own) :
    Explains own (gap - nearest gap moves) ↔
      (gap + high own < 0 → high moves ≤ high own) ∧ (0 < gap + low own → low own ≤ low moves) := by
  have hown := low_nonpos own
  have hown' := high_nonneg own
  unfold nearest Explains
  split_ifs with h h'
  · have hleft : gap - (gap + high moves) = -high moves := by abel
    have hshort : gap + high own < 0 := (add_le_add_right hhigh gap).trans_lt h
    have hgap : gap < 0 := lt_of_le_of_lt (le_add_of_nonneg_right (hown'.trans hhigh)) h
    have hover : ¬0 < gap + low own := not_lt.2 (add_nonpos hgap.le hown)
    rw [hleft, neg_add_eq_sub, sub_nonneg]
    exact ⟨fun hle => ⟨fun _ => hle.1, fun h => absurd h hover⟩,
      fun hle => ⟨hle.1 hshort, add_nonpos (neg_nonpos.2 (hown'.trans hhigh)) hown⟩⟩
  · have hleft : gap - (gap + low moves) = -low moves := by abel
    have hover : 0 < gap + low own := h'.trans_le (add_le_add_right hlow gap)
    have hgap : 0 < gap := lt_of_lt_of_le h' (add_le_of_nonpos_right (hlow.trans hown))
    have hshort : ¬gap + high own < 0 := not_lt.2 (add_nonneg hgap.le hown')
    rw [hleft, neg_add_eq_sub, neg_add_eq_sub, sub_nonneg, sub_nonpos]
    exact ⟨fun hle => ⟨fun h => absurd h hshort, fun _ => hle.2⟩,
      fun hle => ⟨(hlow.trans hown).trans hown', hle.2 hover⟩⟩
  · rw [sub_zero]
    constructor
    · rintro ⟨hshort, hover⟩
      exact ⟨fun h => absurd h (not_lt.2 hshort), fun h => absurd h (not_lt.2 hover)⟩
    · rintro ⟨hshort, hover⟩
      refine ⟨not_lt.1 fun hlt => ?_, not_lt.1 fun hlt => ?_⟩
      · exact h ((add_le_add_right (hshort hlt) gap).trans_lt hlt)
      · exact h' (hlt.trans_le (add_le_add_right (hover hlt) gap))

section
variable {β : Type*} {f : β → α} {p : β → Bool} {l : List β}

omit [IsOrderedAddMonoid α] in
theorem high_map_cons (f : β → α) (x : β) (l : List β) :
    high ((x :: l).map f) = max (f x) 0 + high (l.map f) := by
  rw [high, high, List.map_cons, List.filter_cons]
  simp only [decide_eq_true_eq]
  split_ifs with hx
  · rw [List.sum_cons, max_eq_left hx.le]
  · rw [max_eq_right (not_lt.1 hx), zero_add]

theorem high_filter_le : high ((l.filter p).map f) ≤ high (l.map f) := by
  induction l with
  | nil => exact le_rfl
  | cons x l ih =>
    rw [high_map_cons, List.filter_cons]
    split_ifs
    · rw [high_map_cons]
      exact add_le_add_right ih _
    · exact ih.trans (le_add_of_nonneg_left (le_max_right _ _))

/-- Some of the amounts come to as much as all of them just where no other is above nothing. -/
theorem le_high_filter_iff : high (l.map f) ≤ high ((l.filter p).map f) ↔ ∀ x ∈ l, 0 < f x → p x := by
  induction l with
  | nil => simp
  | cons x l ih =>
    rw [high_map_cons, List.filter_cons, List.forall_mem_cons, ← ih]
    split_ifs with hp
    · rw [high_map_cons, add_le_add_iff_left]
      simp [hp]
    · have hle : high ((l.filter p).map f) ≤ high (l.map f) := high_filter_le
      constructor
      · intro h
        have hrest : high (l.map f) ≤ high ((l.filter p).map f) := (le_add_of_nonneg_left (le_max_right _ _)).trans h
        refine ⟨fun hx => ?_, hrest⟩
        exact absurd (h.trans hle) (not_le.2 (lt_add_of_pos_left _ (lt_max_of_lt_left hx)))
      · rintro ⟨hx, hrest⟩
        rw [max_eq_right (not_lt.1 fun h => hp (hx h)), zero_add]
        exact hrest

theorem low_le_filter : low (l.map f) ≤ low ((l.filter p).map f) := by
  rw [low_eq, low_eq, List.map_map, List.map_map, neg_le_neg_iff]
  exact high_filter_le

theorem low_filter_le_iff : low ((l.filter p).map f) ≤ low (l.map f) ↔ ∀ x ∈ l, f x < 0 → p x := by
  rw [low_eq, low_eq, List.map_map, List.map_map, neg_le_neg_iff, le_high_filter_iff]
  simp

end

end

end Spread
