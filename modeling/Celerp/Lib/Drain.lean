/-
  Taking an amount from a row of stores, one after another.

  `drain t want caps` takes `want` from stores that hold `caps`, in order: of each what it
  holds or what is still wanted, until no more than `t` is wanted.  It takes of each store
  no more than it holds (`drain_bounds`) and no more than is wanted in all
  (`sum_drain_le`); a store is taken from only when those before it are empty
  (`drain_pairwise`); and where the stores hold what is wanted, it falls short by `t` at
  most, and then only where it empties every store it takes from (`drain_short`).
-/
import Mathlib.Algebra.Order.BigOperators.Group.List
import Mathlib.Algebra.Order.Group.Defs
import Mathlib.Order.Lattice
import Mathlib.Tactic.Linarith

namespace Drain

variable {α : Type*} [CommRing α] [LinearOrder α]

/-- What is taken of each store. -/
def drain (t : α) : α → List α → List α
  | _, [] => []
  | want, cap :: caps =>
    if want ≤ t then 0 :: drain t want caps else min cap want :: drain t (want - min cap want) caps

section
variable {t want : α} {caps : List α}

@[simp] theorem length_drain : ∀ {want : α} {caps : List α}, (drain t want caps).length = caps.length
  | _, [] => rfl
  | want, cap :: caps => by
    unfold drain
    split_ifs <;> simp [length_drain]

/-- Once enough is taken, nothing more is. -/
theorem drain_eq_zero (h : want ≤ t) : ∀ caps : List α, drain t want caps = caps.map fun _ => 0
  | [] => rfl
  | cap :: caps => by rw [drain, if_pos h, drain_eq_zero h caps, List.map_cons]

theorem drain_bounds (ht : 0 ≤ t) : ∀ {want : α} {caps : List α}, (∀ c ∈ caps, 0 ≤ c) →
    ∀ p ∈ caps.zip (drain t want caps), 0 ≤ p.2 ∧ p.2 ≤ p.1
  | _, [], _ => fun p hp => absurd hp List.not_mem_nil
  | want, cap :: caps, h => by
    rw [List.forall_mem_cons] at h
    unfold drain
    split_ifs with hw
    · exact List.forall_mem_cons.2 ⟨⟨le_rfl, h.1⟩, drain_bounds ht h.2⟩
    · have hpos : 0 ≤ want := ht.trans (not_le.1 hw).le
      exact List.forall_mem_cons.2 ⟨⟨le_min h.1 hpos, min_le_left _ _⟩, drain_bounds ht h.2⟩

/-- A store is taken from only when those before it are empty. -/
theorem drain_pairwise (ht : 0 ≤ t) : ∀ {want : α} {caps : List α},
    (caps.zip (drain t want caps)).Pairwise fun a b => b.2 ≠ 0 → a.2 = a.1
  | _, [] => .nil
  | want, cap :: caps => by
    unfold drain
    split_ifs with hw
    · refine List.pairwise_cons.2 ⟨fun p hp hne => absurd ?_ hne, drain_pairwise ht⟩
      rw [drain_eq_zero hw] at hp
      obtain ⟨c, -, hc⟩ := List.mem_map.1 (List.of_mem_zip hp).2
      exact hc.symm
    · refine List.pairwise_cons.2 ⟨fun p hp hne => ?_, drain_pairwise ht⟩
      rcases le_total cap want with hle | hle
      · exact min_eq_left hle
      · -- the store covers what is wanted, and nothing is taken after it
        have hzero : want - min cap want ≤ t := by
          rw [min_eq_right hle, sub_self]
          exact ht
        rw [drain_eq_zero hzero] at hp
        obtain ⟨c, -, hc⟩ := List.mem_map.1 (List.of_mem_zip hp).2
        exact absurd hc.symm hne

variable [IsStrictOrderedRing α]

theorem sum_drain_le (ht : 0 ≤ t) : ∀ {want : α} {caps : List α}, (∀ c ∈ caps, 0 ≤ c) →
    (drain t want caps).sum ≤ max 0 want
  | _, [], _ => by simp [drain]
  | want, cap :: caps, h => by
    rw [List.forall_mem_cons] at h
    unfold drain
    split_ifs with hw
    · rw [List.sum_cons, zero_add]
      exact sum_drain_le ht h.2
    · have hpos : 0 ≤ want := ht.trans (not_le.1 hw).le
      have hrest : (drain t (want - min cap want) caps).sum ≤ max 0 (want - min cap want) :=
        sum_drain_le ht h.2
      rw [max_eq_right (sub_nonneg.2 (min_le_right _ _))] at hrest
      rw [List.sum_cons, max_eq_right hpos]
      linarith

/-- Where the stores hold what is wanted, what is taken falls short of it by the tolerance
    at most, and not at all unless every store taken from is emptied. -/
theorem drain_short (ht : 0 ≤ t) : ∀ {want : α} {caps : List α}, (∀ c ∈ caps, 0 ≤ c) → want ≤ caps.sum →
    max 0 want - (drain t want caps).sum ≤ t ∧
      ((drain t want caps).sum = max 0 want ∨
        ∀ p ∈ caps.zip (drain t want caps), p.2 = 0 ∨ p.2 = p.1)
  | want, [], _, hwant => by
    rw [List.sum_nil] at hwant
    have hzero : max 0 want = 0 := max_eq_left hwant
    simp [drain, hzero, ht]
  | want, cap :: caps, h, hwant => by
    rw [List.forall_mem_cons] at h
    rw [List.sum_cons] at hwant
    by_cases hw : want ≤ t
    · have hnone := drain_eq_zero hw (cap :: caps)
      have hsum : (drain t want (cap :: caps)).sum = 0 := by
        rw [hnone]
        simp
      refine ⟨?_, .inr fun p hp => .inl ?_⟩
      · rw [hsum, sub_zero]
        exact max_le ht hw
      · rw [hnone] at hp
        obtain ⟨c, -, hc⟩ := List.mem_map.1 (List.of_mem_zip hp).2
        exact hc.symm
    · have hpos : 0 ≤ want := ht.trans (not_le.1 hw).le
      rw [drain, if_neg hw, List.sum_cons, List.zip_cons_cons, max_eq_right hpos]
      rcases le_total cap want with hle | hle
      · rw [min_eq_left hle]
        obtain ⟨hshort, hexact⟩ := drain_short ht h.2 (show want - cap ≤ caps.sum by linarith)
        rw [max_eq_right (by linarith)] at hshort hexact
        refine ⟨by linarith, hexact.imp (fun hsum => by linarith) fun hwhole => ?_⟩
        exact List.forall_mem_cons.2 ⟨.inr rfl, hwhole⟩
      · rw [min_eq_right hle, sub_self, drain_eq_zero ht]
        have hsum : (caps.map fun _ => (0 : α)).sum = 0 := by simp
        rw [hsum, add_zero, sub_self]
        exact ⟨ht, .inl rfl⟩

end

end Drain
