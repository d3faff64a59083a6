/-
  Serving needs from stocks.

  `Serves I K need has may x`: `x` gives each `i` of what it needs, from each stock no more
  than it has, and only where it may.  A stock is some takers' own (`own`) or open to all.

  * `Greedy`: a taker that stays short has nothing left to take, and one whose own stock
    is not used up takes all it needs from it, both to a tolerance `t`;
  * `shortfall_le_of_greedy`: what is served greedily falls short of no more than anything
    else does, to `t` for each taker and each stock.
-/
import Mathlib.Algebra.BigOperators.Ring.Finset
import Mathlib.Algebra.Order.BigOperators.Group.Finset
import Mathlib.Algebra.Order.BigOperators.Ring.Finset
import Mathlib.Tactic.Linarith
import Mathlib.Tactic.Positivity

namespace Serving

open Finset

variable {ι κ α : Type*} [CommRing α] [LinearOrder α]

/-- A way to serve needs from stocks. -/
structure Serves (I : Finset ι) (K : Finset κ) (need : ι → α) (has : κ → α) (may : ι → κ → Prop) (x : ι → κ → α) :
    Prop where
  nonneg : ∀ i ∈ I, ∀ k ∈ K, 0 ≤ x i k
  within_need : ∀ i ∈ I, ∑ k ∈ K, x i k ≤ need i
  within_stock : ∀ k ∈ K, ∑ i ∈ I, x i k ≤ has k
  allowed : ∀ i ∈ I, ∀ k ∈ K, x i k ≠ 0 → may i k

/-- What stays short of the needs. -/
def shortfall (I : Finset ι) (K : Finset κ) (need : ι → α) (x : ι → κ → α) : α :=
  ∑ i ∈ I, (need i - ∑ k ∈ K, x i k)

/-- A stock is open to those whose own it is, and to all where it is nobody's own. -/
def Open (I : Finset ι) (own : ι → Option κ) (i : ι) (k : κ) : Prop := own i = some k ∨ ∀ j ∈ I, own j ≠ some k

/-- Served greedily, to a tolerance. -/
structure Greedy (I : Finset ι) (K : Finset κ) (need : ι → α) (has : κ → α) (own : ι → Option κ) (t : α)
    (x : ι → κ → α) : Prop where
  used_up : ∀ i ∈ I, t < need i - ∑ k ∈ K, x i k → ∀ k ∈ K, Open I own i k → has k - ∑ j ∈ I, x j k ≤ t
  own_first : ∀ i ∈ I, ∀ k ∈ K, own i = some k → t < has k - ∑ j ∈ I, x j k → need i - t ≤ x i k

section
variable {I : Finset ι} {K : Finset κ} {need : ι → α} {has : κ → α} {own : ι → Option κ} {t : α} {x y : ι → κ → α}

omit [LinearOrder α] in
theorem shortfall_eq : shortfall I K need x = ∑ i ∈ I, need i - ∑ k ∈ K, ∑ i ∈ I, x i k := by
  rw [shortfall, sum_sub_distrib, sum_comm]

variable [IsStrictOrderedRing α]

theorem Serves.shortfall_nonneg {may : ι → κ → Prop} (h : Serves I K need has may x) : 0 ≤ shortfall I K need x :=
  sum_nonneg fun i hi => sub_nonneg.2 (h.within_need i hi)

variable [DecidableEq κ]

/-- What another way serves from a stock, greedy serving does too, to `t` for the stock and
    for each taker whose own it is, once some taker stays short. -/
theorem stock_le_of_greedy (ht : 0 ≤ t) (hx : Serves I K need has (Open I own) x) (hgreedy : Greedy I K need has own t x)
    (hy : Serves I K need has (Open I own) y) {i : ι} (hi : i ∈ I) (hshort : t < need i - ∑ k ∈ K, x i k) {k : κ}
    (hk : k ∈ K) :
    ∑ j ∈ I, y j k ≤ ∑ j ∈ I, x j k + t * (1 + ∑ j ∈ I, if own j = some k then 1 else 0) := by
  have howners : (0 : α) ≤ ∑ j ∈ I, if own j = some k then (1 : α) else 0 :=
    sum_nonneg fun j _ => by split_ifs <;> simp
  by_cases hleft : has k - ∑ j ∈ I, x j k ≤ t
  · have hstock := hy.within_stock k hk
    have hscaled := mul_nonneg ht howners
    linarith
  · rw [not_le] at hleft
    -- a stock with something left is not open to the taker that stays short
    have hnotOpen : ¬Open I own i k := fun hopen => absurd (hgreedy.used_up i hi hshort k hk hopen) (not_le.2 hleft)
    have hsomeone : ∃ j ∈ I, own j = some k := by
      by_contra hnone
      push Not at hnone
      exact hnotOpen (.inr hnone)
    have hterm : ∀ j ∈ I, y j k ≤ x j k + t * if own j = some k then 1 else 0 := by
      intro j hj
      by_cases hown : own j = some k
      · rw [if_pos hown, mul_one]
        have hone := hgreedy.own_first j hj k hk hown hleft
        have hneed : y j k ≤ need j :=
          (single_le_sum (fun k hk => hy.nonneg j hj k hk) hk).trans (hy.within_need j hj)
        linarith
      · rw [if_neg hown, mul_zero, add_zero]
        have hzero : y j k = 0 := by
          by_contra hne
          rcases hy.allowed j hj k hk hne with hmine | hnobody
          · exact hown hmine
          · obtain ⟨j', hj', hown'⟩ := hsomeone
            exact hnobody j' hj' hown'
        rw [hzero]
        exact hx.nonneg j hj k hk
    calc ∑ j ∈ I, y j k ≤ ∑ j ∈ I, (x j k + t * if own j = some k then 1 else 0) := sum_le_sum hterm
      _ = ∑ j ∈ I, x j k + t * ∑ j ∈ I, if own j = some k then 1 else 0 := by rw [sum_add_distrib, mul_sum]
      _ ≤ ∑ j ∈ I, x j k + t * (1 + ∑ j ∈ I, if own j = some k then 1 else 0) := by
        have : t * (1 + ∑ j ∈ I, if own j = some k then (1 : α) else 0) =
            t + t * ∑ j ∈ I, if own j = some k then 1 else 0 := by ring
        linarith

/-- Each taker owns one stock at most. -/
theorem sum_owners_le : ∑ k ∈ K, ∑ i ∈ I, (if own i = some k then (1 : α) else 0) ≤ (#I : α) := by
  rw [sum_comm, card_eq_sum_ones, Nat.cast_sum]
  refine sum_le_sum fun i _ => ?_
  cases hown : own i with
  | none => simp
  | some k =>
    have hterm : ∀ k', (if some k = some k' then (1 : α) else 0) = if k' = k then 1 else 0 := by
      intro k'
      simp only [Option.some.injEq, eq_comm]
    simp only [hterm, sum_ite_eq']
    split_ifs <;> simp

/-- **Greedy serving falls short of no more than any other way**, to `t` for each taker and
    each stock. -/
theorem shortfall_le_of_greedy (ht : 0 ≤ t) (hx : Serves I K need has (Open I own) x)
    (hgreedy : Greedy I K need has own t x) (hy : Serves I K need has (Open I own) y) :
    shortfall I K need x ≤ shortfall I K need y + t * (#I + #K) := by
  by_cases hshort : ∃ i ∈ I, t < need i - ∑ k ∈ K, x i k
  · obtain ⟨i, hi, hshort⟩ := hshort
    have hstocks : ∑ k ∈ K, ∑ j ∈ I, y j k ≤
        ∑ k ∈ K, (∑ j ∈ I, x j k + t * (1 + ∑ j ∈ I, if own j = some k then 1 else 0)) :=
      sum_le_sum fun k hk => stock_le_of_greedy ht hx hgreedy hy hi hshort hk
    rw [sum_add_distrib, ← mul_sum, sum_add_distrib, sum_const, nsmul_eq_mul, mul_one] at hstocks
    have howners : t * ∑ k ∈ K, ∑ i ∈ I, (if own i = some k then (1 : α) else 0) ≤ t * (#I : α) :=
      mul_le_mul_of_nonneg_left sum_owners_le ht
    rw [shortfall_eq, shortfall_eq]
    linarith
  · push Not at hshort
    have hall : shortfall I K need x ≤ ∑ _i ∈ I, t := sum_le_sum hshort
    rw [sum_const, nsmul_eq_mul] at hall
    have hnonneg := hy.shortfall_nonneg
    have hstocks : 0 ≤ t * (#K : α) := mul_nonneg ht (Nat.cast_nonneg _)
    linarith

end

end Serving
