/-
  Tallies: what a list of takes comes to on each key.

  * `total key takes` is the sum of the takes of `key`; it is additive
    (`total_append`), nothing where no take names the key
    (`total_eq_zero`), and at least 0 where no take is less (`total_nonneg`);
  * a list whose elements are numbered comes to each of them on its number
    (`total_zipIdx`);
  * what comes to nothing may be left out of a sum (`sum_filter_of_zero`);
  * positive parts that come to the whole are all of them (`eq_of_sublist_of_sum_le`);
  * amounts looked up for a list of keys come to each as often as its key stands
    (`sum_lookup`), which is their sum when each stands once (`sum_count_eq_iff`).
-/
import Mathlib.Algebra.BigOperators.Group.Finset.Basic
import Mathlib.Algebra.BigOperators.Group.Finset.Piecewise
import Mathlib.Algebra.BigOperators.Group.List.Basic
import Mathlib.Algebra.Group.Torsion
import Mathlib.Algebra.Order.BigOperators.Group.List
import Mathlib.Algebra.Order.Group.Basic
import Mathlib.Algebra.Order.Monoid.Unbundled.Pow
import Mathlib.Tactic.Abel

namespace Tally

variable {κ α : Type*} [DecidableEq κ] [AddCommGroup α]

/-- What the takes of `key` come to. -/
def total (key : κ) (takes : List (κ × α)) : α :=
  (takes.map fun t => if t.1 = key then t.2 else 0).sum

section
variable {key : κ} {t : κ × α} {takes more : List (κ × α)}

@[simp] theorem total_nil : total key ([] : List (κ × α)) = 0 := rfl

@[simp] theorem total_cons :
    total key (t :: takes) = (if t.1 = key then t.2 else 0) + total key takes := by
  simp [total]

@[simp] theorem total_append : total key (takes ++ more) = total key takes + total key more := by
  simp [total]

theorem total_flatMap {β : Type*} (f : β → List (κ × α)) (l : List β) :
    total key (l.flatMap f) = (l.map fun b => total key (f b)).sum := by
  induction l with
  | nil => rfl
  | cons b l ih => rw [List.flatMap_cons, total_append, List.map_cons, List.sum_cons, ih]

theorem total_eq_zero (h : ∀ t ∈ takes, t.1 ≠ key) : total key takes = 0 := by
  induction takes with
  | nil => rfl
  | cons t takes ih =>
    rw [List.forall_mem_cons] at h
    rw [total_cons, if_neg h.1, ih h.2, zero_add]

theorem total_nonneg [PartialOrder α] [IsOrderedAddMonoid α] (h : ∀ t ∈ takes, 0 ≤ t.2) :
    0 ≤ total key takes := by
  refine List.sum_nonneg fun v hv => ?_
  obtain ⟨t, ht, rfl⟩ := List.mem_map.1 hv
  split_ifs
  · exact h t ht
  · exact le_rfl

/-- A list that names each key once comes to its own amount on each of them. -/
theorem total_map_of_nodup {f : κ → α} {l : List κ} (h : l.Nodup) :
    total key (l.map fun k => (k, f k)) = if key ∈ l then f key else 0 := by
  induction l with
  | nil => rfl
  | cons k l ih =>
    rw [List.nodup_cons] at h
    rw [List.map_cons, total_cons, ih h.2]
    by_cases hk : k = key
    · subst hk
      rw [if_pos rfl, if_neg h.1, if_pos List.mem_cons_self, add_zero]
    · simp [hk, Ne.symm hk]

/-- Where each take is of one of the keys, they come to what they come to on these. -/
theorem sum_total_finset {K : Finset κ} (h : ∀ t ∈ takes, t.1 ∈ K) :
    ∑ k ∈ K, total k takes = (takes.map Prod.snd).sum := by
  induction takes with
  | nil => simp
  | cons t takes ih =>
    rw [List.forall_mem_cons] at h
    simp [Finset.sum_add_distrib, ih h.2, h.1]

/-- The takes come to what they come to on each key. -/
theorem sum_total_univ [Fintype κ] (takes : List (κ × α)) : ∑ k, total k takes = (takes.map Prod.snd).sum :=
  sum_total_finset fun t _ => Finset.mem_univ t.1

end

/-! ## Lists by position -/

section
variable {i start : ℕ} {l : List α}

/-- What a list, its elements numbered from a start, comes to on a number. -/
theorem total_zipIdx : total i ((l.zipIdx start).map Prod.swap) =
    if start ≤ i then l.getD (i - start) 0 else 0 := by
  induction l generalizing start with
  | nil => simp
  | cons a l ih =>
    rw [List.zipIdx_cons, List.map_cons, total_cons, ih, Prod.swap_prod_mk]
    rcases lt_trichotomy start i with h | h | h
    · have hsucc : i - start = i - (start + 1) + 1 := by omega
      simp only [h.ne, h.le, Nat.succ_le_of_lt h, ↓reduceIte, hsucc, List.getD_cons_succ, zero_add]
    · subst h
      simp
    · simp only [h.ne', h.not_ge, (Nat.lt_succ_of_lt h).not_ge, ↓reduceIte, zero_add]

theorem total_zipIdx_of_lt (h : i < start) : total i ((l.zipIdx start).map Prod.swap) = 0 := by
  rw [total_zipIdx, if_neg h.not_ge]

theorem sum_take_succ (l : List α) (n : ℕ) : (l.take (n + 1)).sum = (l.take n).sum + l.getD n 0 := by
  induction l generalizing n with
  | nil => simp
  | cons a l ih =>
    cases n with
    | zero => simp
    | succ n => rw [List.take_succ_cons, List.sum_cons, ih, List.take_succ_cons, List.sum_cons,
        List.getD_cons_succ, add_assoc]

/-- **The numbers up to one come to the elements up to it.** -/
theorem sum_total_zipIdx {f n : ℕ} (h : f ≤ start) :
    ((List.range' f n).map fun i => total i ((l.zipIdx start).map Prod.swap)).sum =
      (l.take (f + n - start)).sum := by
  induction n with
  | zero =>
    have hzero : f - start = 0 := by omega
    simp [hzero]
  | succ n ih =>
    rw [List.range'_1_concat, List.map_append, List.sum_append, ih, List.map_singleton, List.sum_singleton,
      total_zipIdx]
    rcases le_or_gt start (f + n) with hle | hlt
    · have hsucc : f + (n + 1) - start = f + n - start + 1 := by omega
      rw [if_pos hle, hsucc, sum_take_succ]
    · have hzero : f + n - start = 0 := by omega
      have hzero' : f + (n + 1) - start = 0 := by omega
      rw [if_neg hlt.not_ge, hzero, hzero', add_zero]

end

/-! ## Lists with a key -/

section
variable {β : Type*} {l : List β}

omit [AddCommGroup α] in
/-- **A list in which the last of each key is kept in the place of the first** is itself where
    its keys differ. -/
theorem foldl_last_of_nodup (k : β → κ) (h : (l.map k).Nodup) :
    l.foldl (fun kept b => if k b ∈ kept.map k then kept.map fun c => if k c = k b then b else c else kept ++ [b]) [] =
      l := by
  have hfold : ∀ kept : List β, ((kept ++ l).map k).Nodup →
      l.foldl (fun kept b =>
        if k b ∈ kept.map k then kept.map fun c => if k c = k b then b else c else kept ++ [b]) kept = kept ++ l := by
    clear h
    induction l with
    | nil => simp
    | cons b l ih =>
      intro kept hnodup
      have hnew : k b ∉ kept.map k := by
        intro hmem
        rw [List.map_append, List.nodup_append] at hnodup
        exact hnodup.2.2 _ hmem _ List.mem_cons_self rfl
      rw [List.foldl_cons, if_neg hnew, ih]
      · rw [List.append_assoc, List.singleton_append]
      · rwa [List.append_assoc, List.singleton_append]
  exact hfold [] h

omit [DecidableEq κ] [AddCommGroup α] in
/-- What is left out of a sum adds nothing to it where it comes to nothing. -/
theorem sum_filter_of_zero {M : Type*} [AddMonoid M] {f : β → M} {p : β → Bool} (h : ∀ b ∈ l, ¬p b → f b = 0) :
    ((l.filter p).map f).sum = (l.map f).sum := by
  induction l with
  | nil => rfl
  | cons b l ih =>
    rw [List.forall_mem_cons] at h
    rw [List.filter_cons, List.map_cons, List.sum_cons]
    split_ifs with hp
    · rw [List.map_cons, List.sum_cons, ih h.2]
    · rw [ih h.2, h.1 hp, zero_add]

end

/-! ## Sums of positive parts -/

section
variable {β : Type*} [PartialOrder α] [IsOrderedAddMonoid α] {f : β → α} {l l' : List β}

theorem sum_le_of_sublist (h : l'.Sublist l) (hpos : ∀ b ∈ l, 0 ≤ f b) : (l'.map f).sum ≤ (l.map f).sum := by
  induction h with
  | slnil => exact le_rfl
  | cons b _ ih =>
    rw [List.forall_mem_cons] at hpos
    rw [List.map_cons, List.sum_cons]
    exact (ih hpos.2).trans (le_add_of_nonneg_left hpos.1)
  | cons_cons b _ ih =>
    rw [List.forall_mem_cons] at hpos
    rw [List.map_cons, List.map_cons, List.sum_cons, List.sum_cons]
    exact add_le_add_right (ih hpos.2) (f b)

/-- **Positive parts that come to the whole are all of them.** -/
theorem eq_of_sublist_of_sum_le (h : l'.Sublist l) (hpos : ∀ b ∈ l, 0 < f b) (hsum : (l.map f).sum ≤ (l'.map f).sum) :
    l' = l := by
  induction h with
  | slnil => rfl
  | @cons l' l b hsub ih =>
    rw [List.forall_mem_cons] at hpos
    rw [List.map_cons, List.sum_cons] at hsum
    have hle : (l'.map f).sum ≤ (l.map f).sum := sum_le_of_sublist hsub fun b hb => (hpos.2 b hb).le
    have hlt : (l.map f).sum < f b + (l.map f).sum := lt_add_of_pos_left _ hpos.1
    exact absurd (hlt.trans_le (hsum.trans hle)) (lt_irrefl _)
  | cons_cons b _ ih =>
    rw [List.forall_mem_cons] at hpos
    rw [List.map_cons, List.map_cons, List.sum_cons, List.sum_cons] at hsum
    rw [ih hpos.2 (le_of_add_le_add_left hsum)]

end

/-! ## Amounts looked up by key -/

section
variable {key : κ} {l : List (κ × α)} {keys : List κ} {v : α}

theorem sum_ite_eq_count (key : κ) (keys : List κ) (v : α) :
    (keys.map fun k => if k = key then v else 0).sum = keys.count key • v := by
  induction keys with
  | nil => simp
  | cons k keys ih =>
    rw [List.map_cons, List.sum_cons, ih, List.count_cons]
    by_cases hk : k = key
    · simp [hk, succ_nsmul']
    · simp [hk]

omit [AddCommGroup α] in
theorem lookup_eq_none_of_not_mem (h : key ∉ l.map Prod.fst) : l.lookup key = none := by
  refine List.lookup_eq_none_iff.2 fun p hp => ?_
  have hne : key ≠ p.1 := fun heq => h (heq ▸ List.mem_map_of_mem hp)
  simpa using hne

/-- **Amounts looked up for keys come to each amount as often as its key stands.** -/
theorem sum_lookup (hl : (l.map Prod.fst).Nodup) :
    (keys.map fun k => (l.lookup k).getD 0).sum = (l.map fun p => keys.count p.1 • p.2).sum := by
  induction l with
  | nil => simp
  | cons p l ih =>
    rw [List.map_cons, List.nodup_cons] at hl
    have hlookup : ∀ k, (List.lookup k (p :: l)).getD 0 =
        (if k = p.1 then p.2 else 0) + (l.lookup k).getD 0 := by
      intro k
      obtain ⟨key, v⟩ := p
      by_cases hk : k = key
      · subst hk
        simp [lookup_eq_none_of_not_mem hl.1]
      · simp [List.lookup_cons, beq_eq_false_iff_ne.2 hk, hk]
    simp only [hlookup, List.sum_map_add, List.map_cons, List.sum_cons]
    rw [sum_ite_eq_count, ih hl.2]

/-- **Amounts found for keys that stand once, each of them found, come to their sum.** -/
theorem sum_find?_of_nodup {β : Type*} (k : β → κ) (f : β → α) {l : List β} (hl : (l.map k).Nodup) (hkeys : keys.Nodup)
    (hmem : ∀ b ∈ l, k b ∈ keys) :
    (keys.map fun key => (l.find? fun b => k b = key).elim 0 f).sum = (l.map f).sum := by
  induction l with
  | nil => simp
  | cons b l ih =>
    rw [List.map_cons, List.nodup_cons] at hl
    rw [List.forall_mem_cons] at hmem
    have hcons : ∀ key, ((b :: l).find? fun b => k b = key).elim 0 f =
        (if key = k b then f b else 0) + (l.find? fun b => k b = key).elim 0 f := by
      intro key
      by_cases hkey : k b = key
      · have hnone : (l.find? fun b => k b = key) = none := by
          refine List.find?_eq_none.2 fun c hc heq => hl.1 ?_
          rw [hkey, ← of_decide_eq_true heq]
          exact List.mem_map_of_mem hc
        rw [List.find?_cons_of_pos (by simpa using hkey), hnone, if_pos hkey.symm]
        simp
      · rw [List.find?_cons_of_neg (by simpa using hkey), if_neg (Ne.symm hkey), zero_add]
    simp only [hcons, List.sum_map_add]
    rw [sum_ite_eq_count, List.count_eq_one_of_mem hkeys hmem.1, one_nsmul, ih hl.2 hmem.2, List.map_cons, List.sum_cons]

variable [LinearOrder α] [IsOrderedAddMonoid α]

theorem sum_eq_zero_iff_of_nonneg {β : Type*} {f : β → α} {l : List β} (h : ∀ b ∈ l, 0 ≤ f b) :
    (l.map f).sum = 0 ↔ ∀ b ∈ l, f b = 0 := by
  constructor
  · intro hsum b hb
    exact List.all_zero_of_le_zero_le_of_sum_eq_zero (List.forall_mem_map.2 h) hsum (List.mem_map_of_mem hb)
  · intro hall
    exact List.sum_eq_zero (List.forall_mem_map.2 hall)

theorem sum_eq_zero_iff_of_sign {β : Type*} {f : β → α} {l : List β}
    (h : (∀ b ∈ l, 0 ≤ f b) ∨ ∀ b ∈ l, f b ≤ 0) : (l.map f).sum = 0 ↔ ∀ b ∈ l, f b = 0 := by
  rcases h with hnn | hnp
  · exact sum_eq_zero_iff_of_nonneg hnn
  · have hneg := sum_eq_zero_iff_of_nonneg (f := fun b => -f b) fun b hb => neg_nonneg.2 (hnp b hb)
    have hsum : (l.map fun b => -f b).sum = -(l.map f).sum := by
      rw [List.sum_neg, List.map_map]
      rfl
    rw [hsum] at hneg
    simpa using hneg

/-- **Amounts on one side of nothing, each looked up at least once, come to their sum exactly
    when those that are not nothing are looked up once.** -/
theorem sum_count_eq_iff (hmem : ∀ p ∈ l, p.1 ∈ keys) (hsign : (∀ p ∈ l, 0 ≤ p.2) ∨ ∀ p ∈ l, p.2 ≤ 0) :
    (l.map fun p => keys.count p.1 • p.2).sum = (l.map Prod.snd).sum ↔
      ∀ p ∈ l, p.2 ≠ 0 → keys.count p.1 = 1 := by
  have hmore : ∀ p ∈ l, keys.count p.1 • p.2 = p.2 + (keys.count p.1 - 1) • p.2 := by
    intro p hp
    have hcount : keys.count p.1 - 1 + 1 = keys.count p.1 :=
      Nat.sub_add_cancel (List.one_le_count_iff.2 (hmem p hp))
    rw [← succ_nsmul', hcount]
  have hzero : ∀ p ∈ l, (keys.count p.1 - 1) • p.2 = 0 ↔ (p.2 ≠ 0 → keys.count p.1 = 1) := by
    intro p hp
    have hcount : 1 ≤ keys.count p.1 := List.one_le_count_iff.2 (hmem p hp)
    constructor
    · intro h hne
      have := (nsmul_eq_zero_iff_left hne).1 h
      omega
    · intro h
      by_cases hne : p.2 = 0
      · rw [hne, nsmul_zero]
      · rw [h hne, Nat.sub_self, zero_nsmul]
  rw [List.map_congr_left hmore, List.sum_map_add, add_eq_left, sum_eq_zero_iff_of_sign]
  · exact forall₂_congr hzero
  · rcases hsign with hnn | hnp
    · exact .inl fun p hp => nsmul_nonneg (hnn p hp) _
    · exact .inr fun p hp => nsmul_nonpos (hnp p hp) _

end

end Tally
