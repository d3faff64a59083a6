/-
  Breadth first: a list that grows by what its members lead to.

  `next` lists what a node leads to, repeats included.

  * `after next root k` lists where `k` steps from the root lead, in order; `FirstTo l m`: of
    the nodes that lead to `m` in the least number of steps, `l` is the first;
  * `crawl` goes through a list of members and appends, for each, what it leads to that is no
    member yet.  It goes layer by layer (`crawl_layers`), a layer being what the one before
    leads to (`mem_known`), in the order of `after` (`find?_layer`);
  * with fuel for each node and each time it is named it ends (`crawl_of_le`), has the nodes
    the root leads to for members (`mem_crawl`), the root first (`head?_crawl`), and repeats
    none just where the first node to lead to one names it once (`nodup_crawl`).
-/
import Mathlib.Algebra.Order.BigOperators.Group.Finset
import Mathlib.Data.List.Nodup
import Mathlib.Logic.Relation

namespace Breadth

open Relation

variable {α : Type*} {next : α → List α} {root : α}

/-- Any number of steps lead from a node to another. -/
def Leads (next : α → List α) : α → α → Prop := ReflTransGen fun a b => b ∈ next a

/-- Where `k` steps from the root lead, in order. -/
def after (next : α → List α) (root : α) : ℕ → List α
  | 0 => [root]
  | k + 1 => (after next root k).flatMap next

theorem leads_of_mem_after {k : ℕ} {m : α} (h : m ∈ after next root k) : Leads next root m := by
  induction k generalizing m with
  | zero =>
    obtain rfl : m = root := by simpa [after] using h
    exact .refl
  | succ k ih =>
    obtain ⟨a, ha, hm⟩ := List.mem_flatMap.1 h
    exact (ih ha).tail hm

/-- A search stops where the member it finds is found. -/
theorem findSome?_eq_bind {β : Type*} (f : α → Option β) (as : List α) :
    as.findSome? f = (as.find? fun a => (f a).isSome).bind f := by
  induction as with
  | nil => rfl
  | cons a as ih =>
    cases h : f a with
    | none => simp [h, ih]
    | some b => simp [h]

variable [DecidableEq α]

/-- Of the nodes that lead to `m` in the least number of steps from the root, the first. -/
def FirstTo (next : α → List α) (root l m : α) : Prop :=
  ∃ k, (∀ j ≤ k, m ∉ after next root j) ∧ (after next root k).find? (fun a => m ∈ next a) = some l

/-! ## Layers -/

/-- What the nodes of a layer lead to that is not known yet, in turn. -/
def more (next : α → List α) : List α → List α → List α
  | _, [] => []
  | known, a :: layer =>
    let found := (next a).filter (· ∉ known)
    found ++ more next (known ++ found) layer

section
variable {known layer : List α} {m : α}

theorem mem_more : m ∈ more next known layer ↔ m ∉ known ∧ ∃ a ∈ layer, m ∈ next a := by
  induction layer generalizing known with
  | nil => simp [more]
  | cons a layer ih =>
    rw [more, List.mem_append, ih]
    simp only [List.mem_filter, List.mem_append, List.mem_cons, decide_eq_true_eq]
    by_cases hm : m ∈ next a <;> by_cases hk : m ∈ known <;> simp [hm, hk]

/-- What is first of its kind among what a layer leads to is first among what it adds, where
    nothing known is of that kind. -/
theorem find?_more {p : α → Bool} (hp : ∀ x ∈ known, p x = false) :
    (more next known layer).find? p = (layer.flatMap next).find? p := by
  induction layer generalizing known with
  | nil => rfl
  | cons a layer ih =>
    have hfound : ((next a).filter (· ∉ known)).find? p = (next a).find? p := by
      rw [List.find?_filter]
      refine congrArg (List.find? · (next a)) (funext fun x => ?_)
      by_cases hx : x ∈ known
      · simp [hx, hp x hx]
      · simp [hx]
    rw [more, List.flatMap_cons, List.find?_append, List.find?_append, hfound]
    cases hnext : (next a).find? p with
    | some x => rfl
    | none =>
      refine ih fun x hx => ?_
      rcases List.mem_append.1 hx with hx | hx
      · exact hp x hx
      · simpa using List.find?_eq_none.1 hnext x (List.mem_of_mem_filter hx)

/-- What a layer adds is named as often as by the first node that leads to it. -/
theorem count_more (hm : m ∉ known) :
    (more next known layer).count m = (layer.find? fun a => m ∈ next a).elim 0 fun a => (next a).count m := by
  induction layer generalizing known with
  | nil => rfl
  | cons a layer ih =>
    rw [more, List.count_append, List.count_filter (by simpa using hm)]
    by_cases ha : m ∈ next a
    · have hknown : m ∈ known ++ (next a).filter (· ∉ known) :=
        List.mem_append_right known (List.mem_filter.2 ⟨ha, by simpa using hm⟩)
      have hrest : (more next (known ++ (next a).filter (· ∉ known)) layer).count m = 0 :=
        List.count_eq_zero.2 fun hmem => (mem_more.1 hmem).1 hknown
      rw [hrest, List.find?_cons_of_pos (by simpa using ha), Option.elim_some, Nat.add_zero]
    · rw [List.count_eq_zero.2 ha, Nat.zero_add, List.find?_cons_of_neg (by simpa using ha)]
      refine ih fun hmem => ?_
      rcases List.mem_append.1 hmem with hmem | hmem
      · exact hm hmem
      · exact ha (List.mem_of_mem_filter hmem)

end

/-- What is passed after `k` layers, and the next layer. -/
def layers (next : α → List α) (root : α) : ℕ → List α × List α
  | 0 => ([], [root])
  | k + 1 =>
    let passed := (layers next root k).1 ++ (layers next root k).2
    (passed, more next passed (layers next root k).2)

/-- What is known with the layer `k`: the layer and what is passed before it. -/
def known (next : α → List α) (root : α) (k : ℕ) : List α :=
  (layers next root k).1 ++ (layers next root k).2

theorem layers_succ (k : ℕ) : layers next root (k + 1) =
    (known next root k, more next (known next root k) (layers next root k).2) := rfl

theorem known_succ (k : ℕ) : known next root (k + 1) =
    known next root k ++ more next (known next root k) (layers next root k).2 := rfl

/-- What is passed leads to what is known. -/
theorem mem_known_of_passed {k : ℕ} {a m : α} (ha : a ∈ (layers next root k).1) (hm : m ∈ next a) :
    m ∈ known next root k := by
  induction k with
  | zero => exact absurd ha List.not_mem_nil
  | succ k ih =>
    rw [known_succ, List.mem_append, mem_more]
    rcases List.mem_append.1 (show a ∈ known next root k from ha) with ha | ha
    · exact .inl (ih ha)
    · exact (em (m ∈ known next root k)).imp_right fun hk => ⟨hk, a, ha, hm⟩

/-- **Known with a layer is what that many steps lead to at the most.** -/
theorem mem_known {k : ℕ} {m : α} : m ∈ known next root k ↔ ∃ j ≤ k, m ∈ after next root j := by
  induction k generalizing m with
  | zero => simp [known, layers, after]
  | succ k ih =>
    rw [known_succ, List.mem_append, mem_more]
    constructor
    · rintro (hm | ⟨-, a, ha, hm⟩)
      · obtain ⟨j, hj, hm⟩ := ih.1 hm
        exact ⟨j, by omega, hm⟩
      · obtain ⟨j, hj, ha⟩ := ih.1 (List.mem_append_right _ ha)
        exact ⟨j + 1, by omega, List.mem_flatMap.2 ⟨a, ha, hm⟩⟩
    · rintro ⟨j, hj, hm⟩
      by_cases hk : m ∈ known next root k
      · exact .inl hk
      obtain rfl : j = k + 1 := by
        by_contra hne
        exact hk (ih.2 ⟨j, by omega, hm⟩)
      obtain ⟨a, ha, hm⟩ := List.mem_flatMap.1 hm
      rcases List.mem_append.1 (show a ∈ known next root k from ih.2 ⟨k, le_rfl, ha⟩) with ha | ha
      · exact absurd (mem_known_of_passed ha hm) hk
      · exact .inr ⟨hk, a, ha, hm⟩

theorem not_mem_known {k : ℕ} {m : α} : m ∉ known next root k ↔ ∀ j ≤ k, m ∉ after next root j := by
  simp [mem_known]

/-- **A layer is in the order its nodes are led to.** -/
theorem find?_layer {k : ℕ} {p : α → Bool} (hp : ∀ x ∈ (layers next root k).1, p x = false) :
    (layers next root k).2.find? p = (after next root k).find? p := by
  induction k generalizing p with
  | zero => rfl
  | succ k ih =>
    have hpassed : ∀ x ∈ (layers next root k).1, ((next x).find? p).isSome = false := by
      intro x hx
      rw [Option.isSome_eq_false_iff, Option.isNone_iff_eq_none, List.find?_eq_none]
      intro m hm
      simpa using hp m (mem_known_of_passed hx hm)
    have hknown : ∀ x ∈ known next root k, p x = false := hp
    rw [layers_succ, find?_more hknown, after, List.find?_flatMap, List.find?_flatMap,
      findSome?_eq_bind, findSome?_eq_bind, ih hpassed]

/-- A layer names what is new as often as the first node that leads to it. -/
theorem count_layer {k : ℕ} {m : α} (hm : m ∉ known next root k) :
    (layers next root (k + 1)).2.count m =
      ((after next root k).find? fun a => m ∈ next a).elim 0 fun a => (next a).count m := by
  rw [layers_succ, count_more hm, find?_layer]
  intro x hx
  simpa using fun hmem => hm (mem_known_of_passed hx hmem)

/-- **What is known repeats nothing just where the first node to lead to a node names it once.** -/
theorem nodup_known {k : ℕ} : (known next root k).Nodup ↔ ∀ j < k, ∀ m l, m ∉ known next root j →
    (after next root j).find? (fun a => m ∈ next a) = some l → (next l).count m ≤ 1 := by
  induction k with
  | zero => simp [known, layers]
  | succ k ih =>
    have hdisjoint : (known next root k).Disjoint (layers next root (k + 1)).2 :=
      fun m hm hmore => (mem_more.1 hmore).1 hm
    have hlayer : (layers next root (k + 1)).2.Nodup ↔ ∀ m l, m ∉ known next root k →
        (after next root k).find? (fun a => m ∈ next a) = some l → (next l).count m ≤ 1 := by
      rw [List.nodup_iff_count_le_one]
      constructor
      · intro h m l hm hl
        have hcount := h m
        rwa [count_layer hm, hl] at hcount
      · intro h m
        by_cases hm : m ∈ known next root k
        · rw [List.count_eq_zero.2 fun hmore => hdisjoint hm hmore]
          exact Nat.zero_le 1
        · rw [count_layer hm]
          cases hl : (after next root k).find? fun a => m ∈ next a with
          | none => exact Nat.zero_le 1
          | some l => exact h m l hm hl
    have hnodup : (known next root (k + 1)).Nodup ↔
        (known next root k).Nodup ∧ (layers next root (k + 1)).2.Nodup := by
      rw [known_succ, List.nodup_append']
      exact ⟨fun h => ⟨h.1, h.2.1⟩, fun h => ⟨h.1, h.2, hdisjoint⟩⟩
    rw [hnodup, ih, hlayer]
    constructor
    · rintro ⟨hbefore, hlast⟩ j hj
      rcases Nat.lt_succ_iff_lt_or_eq.1 hj with hj | rfl
      · exact hbefore j hj
      · exact hlast
    · exact fun h => ⟨fun j hj => h j (by omega), h k (by omega)⟩

/-! ## The crawl -/

/-- Go through a list of members, appending for each what it leads to that is no member yet:
    the members gone through, and those still to go through. -/
def crawl (next : α → List α) : ℕ → List α → List α → List α
  | 0, done, todo => done ++ todo
  | _ + 1, done, [] => done
  | n + 1, done, a :: todo => crawl next n (done ++ [a]) (todo ++ (next a).filter (· ∉ done ++ a :: todo))

theorem crawl_nil (n : ℕ) (done : List α) : crawl next n done [] = done := by
  cases n <;> simp [crawl]

/-- A layer is gone through and what it leads to appended. -/
theorem crawl_layer (n : ℕ) : ∀ layer done todo : List α, crawl next (n + layer.length) done (layer ++ todo) =
    crawl next n (done ++ layer) (todo ++ more next (done ++ layer ++ todo) layer)
  | [], done, todo => by simp [more]
  | a :: layer, done, todo => by
    rw [List.length_cons, ← Nat.add_assoc, List.cons_append, crawl, List.append_assoc,
      crawl_layer n layer, more]
    simp [List.append_assoc]

theorem crawl_layers (n k : ℕ) : crawl next (n + (layers next root k).1.length) [] [root] =
    crawl next n (layers next root k).1 (layers next root k).2 := by
  induction k generalizing n with
  | zero => rfl
  | succ k ih =>
    have hlength : n + (layers next root (k + 1)).1.length =
        n + (layers next root k).2.length + (layers next root k).1.length := by
      rw [layers_succ, known, List.length_append]
      omega
    have hlayer := @crawl_layer _ next _ n (layers next root k).2 (layers next root k).1 []
    rw [List.append_nil, List.append_nil, List.nil_append] at hlayer
    rw [hlength, ih, hlayer]
    rfl

section
variable {nodes : List α} {c : ℕ}

theorem known_subset (hroot : root ∈ nodes) (hnodes : ∀ a ∈ nodes, next a ⊆ nodes) (k : ℕ) :
    known next root k ⊆ nodes := by
  have hafter : ∀ j, after next root j ⊆ nodes := by
    intro j
    induction j with
    | zero => simpa [after] using hroot
    | succ j ih =>
      intro m hm
      obtain ⟨a, ha, hm⟩ := List.mem_flatMap.1 hm
      exact hnodes a (ih ha) hm
  intro m hm
  obtain ⟨j, -, hm⟩ := mem_known.1 hm
  exact hafter j hm

theorem count_known_le (hc : 1 ≤ c) (hcount : ∀ a m, (next a).count m ≤ c) (k : ℕ) (m : α) :
    (known next root k).count m ≤ c := by
  induction k with
  | zero => exact (List.count_le_length).trans hc
  | succ k ih =>
    rw [known_succ, List.count_append]
    by_cases hm : m ∈ known next root k
    · rw [List.count_eq_zero.2 fun hmore => (mem_more.1 hmore).1 hm]
      exact ih
    · rw [List.count_eq_zero.2 hm, Nat.zero_add, count_more hm]
      cases (layers next root k).2.find? fun a => m ∈ next a with
      | none => exact Nat.zero_le c
      | some a => exact hcount a m

/-- No more is known than the nodes, each as often as it can be named. -/
theorem length_known_le (hroot : root ∈ nodes) (hnodes : ∀ a ∈ nodes, next a ⊆ nodes) (hc : 1 ≤ c)
    (hcount : ∀ a m, (next a).count m ≤ c) (k : ℕ) : (known next root k).length ≤ c * nodes.length := by
  have hsub : (known next root k).toFinset ⊆ nodes.toFinset :=
    fun m hm => List.mem_toFinset.2 (known_subset hroot hnodes k (List.mem_toFinset.1 hm))
  calc (known next root k).length
      = ∑ m ∈ (known next root k).toFinset, (known next root k).count m :=
        (List.sum_toFinset_count_eq_length _).symm
    _ ≤ (known next root k).toFinset.card * c :=
        Finset.sum_le_card_nsmul _ _ _ fun m _ => count_known_le hc hcount k m
    _ ≤ nodes.length * c :=
        Nat.mul_le_mul_right c ((Finset.card_le_card hsub).trans (List.toFinset_card_le nodes))
    _ = c * nodes.length := Nat.mul_comm _ _

/-- A layer comes that is empty: each before it adds to what is known. -/
theorem exists_layer_nil (hroot : root ∈ nodes) (hnodes : ∀ a ∈ nodes, next a ⊆ nodes) (hc : 1 ≤ c)
    (hcount : ∀ a m, (next a).count m ≤ c) : ∃ k, (layers next root k).2 = [] := by
  by_contra hne
  push Not at hne
  have hlong : ∀ k, k < (known next root k).length := by
    intro k
    induction k with
    | zero => simp [known, layers]
    | succ k ih =>
      have hlayer := List.length_pos_of_ne_nil (hne (k + 1))
      have hlength : (known next root (k + 1)).length =
          (known next root k).length + (layers next root (k + 1)).2.length := List.length_append
      omega
  have hshort := length_known_le hroot hnodes hc hcount (c * nodes.length)
  have := hlong (c * nodes.length)
  omega

/-- With fuel for each node and each time it can be named, the crawl goes through what is
    known when a layer is empty. -/
theorem crawl_of_le (hroot : root ∈ nodes) (hnodes : ∀ a ∈ nodes, next a ⊆ nodes) (hc : 1 ≤ c)
    (hcount : ∀ a m, (next a).count m ≤ c) :
    ∃ k, (layers next root k).2 = [] ∧
      ∀ n, c * nodes.length ≤ n → crawl next n [] [root] = known next root k := by
  obtain ⟨k, hk⟩ := exists_layer_nil hroot hnodes hc hcount
  have hknown : known next root k = (layers next root k).1 := by rw [known, hk, List.append_nil]
  refine ⟨k, hk, fun n hn => ?_⟩
  have hlength : (layers next root k).1.length ≤ n :=
    hknown ▸ (length_known_le hroot hnodes hc hcount k).trans hn
  rw [← Nat.sub_add_cancel hlength, crawl_layers, hk, crawl_nil, hknown]

/-- What a node leads to is known with it, once a layer is empty. -/
theorem mem_known_of_leads {k : ℕ} {m : α} (hk : (layers next root k).2 = []) (h : Leads next root m) :
    m ∈ known next root k := by
  induction h with
  | refl => exact mem_known.2 ⟨0, Nat.zero_le k, by simp [after]⟩
  | tail _ hstep ih =>
    rw [known, hk, List.append_nil] at ih
    exact mem_known_of_passed ih hstep

theorem head?_known (k : ℕ) : (known next root k).head? = some root := by
  induction k with
  | zero => rfl
  | succ k ih => rw [known_succ, List.head?_append, ih, Option.some_or]

section
variable (hroot : root ∈ nodes) (hnodes : ∀ a ∈ nodes, next a ⊆ nodes) (hc : 1 ≤ c)
  (hcount : ∀ a m, (next a).count m ≤ c) {n : ℕ} (hn : c * nodes.length ≤ n)
include hroot hnodes hc hcount hn

/-- More fuel changes nothing. -/
theorem crawl_add (extra : ℕ) : crawl next (n + extra) [] [root] = crawl next n [] [root] := by
  obtain ⟨k, -, hcrawl⟩ := crawl_of_le hroot hnodes hc hcount
  rw [hcrawl n hn, hcrawl (n + extra) (by omega)]

theorem head?_crawl : (crawl next n [] [root]).head? = some root := by
  obtain ⟨k, -, hcrawl⟩ := crawl_of_le hroot hnodes hc hcount
  rw [hcrawl n hn, head?_known]

/-- **The members are what the root leads to.** -/
theorem mem_crawl {m : α} : m ∈ crawl next n [] [root] ↔ Leads next root m := by
  obtain ⟨k, hk, hcrawl⟩ := crawl_of_le hroot hnodes hc hcount
  rw [hcrawl n hn]
  refine ⟨fun hm => ?_, mem_known_of_leads hk⟩
  obtain ⟨j, -, hm⟩ := mem_known.1 hm
  exact leads_of_mem_after hm

/-- **No member is repeated just where the first node to lead to one names it once.** -/
theorem nodup_crawl : (crawl next n [] [root]).Nodup ↔ ∀ l m, FirstTo next root l m → (next l).count m ≤ 1 := by
  obtain ⟨k, hk, hcrawl⟩ := crawl_of_le hroot hnodes hc hcount
  rw [hcrawl n hn, nodup_known]
  constructor
  · rintro h l m ⟨j, hnew, hl⟩
    refine h j ?_ m l (not_mem_known.2 hnew) hl
    -- past the empty layer nothing new is led to
    by_contra hj
    have hlast : Leads next root l := leads_of_mem_after (List.mem_of_find?_eq_some hl)
    have hm : m ∈ next l := by simpa using List.find?_some hl
    obtain ⟨i, hi, hmem⟩ := mem_known.1 (mem_known_of_leads hk (hlast.tail hm))
    exact hnew i (by omega) hmem
  · exact fun h j _ m l hnew hl => h l m ⟨j, not_mem_known.1 hnew, hl⟩

end

end

end Breadth
