/-
  Dictionaries of amounts: a list of keys with an amount each, added to key by key.

  * `add key v d` adds to the amount of a key, putting the key last where it is new;
    `get` reads an amount, 0 where there is none;
  * `totalOf p d` is what the keys that meet `p` come to; `add` adds to it what it
    adds to such a key (`totalOf_add`);
  * where no amount of such a key is less than 0 and they come to no more, each is 0
    (`get_eq_zero_of_totalOf`).
-/
import Mathlib.Algebra.BigOperators.Group.List.Basic
import Mathlib.Algebra.Order.BigOperators.Group.List
import Mathlib.Tactic.Abel

namespace Amounts

variable {κ α : Type*} [DecidableEq κ] [AddCommGroup α]

/-- Add to the amount of a key. -/
def add (key : κ) (v : α) : List (κ × α) → List (κ × α)
  | [] => [(key, v)]
  | (k, w) :: rest => if k = key then (k, w + v) :: rest else (k, w) :: add key v rest

/-- The amount of a key. -/
def get (key : κ) : List (κ × α) → α
  | [] => 0
  | (k, w) :: rest => if k = key then w else get key rest

/-- What the keys that meet `p` come to. -/
def totalOf (p : κ → Prop) [DecidablePred p] (d : List (κ × α)) : α :=
  (d.map fun e => if p e.1 then e.2 else 0).sum

/-- The amounts of a list of keyed values. -/
def ofList (l : List (κ × α)) : List (κ × α) := l.foldl (fun d e => add e.1 e.2 d) []

section
variable {p : κ → Prop} [DecidablePred p] {key k : κ} {v : α} {e : κ × α} {d l : List (κ × α)}

@[simp] theorem get_nil : get key ([] : List (κ × α)) = 0 := rfl

omit [DecidableEq κ] in
@[simp] theorem totalOf_nil : totalOf p ([] : List (κ × α)) = 0 := rfl

omit [DecidableEq κ] in
@[simp] theorem totalOf_cons : totalOf p (e :: d) = (if p e.1 then e.2 else 0) + totalOf p d := by
  simp [totalOf]

theorem get_add : get k (add key v d) = get k d + if key = k then v else 0 := by
  induction d with
  | nil => simp [add, get]
  | cons e d ih =>
    obtain ⟨j, w⟩ := e
    unfold add
    by_cases hj : j = key
    · subst hj
      by_cases hk : j = k <;> simp [get, hk]
    · rw [if_neg hj]
      by_cases hk : j = k
      · subst hk
        simp [get, Ne.symm hj]
      · simp [get, hk, ih]

theorem totalOf_add : totalOf p (add key v d) = totalOf p d + if p key then v else 0 := by
  induction d with
  | nil => simp [add]
  | cons e d ih =>
    obtain ⟨j, w⟩ := e
    unfold add
    by_cases hj : j = key
    · subst hj
      simp only [↓reduceIte, totalOf_cons]
      split_ifs <;> abel
    · rw [if_neg hj, totalOf_cons, totalOf_cons, ih, add_assoc]

theorem mem_keys_add : k ∈ (add key v d).map Prod.fst ↔ k = key ∨ k ∈ d.map Prod.fst := by
  induction d with
  | nil => simp [add]
  | cons e d ih =>
    obtain ⟨j, w⟩ := e
    unfold add
    by_cases hj : j = key
    · subst hj
      simp
    · rw [if_neg hj, List.map_cons, List.mem_cons, ih, List.map_cons, List.mem_cons]
      tauto

theorem nodup_add (h : (d.map Prod.fst).Nodup) : ((add key v d).map Prod.fst).Nodup := by
  induction d with
  | nil => simp [add]
  | cons e d ih =>
    obtain ⟨j, w⟩ := e
    rw [List.map_cons, List.nodup_cons] at h
    unfold add
    by_cases hj : j = key
    · rw [if_pos hj, List.map_cons, List.nodup_cons]
      exact h
    · rw [if_neg hj, List.map_cons, List.nodup_cons, mem_keys_add]
      refine ⟨?_, ih h.2⟩
      rintro (rfl | hmem)
      · exact hj rfl
      · exact h.1 hmem

theorem get_eq_of_mem (h : (d.map Prod.fst).Nodup) (he : e ∈ d) : get e.1 d = e.2 := by
  induction d with
  | nil => cases he
  | cons f d ih =>
    obtain ⟨j, w⟩ := f
    rw [List.map_cons, List.nodup_cons] at h
    rcases List.mem_cons.1 he with rfl | hmem
    · exact if_pos rfl
    · have hne : j ≠ e.1 := by
        rintro rfl
        exact h.1 (List.mem_map.2 ⟨e, hmem, rfl⟩)
      rw [get, if_neg hne, ih h.2 hmem]

theorem get_eq_zero_of_not_mem (h : key ∉ d.map Prod.fst) : get key d = 0 := by
  induction d with
  | nil => rfl
  | cons e d ih =>
    obtain ⟨j, w⟩ := e
    rw [List.map_cons, List.mem_cons, not_or] at h
    rw [get, if_neg (Ne.symm h.1), ih h.2]

/-- An amount is what the keys equal to its own come to. -/
theorem totalOf_eq_get (h : (d.map Prod.fst).Nodup) : totalOf (· = key) d = get key d := by
  induction d with
  | nil => rfl
  | cons e d ih =>
    obtain ⟨j, w⟩ := e
    rw [List.map_cons, List.nodup_cons] at h
    rw [totalOf_cons, ih h.2, get]
    split_ifs with hj
    · subst hj
      rw [get_eq_zero_of_not_mem h.1, add_zero]
    · rw [zero_add]

theorem get_eq_zero_of_totalOf [LinearOrder α] [IsOrderedAddMonoid α] (h : (d.map Prod.fst).Nodup)
    (hnonneg : ∀ k, p k → 0 ≤ get k d) (htotal : totalOf p d ≤ 0) (hk : p k) : get k d = 0 := by
  by_cases hmem : k ∈ d.map Prod.fst
  · obtain ⟨e, he, rfl⟩ := List.mem_map.1 hmem
    have hterm : ∀ t ∈ d.map fun e => if p e.1 then e.2 else 0, 0 ≤ t := by
      intro t ht
      obtain ⟨f, hf, rfl⟩ := List.mem_map.1 ht
      split_ifs with hp
      · exact get_eq_of_mem h hf ▸ hnonneg f.1 hp
      · exact le_rfl
    have hle : e.2 ≤ totalOf p d := by
      have hsingle := List.single_le_sum hterm _ (List.mem_map_of_mem he)
      rwa [if_pos hk] at hsingle
    rw [get_eq_of_mem h he]
    exact le_antisymm (hle.trans htotal) (get_eq_of_mem h he ▸ hnonneg e.1 hk)
  · exact get_eq_zero_of_not_mem hmem

theorem forall_add {P : κ × α → Prop} (hd : ∀ e ∈ d, P e) (hv : ∀ w, P (key, w) → P (key, w + v))
    (hnew : P (key, v)) : ∀ e ∈ add key v d, P e := by
  induction d with
  | nil => simpa [add] using hnew
  | cons e d ih =>
    obtain ⟨j, w⟩ := e
    rw [List.forall_mem_cons] at hd
    unfold add
    split_ifs with hj
    · subst hj
      exact List.forall_mem_cons.2 ⟨hv w hd.1, hd.2⟩
    · exact List.forall_mem_cons.2 ⟨hd.1, ih hd.2⟩

theorem forall_get {P : α → Prop} (hd : ∀ e ∈ d, P e.2) (hzero : P 0) : P (get key d) := by
  induction d with
  | nil => exact hzero
  | cons e d ih =>
    obtain ⟨j, w⟩ := e
    rw [List.forall_mem_cons] at hd
    unfold get
    split_ifs
    · exact hd.1
    · exact ih hd.2

/-! ## Mapping the amounts -/

section
variable (f : α →+ α)

theorem get_map : get k (d.map fun e => (e.1, f e.2)) = f (get k d) := by
  induction d with
  | nil => exact (map_zero f).symm
  | cons e d ih =>
    obtain ⟨j, w⟩ := e
    rw [List.map_cons, get, get, ih]
    split_ifs <;> rfl

omit [DecidableEq κ] in
theorem totalOf_map : totalOf p (d.map fun e => (e.1, f e.2)) = f (totalOf p d) := by
  induction d with
  | nil => exact (map_zero f).symm
  | cons e d ih =>
    rw [List.map_cons, totalOf_cons, totalOf_cons, ih, map_add]
    split_ifs <;> simp

theorem add_map :
    add key (f v) (d.map fun e => (e.1, f e.2)) = (add key v d).map fun e => (e.1, f e.2) := by
  induction d with
  | nil => rfl
  | cons e d ih =>
    obtain ⟨j, w⟩ := e
    rw [List.map_cons, add, add]
    split_ifs
    · rw [List.map_cons, map_add]
    · rw [List.map_cons, ih]

/-- Amounts mapped, and then added up by key, are those added up, mapped. -/
theorem ofList_map : ofList (l.map fun e => (e.1, f e.2)) = (ofList l).map fun e => (e.1, f e.2) := by
  have hfold : ∀ d : List (κ × α), (l.map fun e => (e.1, f e.2)).foldl (fun d e => add e.1 e.2 d)
      (d.map fun e => (e.1, f e.2)) = (l.foldl (fun d e => add e.1 e.2 d) d).map fun e => (e.1, f e.2) := by
    induction l with
    | nil => exact fun d => rfl
    | cons e l ih =>
      intro d
      rw [List.map_cons, List.foldl_cons, List.foldl_cons, add_map, ih]
  exact hfold []

omit [DecidableEq κ] in
theorem keys_map : (d.map fun e => (e.1, f e.2)).map Prod.fst = d.map Prod.fst := by
  rw [List.map_map]
  rfl

end

omit [DecidableEq κ] in
theorem totalOf_filter_ne_zero [DecidableEq α] : totalOf p (d.filter (·.2 ≠ 0)) = totalOf p d := by
  induction d with
  | nil => rfl
  | cons e d ih =>
    rw [List.filter_cons]
    split_ifs with he
    · rw [totalOf_cons, totalOf_cons, ih]
    · have hzero : e.2 = 0 := by simpa using he
      rw [ih, totalOf_cons, hzero, ite_self, zero_add]

/-! ## The amounts of a list -/

theorem foldl_add_get : get k (l.foldl (fun d e => add e.1 e.2 d) d) = get k d + totalOf (· = k) l := by
  induction l generalizing d with
  | nil => simp
  | cons e l ih => rw [List.foldl_cons, ih, get_add, totalOf_cons, add_assoc]

theorem get_ofList : get k (ofList l) = totalOf (· = k) l := by
  rw [ofList, foldl_add_get, get_nil, zero_add]

theorem foldl_add_totalOf : totalOf p (l.foldl (fun d e => add e.1 e.2 d) d) = totalOf p d + totalOf p l := by
  induction l generalizing d with
  | nil => simp
  | cons e l ih => rw [List.foldl_cons, ih, totalOf_add, totalOf_cons, add_assoc]

@[simp] theorem totalOf_ofList : totalOf p (ofList l) = totalOf p l := by
  rw [ofList, foldl_add_totalOf, totalOf_nil, zero_add]

theorem foldl_add_keys : k ∈ (l.foldl (fun d e => add e.1 e.2 d) d).map Prod.fst ↔
    k ∈ d.map Prod.fst ∨ k ∈ l.map Prod.fst := by
  induction l generalizing d with
  | nil => simp
  | cons e l ih =>
    rw [List.foldl_cons, ih, mem_keys_add, List.map_cons, List.mem_cons]
    tauto

theorem mem_keys_ofList : k ∈ (ofList l).map Prod.fst ↔ k ∈ l.map Prod.fst := by
  rw [ofList, foldl_add_keys]
  simp

theorem foldl_add_nodup (h : (d.map Prod.fst).Nodup) :
    ((l.foldl (fun d e => add e.1 e.2 d) d).map Prod.fst).Nodup := by
  induction l generalizing d with
  | nil => exact h
  | cons e l ih => exact ih (nodup_add h)

theorem nodup_ofList : ((ofList l).map Prod.fst).Nodup := foldl_add_nodup List.nodup_nil

theorem add_of_not_mem (h : key ∉ d.map Prod.fst) : add key v d = d ++ [(key, v)] := by
  induction d with
  | nil => rfl
  | cons e d ih =>
    obtain ⟨j, w⟩ := e
    rw [List.map_cons, List.mem_cons, not_or] at h
    rw [add, if_neg (Ne.symm h.1), ih h.2, List.cons_append]

/-- Keyed values of different keys are their amounts. -/
theorem ofList_of_nodup (h : (l.map Prod.fst).Nodup) : ofList l = l := by
  have hfold : ∀ d : List (κ × α), ((d ++ l).map Prod.fst).Nodup →
      l.foldl (fun d e => add e.1 e.2 d) d = d ++ l := by
    clear h
    induction l with
    | nil => simp
    | cons e l ih =>
      intro d hd
      have hnew : e.1 ∉ d.map Prod.fst := by
        intro hmem
        rw [List.map_append, List.nodup_append] at hd
        exact hd.2.2 _ hmem _ List.mem_cons_self rfl
      rw [List.foldl_cons, add_of_not_mem hnew, ih]
      · rw [List.append_assoc, List.singleton_append]
      · rwa [List.append_assoc, List.singleton_append]
  exact hfold [] h

end

end Amounts
