/-
  Dictionaries: lists of keys with their values, in the order the keys came in.

  `set` replaces a key's value in its place or appends the key, `pop` takes a key out, and
  `update` sets the keys of another dictionary.

  Looking a key up after these: `get?_set`, `get?_pop`, `get?_filter_key`, `get?_update`,
  `get?_setDefault`.

  `KeysIn P d`: the keys of `d` are all of a kind; setting a key of the kind and taking keys
  out keep it (`keysIn_set`, `KeysIn.pop`).
-/
import Mathlib.Data.List.Basic
import Mathlib.Tactic.Tauto

namespace Dicts

variable {κ α : Type*}

def keys (d : List (κ × α)) : List κ := d.map Prod.fst

/-- The keys are all of a kind. -/
def KeysIn (P : κ → Prop) (d : List (κ × α)) : Prop := ∀ k ∈ keys d, P k

theorem KeysIn.nil {P : κ → Prop} : KeysIn P ([] : List (κ × α)) := fun _ hk => absurd hk List.not_mem_nil

variable [DecidableEq κ]

/-- The value of a key. -/
def get? (d : List (κ × α)) (k : κ) : Option α := d.lookup k

/-- Give a key a value: in its place, or at the end. -/
def set : List (κ × α) → κ → α → List (κ × α)
  | [], k, v => [(k, v)]
  | f :: d, k, v => if f.1 = k then (k, v) :: d else f :: set d k v

/-- Take a key out. -/
def pop (d : List (κ × α)) (k : κ) : List (κ × α) := d.filter (·.1 ≠ k)

/-- Set the keys of another dictionary. -/
def update (d e : List (κ × α)) : List (κ × α) := e.foldl (fun d f => set d f.1 f.2) d

/-- Give a key a value where it has none. -/
def setDefault (d : List (κ × α)) (k : κ) (v : α) : List (κ × α) := if (get? d k).isSome then d else set d k v

section
variable {d e : List (κ × α)} {k k' : κ} {v : α}

@[simp] theorem mem_keys_set : k' ∈ keys (set d k v) ↔ k' = k ∨ k' ∈ keys d := by
  induction d with
  | nil => simp [set, keys]
  | cons f d ih =>
    rw [set]
    split_ifs with hf
    · subst hf
      simp [keys]
    · simp only [keys, List.map_cons, List.mem_cons] at ih ⊢
      rw [ih, or_left_comm]

@[simp] theorem mem_keys_pop : k' ∈ keys (pop d k) ↔ k' ≠ k ∧ k' ∈ keys d := by
  simp [keys, pop, and_comm]

theorem mem_keys_popAll {ks : List κ} : k' ∈ keys (ks.foldl pop d) ↔ k' ∉ ks ∧ k' ∈ keys d := by
  induction ks generalizing d with
  | nil => simp
  | cons k ks ih =>
    rw [List.foldl_cons, ih, mem_keys_pop, List.mem_cons, not_or]
    tauto

end

/-! ## Looking up -/

section
variable {d : List (κ × α)} {k k' : κ} {v : α}

@[simp] theorem get?_nil : get? ([] : List (κ × α)) k = none := rfl

theorem get?_cons {f : κ × α} : get? (f :: d) k = if k = f.1 then some f.2 else get? d k := by
  obtain ⟨k', v⟩ := f
  rw [get?, List.lookup_cons]
  by_cases hk : k = k'
  · rw [if_pos hk, beq_iff_eq.2 hk]
  · rw [if_neg hk, beq_eq_false_iff_ne.2 hk]
    rfl

theorem get?_set : get? (set d k v) k' = if k' = k then some v else get? d k' := by
  induction d with
  | nil => simp [set, get?_cons]
  | cons f d ih =>
    rw [set]
    split_ifs with hf hk hk
    · rw [get?_cons, if_pos hk]
    · rw [get?_cons, get?_cons, if_neg hk, if_neg (hf ▸ hk)]
    · rw [get?_cons, ih, if_pos hk, if_neg fun h => hf (h.symm.trans hk)]
    · rw [get?_cons, get?_cons, ih, if_neg hk]

theorem keys_set_of_notMem (hk : k ∉ keys d) : keys (set d k v) = keys d ++ [k] := by
  induction d with
  | nil => rfl
  | cons f d ih =>
    rw [keys, List.map_cons, List.mem_cons, not_or] at hk
    rw [set, if_neg (Ne.symm hk.1)]
    exact congrArg (f.1 :: ·) (ih hk.2)

/-- Setting a key of keys named once names them once. -/
theorem nodup_keys_set (hd : (keys d).Nodup) : (keys (set d k v)).Nodup := by
  induction d with
  | nil => simp [set, keys]
  | cons f d ih =>
    rw [keys, List.map_cons, List.nodup_cons] at hd
    rw [set]
    split_ifs with hf
    · subst hf
      exact List.nodup_cons.2 hd
    · refine List.nodup_cons.2 ⟨fun hmem => ?_, ih hd.2⟩
      rcases mem_keys_set.1 hmem with h | h
      · exact hf h
      · exact hd.1 h

/-- The keys of a kind, looked up. -/
theorem get?_filter_key (p : κ → Bool) : get? (d.filter fun f => p f.1) k = if p k then get? d k else none := by
  induction d with
  | nil => simp
  | cons f d ih =>
    rw [List.filter_cons, get?_cons]
    rcases eq_or_ne k f.1 with rfl | hk
    · cases hp : p f.1 <;> simp [get?_cons, ih, hp]
    · rw [if_neg hk, ← ih]
      split_ifs with hf
      · rw [get?_cons, if_neg hk]
      · rfl

theorem get?_pop : get? (pop d k) k' = if k' = k then none else get? d k' := by
  have h : get? (pop d k) k' = _ := get?_filter_key fun k' => decide (k' ≠ k)
  simpa [ite_not] using h

theorem get?_eq_none : get? d k = none ↔ k ∉ keys d := by
  induction d with
  | nil => simp [keys]
  | cons f d ih =>
    rw [get?_cons, keys, List.map_cons, List.mem_cons, not_or]
    split_ifs with hk
    · exact iff_of_false nofun fun h => h.1 hk
    · exact ih.trans (and_iff_right hk).symm

theorem mem_of_get? (h : get? d k = some v) : (k, v) ∈ d := by
  obtain ⟨before, after, rfl, -⟩ := List.lookup_eq_some_iff.1 h
  simp

theorem get?_of_mem (hd : (keys d).Nodup) (h : (k, v) ∈ d) : get? d k = some v := by
  induction d with
  | nil => cases h
  | cons f d ih =>
    rw [keys, List.map_cons, List.nodup_cons] at hd
    rw [get?_cons]
    rcases List.mem_cons.1 h with rfl | h
    · exact if_pos rfl
    · have hne : k ≠ f.1 := fun hk => hd.1 (hk ▸ List.mem_map_of_mem h)
      rw [if_neg hne]
      exact ih hd.2 h

theorem mem_keys_update {e : List (κ × α)} : k ∈ keys (update d e) ↔ k ∈ keys d ∨ k ∈ keys e := by
  induction e generalizing d with
  | nil => simp [update, keys]
  | cons f e ih =>
    change k ∈ keys (update (set d f.1 f.2) e) ↔ _
    rw [ih, mem_keys_set, or_comm (a := k = f.1), or_assoc]
    exact or_congr_right List.mem_cons.symm

/-- The keys of another dictionary set, each once. -/
theorem get?_update {e : List (κ × α)} (he : (keys e).Nodup) : get? (update d e) k = (get? e k).or (get? d k) := by
  induction e generalizing d with
  | nil => rfl
  | cons f e ih =>
    rw [keys, List.map_cons, List.nodup_cons] at he
    change get? (update (set d f.1 f.2) e) k = _
    rw [ih he.2, get?_set, get?_cons]
    split_ifs with hk
    · subst hk
      rw [get?_eq_none.2 he.1]
      rfl
    · rfl

theorem get?_setDefault : get? (setDefault d k v) k' = if k' = k then (get? d k).or (some v) else get? d k' := by
  unfold setDefault
  split_ifs with hd hk hk
  · subst hk
    obtain ⟨w, hw⟩ := Option.isSome_iff_exists.1 hd
    rw [hw]
    rfl
  · rfl
  · rw [get?_set, if_pos hk, Option.not_isSome_iff_eq_none.1 hd]
    rfl
  · rw [get?_set, if_neg hk]

end

/-! ## Keys of a kind -/

section
variable {P : κ → Prop} {d e : List (κ × α)} {k : κ} {v : α}

@[simp] theorem keysIn_set : KeysIn P (set d k v) ↔ P k ∧ KeysIn P d := by
  simp [KeysIn, or_imp, forall_and]

theorem KeysIn.pop (h : KeysIn P d) : KeysIn P (Dicts.pop d k) :=
  fun k' hk' => h k' (mem_keys_pop.1 hk').2

theorem KeysIn.popAll (h : KeysIn P d) (ks : List κ) : KeysIn P (ks.foldl Dicts.pop d) :=
  fun k' hk' => h k' (mem_keys_popAll.1 hk').2

theorem keysIn_setDefault (hk : P k) : KeysIn P (setDefault d k v) ↔ KeysIn P d := by
  unfold setDefault
  split_ifs
  · exact Iff.rfl
  · rw [keysIn_set, and_iff_right hk]

end

end Dicts
