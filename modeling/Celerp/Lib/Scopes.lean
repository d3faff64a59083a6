/-
  Nested scopes and what is done in them.

  A scope is entered within another, its parent, which it keeps when it is left. Items are
  tagged with the scope they were added in.

  * `framesOf s items`: the items by the scopes open from `s` outwards, each with the
    innermost open scope it is within;
  * entering a scope opens an empty frame (`framesOf_enter`), leaving one merges its frame
    into its parent's (`framesOf_leave`), dropping the items within one takes its frame
    away (`framesOf_drop`), and an item added in the innermost scope goes in its frame
    (`framesOf_add`);
  * every item is in one of the frames (`exists_mem_framesOf`).
-/
import Mathlib.Data.List.Basic
import Mathlib.Data.List.Forall2

namespace Scopes

/-- A scope: the outermost one, or one within another. -/
inductive Scope (κ : Type*) where
  | root (id : ℕ)
  | child (id : ℕ) (kind : κ) (parent : Scope κ)
  deriving DecidableEq

variable {κ α : Type*} [DecidableEq κ]

namespace Scope

/-- A scope is another, or in it. -/
def within (b : Scope κ) : Scope κ → Bool
  | root id => root id = b
  | child id kind parent => child id kind parent = b || within b parent

/-- The ids of a scope and of those it is in are less than `n`. -/
def Below (n : ℕ) : Scope κ → Prop
  | root id => id < n
  | child id _ parent => id < n ∧ parent.Below n

variable {s b p : Scope κ} {id n : ℕ} {kind : κ}

omit [DecidableEq κ] in
theorem Below.succ (h : s.Below n) : s.Below (n + 1) := by
  induction s with
  | root id => exact Nat.lt_succ_of_lt h
  | child id kind parent ih => exact ⟨Nat.lt_succ_of_lt h.1, ih h.2⟩

@[simp] theorem within_self (s : Scope κ) : s.within s = true := by
  cases s <;> simp [within]

/-- What is in a scope is in its parent. -/
theorem within_parent (h : (child id kind p).within s = true) : p.within s = true := by
  induction s with
  | root id' => simp [within] at h
  | child id' kind' parent ih =>
    simp only [within, Bool.or_eq_true, decide_eq_true_eq] at h ⊢
    rcases h with h | h
    · obtain ⟨-, -, rfl⟩ := child.inj h
      exact .inr (within_self parent)
    · exact .inr (ih h)

/-- A scope with a new id has nothing in it. -/
theorem within_new (h : s.Below n) : (child n kind p).within s = false := by
  induction s with
  | root id => simp [within]
  | child id kind' parent ih =>
    have hid : id ≠ n := Nat.ne_of_lt h.1
    simp [within, hid, ih h.2]

end Scope

open Scope

/-- The items by the open scopes, from the innermost outwards. -/
def framesOf : Scope κ → List (α × Scope κ) → List (List α)
  | root _, items => [items.map Prod.fst]
  | child id kind parent, items =>
    (items.filter fun i => (child id kind parent).within i.2).map Prod.fst ::
      framesOf parent (items.filter fun i => !(child id kind parent).within i.2)

/-- Frames that hold the same items. -/
def SameFrames (fs gs : List (List α)) : Prop := List.Forall₂ (fun f g => ∀ a, a ∈ f ↔ a ∈ g) fs gs

/-- The innermost frame put into the next. -/
def merge : List (List α) → List (List α)
  | top :: next :: rest => (top ++ next) :: rest
  | fs => fs

/-- An item put into the innermost frame. -/
def addTop (a : α) : List (List α) → List (List α)
  | top :: rest => (top ++ [a]) :: rest
  | [] => []

section
variable {fs gs hs : List (List α)} {s p : Scope κ} {items : List (α × Scope κ)} {a : α} {id n : ℕ} {kind : κ}

theorem SameFrames.refl (fs : List (List α)) : SameFrames fs fs :=
  List.forall₂_same.2 fun _ _ _ => Iff.rfl

theorem SameFrames.trans (h : SameFrames fs gs) (h' : SameFrames gs hs) : SameFrames fs hs := by
  induction h generalizing hs with
  | nil => exact h'
  | cons hab _ ih =>
    cases h' with
    | cons hbc hrest => exact .cons (fun a => (hab a).trans (hbc a)) (ih hrest)

theorem SameFrames.symm (h : SameFrames fs gs) : SameFrames gs fs := by
  induction h with
  | nil => exact .nil
  | cons hab _ ih => exact .cons (fun a => (hab a).symm) ih

theorem SameFrames.cons_nil (h : SameFrames fs gs) : SameFrames ([] :: fs) ([] :: gs) :=
  .cons (fun _ => Iff.rfl) h

theorem SameFrames.merge (h : SameFrames fs gs) : SameFrames (merge fs) (Scopes.merge gs) := by
  cases h with
  | nil => exact .nil
  | cons htop hrest =>
    cases hrest with
    | nil => exact .cons htop .nil
    | cons hnext hrest =>
      refine .cons (fun a => ?_) hrest
      rw [List.mem_append, List.mem_append, htop a, hnext a]

theorem SameFrames.tail (h : SameFrames fs gs) : SameFrames fs.tail gs.tail := by
  cases h with
  | nil => exact .nil
  | cons _ hrest => exact hrest

theorem SameFrames.addTop (h : SameFrames fs gs) (a : α) : SameFrames (addTop a fs) (Scopes.addTop a gs) := by
  cases h with
  | nil => exact .nil
  | cons htop hrest =>
    refine .cons (fun b => ?_) hrest
    rw [List.mem_append, List.mem_append, htop b]

theorem SameFrames.exists_mem_iff (h : SameFrames fs gs) : (∃ f ∈ fs, a ∈ f) ↔ ∃ g ∈ gs, a ∈ g := by
  induction h with
  | nil => simp
  | cons hab _ ih => simp only [List.exists_mem_cons_iff, hab a, ih]

/-- **Entering a new scope opens an empty frame.** -/
theorem framesOf_enter (kind : κ) (p : Scope κ) (h : ∀ i ∈ items, i.2.Below n) :
    framesOf (child n kind p) items = [] :: framesOf p items := by
  have hnone : items.filter (fun i => (child n kind p).within i.2) = [] := by
    rw [List.filter_eq_nil_iff]
    intro i hi
    simp [within_new (h i hi)]
  have hall : items.filter (fun i => !(child n kind p).within i.2) = items := by
    rw [List.filter_eq_self]
    intro i hi
    simp [within_new (h i hi)]
  rw [framesOf, hnone, hall]
  rfl

/-- **Dropping the items of a scope takes its frame away.** -/
theorem framesOf_drop (id : ℕ) (kind : κ) (p : Scope κ) (items : List (α × Scope κ)) :
    framesOf p (items.filter fun i => !(child id kind p).within i.2) = (framesOf (child id kind p) items).tail := rfl

/-- **Leaving a scope merges its frame into its parent's.** -/
theorem framesOf_leave (id : ℕ) (kind : κ) (p : Scope κ) (items : List (α × Scope κ)) :
    SameFrames (framesOf p items) (merge (framesOf (child id kind p) items)) := by
  cases p with
  | root id' =>
    refine .cons (fun a => ?_) .nil
    rw [← List.map_append]
    exact ((List.filter_append_perm _ items).map Prod.fst).mem_iff.symm
  | child id' kind' parent =>
    have hparent : ∀ i : α × Scope κ, (child id kind (child id' kind' parent)).within i.2 = true →
        (child id' kind' parent).within i.2 = true := fun i h => within_parent h
    refine .cons (fun a => ?_) ?_
    · simp only [List.mem_append, List.mem_map, List.mem_filter]
      constructor
      · rintro ⟨i, ⟨hi, hwithin⟩, rfl⟩
        by_cases h : (child id kind (child id' kind' parent)).within i.2 = true
        · exact .inl ⟨i, ⟨hi, h⟩, rfl⟩
        · exact .inr ⟨i, ⟨⟨hi, by simpa using h⟩, hwithin⟩, rfl⟩
      · rintro (⟨i, ⟨hi, hwithin⟩, rfl⟩ | ⟨i, ⟨⟨hi, -⟩, hwithin⟩, rfl⟩)
        · exact ⟨i, ⟨hi, hparent i hwithin⟩, rfl⟩
        · exact ⟨i, ⟨hi, hwithin⟩, rfl⟩
    · have hfilter : (items.filter fun i => !(child id kind (child id' kind' parent)).within i.2).filter
          (fun i => !(child id' kind' parent).within i.2) =
            items.filter fun i => !(child id' kind' parent).within i.2 := by
        rw [List.filter_filter]
        refine List.filter_congr fun i _ => ?_
        by_cases h : (child id' kind' parent).within i.2 = true
        · simp [h]
        · have hnot : (child id kind (child id' kind' parent)).within i.2 ≠ true := fun h' => h (hparent i h')
          simp [h, hnot]
      rw [hfilter]
      exact SameFrames.refl _

/-- **An item added in the innermost scope goes in its frame.** -/
theorem framesOf_add (s : Scope κ) (items : List (α × Scope κ)) (a : α) :
    framesOf s (items ++ [(a, s)]) = addTop a (framesOf s items) := by
  cases s with
  | root id => simp [framesOf, addTop]
  | child id kind parent => simp [framesOf, addTop]

/-- **Every item is in a frame.** -/
theorem exists_mem_framesOf : (∃ f ∈ framesOf s items, a ∈ f) ↔ ∃ t, (a, t) ∈ items := by
  induction s generalizing items with
  | root id => simp [framesOf]
  | child id kind parent ih =>
    rw [framesOf, List.exists_mem_cons_iff, ih]
    constructor
    · rintro (h | ⟨t, ht⟩)
      · obtain ⟨⟨a', t⟩, hi, rfl⟩ := List.mem_map.1 h
        exact ⟨t, List.mem_of_mem_filter hi⟩
      · exact ⟨t, List.mem_of_mem_filter ht⟩
    · rintro ⟨t, ht⟩
      by_cases h : (child id kind parent).within t = true
      · exact .inl (List.mem_map.2 ⟨(a, t), List.mem_filter.2 ⟨ht, h⟩, rfl⟩)
      · exact .inr ⟨t, List.mem_filter.2 ⟨ht, by simpa using h⟩⟩

end

end Scopes
