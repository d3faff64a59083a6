/-
  Elements that depend on others.

  `Grounded ok a`: `a` is `ok`, and so is all it depends on, down to what depends on nothing;
  what is grounded is in no cycle (`Grounded.not_cyclic`).

  `DepsFirst l`: in `l` each element comes after all it depends on.  One pass over such a list
  finds all that depends on what is given, directly or not (`mem_spread`), and what is left
  comes after all it depends on (`depsFirst_rest`).
-/
import Mathlib.Logic.Relation
import Mathlib.Data.List.Induction

namespace Dependencies

open Relation

variable {α : Type*} (deps : α → List α)

/-- `a` depends on `b` directly. -/
def Needs (a b : α) : Prop := b ∈ deps a

/-- An element that is good, as all it depends on is. -/
inductive Grounded (ok : α → Prop) : α → Prop
  | intro {a : α} : ok a → (∀ b ∈ deps a, Grounded ok b) → Grounded ok a

/-- Each element comes after all it depends on. -/
def DepsFirst (l : List α) : Prop := ∀ before a after, l = before ++ a :: after → ∀ b ∈ deps a, b ∈ before

section
variable {deps} {ok : α → Prop} {a b : α} {l : List α}

theorem Grounded.good (h : Grounded deps ok a) : ok a := by
  cases h with
  | intro hok _ => exact hok

theorem Grounded.of_mem (h : Grounded deps ok a) (hb : b ∈ deps a) : Grounded deps ok b := by
  cases h with
  | intro _ hdeps => exact hdeps b hb

/-- **What is grounded does not depend on itself.** -/
theorem Grounded.not_cyclic (h : Grounded deps ok a) : ¬TransGen (Needs deps) a a := by
  induction h with
  | intro _ _ ih =>
    intro hcycle
    obtain ⟨b, hb, hrest⟩ := TransGen.head'_iff.1 hcycle
    exact ih b hb (TransGen.tail' hrest hb)

theorem depsFirst_nil : DepsFirst deps [] := fun _ _ _ h => by simp at h

/-- One element more. -/
theorem depsFirst_append : DepsFirst deps (l ++ [a]) ↔ DepsFirst deps l ∧ ∀ b ∈ deps a, b ∈ l := by
  constructor
  · intro h
    refine ⟨fun before b after heq => h before b (after ++ [a]) ?_, h l a [] rfl⟩
    rw [heq, List.append_assoc]
    rfl
  · rintro ⟨h, ha⟩ before b after heq
    rcases List.eq_nil_or_concat after with rfl | ⟨after, last, rfl⟩
    · obtain ⟨rfl, hb⟩ := List.append_inj' heq rfl
      cases hb
      exact ha
    · rw [List.concat_eq_append, ← List.cons_append, ← List.append_assoc] at heq
      exact h before b after (List.append_inj_left' heq rfl)

theorem DepsFirst.mem (h : DepsFirst deps l) (ha : a ∈ l) (hb : b ∈ deps a) : b ∈ l := by
  obtain ⟨before, after, rfl⟩ := List.append_of_mem ha
  exact List.mem_append_left _ (h before a after rfl b hb)

theorem DepsFirst.congr {deps' : α → List α} (h : DepsFirst deps l) (heq : ∀ a ∈ l, deps' a = deps a) :
    DepsFirst deps' l := by
  rintro before a after rfl b hb
  rw [heq a (List.mem_append_right _ List.mem_cons_self)] at hb
  exact h before a after rfl b hb

end

/-! ## One pass -/

section
variable [DecidableEq α]

/-- One pass over a list, taking in what depends on what is taken in already. -/
def spread (taken : List α) (l : List α) : List α :=
  l.foldl (fun taken a => if a ∉ taken ∧ ∃ b ∈ deps a, b ∈ taken then taken ++ [a] else taken) taken

variable {deps} {a b : α} {l taken : List α}

theorem spread_append : spread deps taken (l ++ [a]) =
    if a ∉ spread deps taken l ∧ ∃ b ∈ deps a, b ∈ spread deps taken l then spread deps taken l ++ [a]
    else spread deps taken l := by
  rw [spread, List.foldl_append]
  rfl

/-- **One pass over a list in order finds all that depends on what is taken**, directly or not. -/
theorem mem_spread (h : DepsFirst deps l) :
    b ∈ spread deps taken l ↔ b ∈ taken ∨ b ∈ l ∧ ∃ c ∈ taken, TransGen (Needs deps) b c := by
  induction l using List.reverseRecOn generalizing b with
  | nil => simp [spread]
  | append_singleton l a ih =>
    obtain ⟨hl, ha⟩ := depsFirst_append.1 h
    have ih := fun {b} => ih (b := b) hl
    -- what an element depends on is before it, where the pass has been
    have hnew : (∃ b ∈ deps a, b ∈ spread deps taken l) ↔ ∃ c ∈ taken, TransGen (Needs deps) a c := by
      constructor
      · rintro ⟨b, hb, hmem⟩
        rcases ih.1 hmem with hmem | ⟨-, c, hc, hbc⟩
        · exact ⟨b, hmem, .single hb⟩
        · exact ⟨c, hc, .head hb hbc⟩
      · rintro ⟨c, hc, hac⟩
        obtain ⟨b, hb, hbc⟩ := TransGen.head'_iff.1 hac
        refine ⟨b, hb, ih.2 ?_⟩
        rcases reflTransGen_iff_eq_or_transGen.1 hbc with rfl | hbc
        · exact .inl hc
        · exact .inr ⟨ha b hb, c, hc, hbc⟩
    have hstep : b ∈ spread deps taken (l ++ [a]) ↔
        b ∈ spread deps taken l ∨ b = a ∧ ∃ b ∈ deps a, b ∈ spread deps taken l := by
      rw [spread_append]
      split_ifs with hc
      · rw [List.mem_append, List.mem_singleton, and_iff_left hc.2]
      · rw [not_and_or, not_not] at hc
        refine ⟨.inl, fun hb => hb.elim id ?_⟩
        rintro ⟨rfl, hdep⟩
        exact hc.resolve_right (not_not.2 hdep)
    rw [hstep, ih, hnew, List.mem_append, List.mem_singleton]
    constructor
    · rintro ((hb | ⟨hb, hc⟩) | ⟨rfl, hc⟩)
      · exact .inl hb
      · exact .inr ⟨.inl hb, hc⟩
      · exact .inr ⟨.inr rfl, hc⟩
    · rintro (hb | ⟨hb | rfl, hc⟩)
      · exact .inl (.inl hb)
      · exact .inl (.inr ⟨hb, hc⟩)
      · exact .inr ⟨rfl, hc⟩

/-- **What is left of a list in order is in order.** -/
theorem depsFirst_rest (taken : List α) (h : DepsFirst deps l) :
    DepsFirst deps (l.filter fun a => decide (a ∉ spread deps taken l)) := by
  have key : ∀ {m : List α}, DepsFirst deps m → (∀ b ∈ m, b ∈ l) →
      DepsFirst deps (m.filter fun a => decide (a ∉ spread deps taken l)) := by
    intro m
    induction m using List.reverseRecOn with
    | nil => exact fun _ _ => depsFirst_nil
    | append_singleton m a ih =>
      intro hm hsub
      obtain ⟨hm, ha⟩ := depsFirst_append.1 hm
      have ih := ih hm fun b hb => hsub b (List.mem_append_left _ hb)
      rw [List.filter_append]
      by_cases hout : a ∈ spread deps taken l
      · rwa [List.filter_cons_of_neg (by simpa using hout), List.filter_nil, List.append_nil]
      · rw [List.filter_cons_of_pos (by simpa using hout), List.filter_nil]
        refine depsFirst_append.2 ⟨ih, fun b hb => List.mem_filter.2 ⟨ha b hb, decide_eq_true fun hbout => hout ?_⟩⟩
        have hal := hsub a (List.mem_append_right _ (List.mem_singleton_self a))
        refine (mem_spread h).2 (.inr ⟨hal, ?_⟩)
        rcases (mem_spread h).1 hbout with hb' | ⟨-, c, hc, hbc⟩
        · exact ⟨b, hb', .single hb⟩
        · exact ⟨c, hc, .head hb hbc⟩
  exact key h fun _ => id

end

end Dependencies
