/-
  A guarded descent through a graph.

  A recursion walks the successors of a node, carrying the nodes it came through
  and a count of the levels it may still go.  It refuses a node it came through, a
  node past the last level, and a node that is not sound; a node where it stops is
  accepted unseen.

  * `Accepts` is the recursion; `Deep` says that some walk goes on for a number of
    steps, `Flawed` that a node within that many levels is not sound;
  * `accepts_iff`: the recursion accepts exactly when no walk goes that deep and no
    node within is flawed: a node it came through lies on a cycle, from which walks
    of any length start, so the guard on the path refuses nothing else.
-/
import Mathlib.Data.List.Basic
import Mathlib.Logic.Relation

namespace Descent

open Relation

variable {ν : Type*} (next : ν → List ν) (stop sound : ν → Prop)

/-- The recursion from `v`, which may go `n` levels and came through `path`. -/
def Accepts : ℕ → List ν → ν → Prop
  | 0, _, _ => False
  | n + 1, path, v => sound v ∧ ∀ w ∈ next v, w ∉ path ∧ (stop w ∨ Accepts n (w :: path) w)

/-- Some walk from `v` goes on for `n` steps, each node one where the recursion does
    not stop. -/
def Deep : ℕ → ν → Prop
  | 0, v => ¬stop v
  | n + 1, v => ¬stop v ∧ ∃ w ∈ next v, Deep n w

/-- A node within `n` levels of `v` is not sound. -/
def Flawed : ℕ → ν → Prop
  | 0, _ => False
  | n + 1, v => ¬stop v ∧ (¬sound v ∨ ∃ w ∈ next v, Flawed n w)

/-- One step of a walk that goes on. -/
def Leads (v w : ν) : Prop := ¬stop v ∧ w ∈ next v

section
variable {next stop sound} {n : ℕ} {v w : ν}

theorem Deep.not_stop (h : Deep next stop n v) : ¬stop v := by
  cases n with
  | zero => exact h
  | succ n => exact h.1

theorem Flawed.not_stop (h : Flawed next stop sound n v) : ¬stop v := by
  cases n with
  | zero => exact h.elim
  | succ n => exact h.1

/-- Walks of any length start on a cycle. -/
theorem deep_of_cycle : ∀ (n : ℕ) {v : ν}, TransGen (Leads next stop) v v → Deep next stop n v
  | 0, v, h => by
    obtain ⟨w, hw, -⟩ := TransGen.head'_iff.1 h
    exact hw.1
  | n + 1, v, h => by
    obtain ⟨w, hvw, hwv⟩ := TransGen.head'_iff.1 h
    exact ⟨hvw.1, w, hvw.2, deep_of_cycle n (TransGen.tail' hwv hvw)⟩

/-- Where the successors of a node rank below it, walks are no longer than its rank. -/
theorem Deep.le_rank {rank : ν → ℕ} (hrank : ∀ v, ∀ w ∈ next v, rank w < rank v) :
    ∀ {n : ℕ} {v : ν}, Deep next stop n v → n ≤ rank v
  | 0, _, _ => Nat.zero_le _
  | n + 1, v, ⟨_, w, hw, h⟩ => by
    have hle := h.le_rank hrank
    have hlt := hrank v w hw
    omega

/-- **What a guarded descent refuses.**  Where every node of the path leads to `v`,
    the recursion accepts `v` exactly when no walk from it takes `n` steps and no
    node within `n` levels is flawed. -/
theorem accepts_iff : ∀ {n : ℕ} {path : List ν} {v : ν}, ¬stop v →
    (∀ p ∈ path, ReflTransGen (Leads next stop) p v) →
    (Accepts next stop sound n path v ↔ ¬Deep next stop n v ∧ ¬Flawed next stop sound n v)
  | 0, _, _, hv, _ => by simp [Accepts, Deep, hv]
  | n + 1, path, v, hv, hpath => by
    have hchild : ∀ w ∈ next v, (w ∉ path ∧ (stop w ∨ Accepts next stop sound n (w :: path) w) ↔
        ¬Deep next stop n w ∧ ¬Flawed next stop sound n w) := by
      intro w hw
      have hvw : Leads next stop v w := ⟨hv, hw⟩
      by_cases hmem : w ∈ path
      · have hdeep := deep_of_cycle n (TransGen.tail' (hpath w hmem) hvw)
        simp [hmem, hdeep]
      by_cases hstop : stop w
      · have hdeep : ¬Deep next stop n w := fun h => h.not_stop hstop
        have hflaw : ¬Flawed next stop sound n w := fun h => h.not_stop hstop
        simp [hmem, hstop, hdeep, hflaw]
      · have hpath' : ∀ p ∈ w :: path, ReflTransGen (Leads next stop) p w := by
          intro p hp
          rcases List.mem_cons.1 hp with rfl | hp
          · exact ReflTransGen.refl
          · exact (hpath p hp).tail hvw
        simp [hmem, hstop, accepts_iff hstop hpath']
    simp only [Accepts, Deep, Flawed, hv, not_false_eq_true, true_and]
    constructor
    · rintro ⟨hs, h⟩
      have h' : ∀ w ∈ next v, _ := fun w hw => (hchild w hw).1 (h w hw)
      refine ⟨fun ⟨w, hw, hd⟩ => (h' w hw).1 hd, ?_⟩
      rintro (hns | ⟨w, hw, hf⟩)
      · exact hns hs
      · exact (h' w hw).2 hf
    · rintro ⟨hd, hf⟩
      refine ⟨by_contra fun hns => hf (Or.inl hns), fun w hw => (hchild w hw).2 ⟨?_, ?_⟩⟩
      · exact fun h => hd ⟨w, hw, h⟩
      · exact fun h => hf (Or.inr ⟨w, hw, h⟩)

end

end Descent
