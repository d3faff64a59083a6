/-
  What a computation that may raise ensures of the value it returns.

  `Ensures x P`: whatever `x` returns satisfies `P`.  A sequence ensures what its second part
  ensures of what the first returns (`ensures_bind`, `Ensures.bind`), a branch what both
  branches do (`Ensures.ite`), and a loop the invariant its body keeps (`Ensures.foldlM`).
-/
import Celerp.Lib.Outcome

namespace Outcome

universe u v w
variable {ε : Type u} {α β : Type v}

/-- Whatever `x` returns satisfies `P`. -/
def Ensures (x : Except ε α) (P : α → Prop) : Prop := ∀ a, x = .ok a → P a

section
variable {x : Except ε α} {f : α → Except ε β} {P Q : α → Prop} {R : β → Prop} {a : α}

@[simp] theorem ensures_ok : Ensures (.ok a : Except ε α) P ↔ P a :=
  ⟨fun h => h a rfl, fun h _ heq => Except.ok.inj heq ▸ h⟩

@[simp] theorem ensures_error {e : ε} : Ensures (.error e : Except ε α) P := nofun

@[simp] theorem ensures_pure : Ensures (pure a : Except ε α) P ↔ P a := ensures_ok

theorem ensures_bind : Ensures (x >>= f) R ↔ Ensures x fun a => Ensures (f a) R := by
  cases x with
  | error e => exact ⟨fun _ => ensures_error, fun _ => ensures_error⟩
  | ok a =>
    rw [ensures_ok]
    exact Iff.rfl

theorem Ensures.mono (h : Ensures x P) (himp : ∀ a, P a → Q a) : Ensures x Q := fun a ha => himp a (h a ha)

theorem Ensures.bind (h : Ensures x P) (hf : ∀ a, P a → Ensures (f a) R) : Ensures (x >>= f) R :=
  ensures_bind.2 (h.mono hf)

/-- A part whose value does not matter. -/
theorem Ensures.after (hf : ∀ a, Ensures (f a) R) : Ensures (x >>= f) R :=
  ensures_bind.2 fun a _ => hf a

theorem Ensures.ite {p : Prop} [Decidable p] {y : Except ε α} (hx : p → Ensures x P) (hy : ¬p → Ensures y P) :
    Ensures (if p then x else y) P := by
  split_ifs with hp
  · exact hx hp
  · exact hy hp

end

/-- A loop ensures the invariant that its body keeps. -/
theorem Ensures.foldlM {γ : Type w} {P : α → Prop} {f : α → γ → Except ε α} {l : List γ} {a : α} (ha : P a)
    (hf : ∀ a, P a → ∀ c ∈ l, Ensures (f a c) P) : Ensures (l.foldlM f a) P := by
  induction l generalizing a with
  | nil => exact ensures_pure.2 ha
  | cons c l ih =>
    rw [List.foldlM_cons]
    exact (hf a ha c List.mem_cons_self).bind fun b hb => ih hb fun a ha c hc => hf a ha c (List.mem_cons_of_mem _ hc)

end Outcome
