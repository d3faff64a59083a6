/-
  When a computation that may raise succeeds.

  `Succeeds x`: the computation `x` returns a value rather than raising.  A
  sequence succeeds when both parts do (`succeeds_bind`), a loop over a list when
  its body does on each element (`succeeds_mapM`, `succeeds_foldlM`).
-/
import Mathlib.Algebra.BigOperators.Group.List.Basic
import Mathlib.Data.List.Basic

namespace Outcome

universe u v
variable {ε : Type u} {α β : Type v}

/-- `x` returns a value. -/
def Succeeds (x : Except ε α) : Prop := ∃ a, x = .ok a

/-- `x` raises. -/
def Raises (x : Except ε α) : Prop := ∃ e, x = .error e

instance : ∀ x : Except ε α, Decidable (Succeeds x)
  | .ok a => isTrue ⟨a, rfl⟩
  | .error _ => isFalse nofun

instance : ∀ x : Except ε α, Decidable (Raises x)
  | .ok _ => isFalse nofun
  | .error e => isTrue ⟨e, rfl⟩

theorem raises_iff (x : Except ε α) : Raises x ↔ ¬Succeeds x := by
  cases x <;> simp [Raises, Succeeds]

@[simp] theorem succeeds_ok (a : α) : Succeeds (.ok a : Except ε α) := ⟨a, rfl⟩

@[simp] theorem succeeds_pure (a : α) : Succeeds (pure a : Except ε α) := ⟨a, rfl⟩

@[simp] theorem not_succeeds_error (e : ε) : ¬Succeeds (.error e : Except ε α) := nofun

@[simp] theorem not_succeeds_throw (e : ε) : ¬Succeeds (throw e : Except ε α) := nofun

theorem bind_eq_ok {x : Except ε α} {f : α → Except ε β} {b : β} :
    x >>= f = .ok b ↔ ∃ a, x = .ok a ∧ f a = .ok b := by
  cases x with
  | error e => exact ⟨nofun, nofun⟩
  | ok a => simp [bind, Except.bind]

theorem bind_eq_error {x : Except ε α} {f : α → Except ε β} {e : ε} :
    x >>= f = .error e ↔ x = .error e ∨ ∃ a, x = .ok a ∧ f a = .error e := by
  cases x with
  | error e' => simp [bind, Except.bind]
  | ok a => simp [bind, Except.bind]

theorem map_eq_ok {x : Except ε α} {f : α → β} {b : β} : x.map f = .ok b ↔ ∃ a, x = .ok a ∧ f a = b := by
  cases x with
  | error e => exact ⟨nofun, nofun⟩
  | ok a => simp [Except.map]

/-- What a run that comes to a value once read succeeds with. -/
theorem ok_of_toOption_map {x : Except ε α} {f : α → β} {b : β} (h : x.toOption.map f = some b) :
    ∃ a, x = .ok a ∧ f a = b := by
  cases x with
  | error e => cases h
  | ok a => exact ⟨a, rfl, Option.some.inj h⟩

theorem mapError_eq_ok {ε' : Type*} {x : Except ε α} {f : ε → ε'} {a : α} : x.mapError f = .ok a ↔ x = .ok a := by
  cases x <;> simp [Except.mapError]

/-- What follows a computation matters only on the values it returns. -/
theorem bind_congr_of_ok {x : Except ε α} {f g : α → Except ε β} (h : ∀ a, x = .ok a → f a = g a) :
    x >>= f = x >>= g := by
  cases x with
  | error e => rfl
  | ok a => exact h a rfl

theorem succeeds_bind {x : Except ε α} {f : α → Except ε β} :
    Succeeds (x >>= f) ↔ ∃ a, x = .ok a ∧ Succeeds (f a) := by
  simp only [Succeeds, bind_eq_ok]
  exact ⟨fun ⟨b, a, ha, hb⟩ => ⟨a, ha, b, hb⟩, fun ⟨a, ha, b, hb⟩ => ⟨b, a, ha, hb⟩⟩

/-- Where what follows succeeds or not whatever the value, a sequence succeeds when
    both parts do. -/
theorem succeeds_bind_and {x : Except ε α} {f : α → Except ε β} {P : Prop}
    (hf : ∀ a, Succeeds (f a) ↔ P) : Succeeds (x >>= f) ↔ Succeeds x ∧ P := by
  rw [succeeds_bind]
  exact ⟨fun ⟨a, ha, h⟩ => ⟨⟨a, ha⟩, (hf a).1 h⟩, fun ⟨⟨a, ha⟩, h⟩ => ⟨a, ha, (hf a).2 h⟩⟩

@[simp] theorem succeeds_map {x : Except ε α} {f : α → β} : Succeeds (f <$> x) ↔ Succeeds x := by
  cases x <;> simp [Succeeds, Functor.map, Except.map]

/-- A guard: what follows runs where the condition does not hold. -/
theorem succeeds_guard {p : Prop} [Decidable p] {e : ε} {x : Except ε α} :
    Succeeds (if p then .error e else x) ↔ ¬p ∧ Succeeds x := by
  split_ifs with hp <;> simp [hp]

/-- **A loop succeeds when its body does on each element.** -/
theorem succeeds_mapM {f : α → Except ε β} :
    ∀ {l : List α}, Succeeds (l.mapM f) ↔ ∀ a ∈ l, Succeeds (f a)
  | [] => by simp
  | a :: l => by
    rw [List.mapM_cons, succeeds_bind, List.forall_mem_cons, ← succeeds_mapM (l := l)]
    constructor
    · rintro ⟨b, hb, h⟩
      obtain ⟨bs, hbs, -⟩ := succeeds_bind.1 h
      exact ⟨⟨b, hb⟩, bs, hbs⟩
    · rintro ⟨⟨b, hb⟩, bs, hbs⟩
      exact ⟨b, hb, succeeds_bind.2 ⟨bs, hbs, succeeds_pure _⟩⟩

/-- A loop that succeeds ran its body on each element. -/
theorem forall₂_of_mapM_eq_ok {f : α → Except ε β} : ∀ {l : List α} {bs : List β},
    l.mapM f = .ok bs → List.Forall₂ (fun a b => f a = .ok b) l bs
  | [], bs, hbs => by
    obtain rfl : [] = bs := by simpa [pure, Except.pure] using hbs
    exact .nil
  | a :: l, bs, hbs => by
    rw [List.mapM_cons, bind_eq_ok] at hbs
    obtain ⟨b, hb, hbs⟩ := hbs
    obtain ⟨bs', hbs', hbs⟩ := bind_eq_ok.1 hbs
    obtain rfl : b :: bs' = bs := by simpa [pure, Except.pure] using hbs
    exact .cons hb (forall₂_of_mapM_eq_ok hbs')

/-- What a loop adds up is what it has of one element and of the others. -/
theorem mapM_erase_of_mem {M : Type v} [AddCommMonoid M] [BEq α] [LawfulBEq α] {f : α → Except ε M} {a : α} :
    ∀ {l : List α} {bs : List M}, l.mapM f = .ok bs → a ∈ l →
      ∃ b others, f a = .ok b ∧ (l.erase a).mapM f = .ok others ∧ bs.sum = b + others.sum
  | [], _, _, ha => absurd ha List.not_mem_nil
  | x :: l, bs, hbs, ha => by
    rw [List.mapM_cons, bind_eq_ok] at hbs
    obtain ⟨b, hb, hbs⟩ := hbs
    obtain ⟨bs', hbs', hbs⟩ := bind_eq_ok.1 hbs
    obtain rfl : b :: bs' = bs := by simpa [pure, Except.pure] using hbs
    by_cases hx : x = a
    · subst hx
      exact ⟨b, bs', hb, by rwa [List.erase_cons_head], List.sum_cons⟩
    · obtain ⟨c, others, hc, hothers, hsum⟩ := mapM_erase_of_mem hbs' ((List.mem_cons.1 ha).resolve_left (Ne.symm hx))
      refine ⟨c, b :: others, hc, ?_, ?_⟩
      · rw [List.erase_cons_tail (by simpa using hx), List.mapM_cons, hb, bind_eq_ok]
        exact ⟨b, rfl, bind_eq_ok.2 ⟨others, hothers, rfl⟩⟩
      · rw [List.sum_cons, hsum, List.sum_cons, add_left_comm]

/-- A loop of checks that succeeds passed each. -/
theorem forall_of_forM_eq_ok {f : α → Except ε PUnit} : ∀ {l : List α}, l.forM f = .ok ⟨⟩ → ∀ a ∈ l, f a = .ok ⟨⟩
  | [], _, _, ha => absurd ha List.not_mem_nil
  | a :: l, h, b, hb => by
    obtain ⟨⟨⟩, ha, hl⟩ := bind_eq_ok.1 h
    rcases List.mem_cons.1 hb with rfl | hb
    · exact ha
    · exact forall_of_forM_eq_ok hl b hb

/-- What the body keeps of each element, the loop keeps of the list. -/
theorem map_of_mapM_eq_ok {γ : Type*} {f : α → Except ε β} {g : β → γ} {k : α → γ} :
    ∀ {l : List α} {bs : List β}, (∀ a ∈ l, ∀ b, f a = .ok b → g b = k a) →
      l.mapM f = .ok bs → bs.map g = l.map k
  | [], bs, _, hbs => by
    obtain rfl : [] = bs := by simpa [pure, Except.pure] using hbs
    rfl
  | a :: l, bs, h, hbs => by
    rw [List.forall_mem_cons] at h
    rw [List.mapM_cons, bind_eq_ok] at hbs
    obtain ⟨b, hb, hbs⟩ := hbs
    obtain ⟨bs', hbs', hbs⟩ := bind_eq_ok.1 hbs
    obtain rfl : b :: bs' = bs := by simpa [pure, Except.pure] using hbs
    rw [List.map_cons, List.map_cons, h.1 b hb, map_of_mapM_eq_ok h.2 hbs']

/-- **A fold succeeds when its body does on each element**, where that does not
    depend on what is folded so far. -/
theorem succeeds_foldlM {P : β → Prop} {f : α → β → Except ε α} :
    ∀ {l : List β}, (∀ b ∈ l, ∀ a, Succeeds (f a b) ↔ P b) →
      ∀ {a : α}, Succeeds (l.foldlM f a) ↔ ∀ b ∈ l, P b
  | [], _, a => by simp
  | b :: l, hf, a => by
    rw [List.forall_mem_cons] at hf
    rw [List.foldlM_cons, succeeds_bind_and (P := ∀ b ∈ l, P b) (fun a' => succeeds_foldlM hf.2),
      hf.1 a, List.forall_mem_cons]

/-- **What each step of a fold adds, the whole fold adds up.** -/
theorem add_of_foldlM_eq_ok {M : Type*} [AddMonoid M] {φ : α → M} {g : β → M}
    {f : α → β → Except ε α} : ∀ {l : List β},
      (∀ b ∈ l, ∀ a a', f a b = .ok a' → φ a' = φ a + g b) →
      ∀ {a a' : α}, l.foldlM f a = .ok a' → φ a' = φ a + (l.map g).sum
  | [], _, a, a', h => by
    obtain rfl : a = a' := by simpa [pure, Except.pure] using h
    simp
  | b :: l, hf, a, a', h => by
    rw [List.forall_mem_cons] at hf
    rw [List.foldlM_cons, bind_eq_ok] at h
    obtain ⟨a₁, h₁, h₂⟩ := h
    rw [add_of_foldlM_eq_ok hf.2 h₂, hf.1 a a₁ h₁, List.map_cons, List.sum_cons, add_assoc]

/-- What each step of a fold keeps, the whole fold keeps. -/
theorem keeps_of_foldlM_eq_ok {I : α → Prop} {f : α → β → Except ε α} : ∀ {l : List β},
      (∀ b ∈ l, ∀ a a', f a b = .ok a' → I a → I a') →
      ∀ {a a' : α}, l.foldlM f a = .ok a' → I a → I a'
  | [], _, a, a', h, ha => by
    obtain rfl : a = a' := by simpa [pure, Except.pure] using h
    exact ha
  | b :: l, hf, a, a', h, ha => by
    rw [List.forall_mem_cons] at hf
    rw [List.foldlM_cons, bind_eq_ok] at h
    obtain ⟨a₁, h₁, h₂⟩ := h
    exact keeps_of_foldlM_eq_ok hf.2 h₂ (hf.1 a a₁ h₁ ha)

end Outcome
