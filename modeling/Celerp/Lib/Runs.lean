/-
  Runs of a step function over a list of inputs.

  * `EveryStep step P s es`: each step of the run from `s` over `es` meets `P`,
    a condition on the state before the step and its input;
  * `EveryAfter step Q s es`: each state the run reaches after a step meets `Q`;
  * `everyAfter_of_step`: an invariant the steps of a run preserve holds after
    each of them, and `everyAfter_iff`: where a step ends in `Q` exactly when it
    meets a condition, a run stays in `Q` exactly when all its steps meet it;
  * `foldl_of_after`: where a run stays in `Q`, an invariant its steps ending there preserve
    holds at its end, and `everyStep_congr`: conditions that agree on such steps hold of the
    same runs;
  * `foldlM_of_step` and `exists_foldlM_of_step` are the same for steps that may fail, and
    `foldlM_reached_iff` is `everyAfter_iff` for them.
-/
import Mathlib.Data.List.Induction

namespace Runs

variable {σ ε : Type*} (step : σ → ε → σ)

/-- Each step of the run meets `P`. -/
def EveryStep (P : σ → ε → Prop) : σ → List ε → Prop
  | _, [] => True
  | s, e :: es => P s e ∧ EveryStep P (step s e) es

/-- Each state the run reaches after a step meets `Q`. -/
def EveryAfter (Q : σ → Prop) : σ → List ε → Prop
  | _, [] => True
  | s, e :: es => Q (step s e) ∧ EveryAfter Q (step s e) es

section
variable {step} {s : σ} {e : ε} {es : List ε} {P P' : σ → ε → Prop} {Q Q' : σ → Prop}

@[simp] theorem everyStep_nil : EveryStep step P s [] := trivial

@[simp] theorem everyStep_cons :
    EveryStep step P s (e :: es) ↔ P s e ∧ EveryStep step P (step s e) es := Iff.rfl

@[simp] theorem everyAfter_nil : EveryAfter step Q s [] := trivial

@[simp] theorem everyAfter_cons :
    EveryAfter step Q s (e :: es) ↔ Q (step s e) ∧ EveryAfter step Q (step s e) es := Iff.rfl

instance instDecidableEveryStep [∀ s e, Decidable (P s e)] : ∀ (s : σ) (es : List ε), Decidable (EveryStep step P s es)
  | _, [] => isTrue trivial
  | s, e :: es =>
    have := instDecidableEveryStep (step s e) es
    inferInstanceAs (Decidable (P s e ∧ EveryStep step P (step s e) es))

instance instDecidableEveryAfter [DecidablePred Q] : ∀ (s : σ) (es : List ε), Decidable (EveryAfter step Q s es)
  | _, [] => isTrue trivial
  | s, e :: es =>
    have := instDecidableEveryAfter (step s e) es
    inferInstanceAs (Decidable (Q (step s e) ∧ EveryAfter step Q (step s e) es))

theorem everyStep_of_forall (h : ∀ s e, P s e) :
    ∀ {s : σ} {es : List ε}, EveryStep step P s es
  | _, [] => trivial
  | _, _ :: _ => ⟨h _ _, everyStep_of_forall h⟩

theorem everyStep_of_mem :
    ∀ {s : σ} {es : List ε}, (∀ e ∈ es, ∀ s, P s e) → EveryStep step P s es
  | _, [], _ => trivial
  | s, e :: _, h =>
    ⟨h e List.mem_cons_self s, everyStep_of_mem fun e' he' => h e' (List.mem_cons_of_mem e he')⟩

theorem EveryStep.and :
    ∀ {s : σ} {es : List ε}, EveryStep step P s es → EveryStep step P' s es →
      EveryStep step (fun s e => P s e ∧ P' s e) s es
  | _, [], _, _ => trivial
  | _, _ :: _, ⟨hp, hps⟩, ⟨hp', hps'⟩ => ⟨⟨hp, hp'⟩, hps.and hps'⟩

theorem EveryAfter.imp (h : ∀ s, Q s → Q' s) :
    ∀ {s : σ} {es : List ε}, EveryAfter step Q s es → EveryAfter step Q' s es
  | _, [], _ => trivial
  | _, _ :: _, ⟨hq, hqs⟩ => ⟨h _ hq, hqs.imp h⟩

/-- **An invariant the steps of a run preserve holds after each of them.** -/
theorem everyAfter_of_step (hstep : ∀ s e, Q s → P s e → Q (step s e)) :
    ∀ {s : σ} {es : List ε}, Q s → EveryStep step P s es → EveryAfter step Q s es
  | _, [], _, _ => trivial
  | s, e :: _, hs, ⟨hp, hps⟩ =>
    have hs' := hstep s e hs hp
    ⟨hs', everyAfter_of_step hstep hs' hps⟩

/-- **An invariant the steps of a run preserve holds at its end.** -/
theorem foldl_of_step (hstep : ∀ s e, Q s → P s e → Q (step s e)) :
    ∀ {s : σ} {es : List ε}, Q s → EveryStep step P s es → Q (es.foldl step s)
  | _, [], hs, _ => hs
  | s, e :: es, hs, ⟨hp, hps⟩ =>
    have hrest : Q (es.foldl step (step s e)) := foldl_of_step hstep (hstep s e hs hp) hps
    hrest

/-- **An invariant the steps ending in `Q` preserve holds at the end** of a run that stays
    there. -/
theorem foldl_of_after {I : σ → Prop} (hstep : ∀ s e, I s → Q (step s e) → I (step s e)) :
    ∀ {s : σ} {es : List ε}, I s → EveryAfter step Q s es → I (es.foldl step s)
  | _, [], hs, _ => hs
  | s, e :: es, hs, ⟨hq, hqs⟩ =>
    have hrest : I (es.foldl step (step s e)) := foldl_of_after hstep (hstep s e hs hq) hqs
    hrest

/-- **Conditions that agree on the steps ending in `Q`, from an invariant they preserve**, hold
    of the same runs that stay there. -/
theorem everyStep_congr {I : σ → Prop} (hiff : ∀ s e, I s → Q (step s e) → (P s e ↔ P' s e))
    (hinv : ∀ s e, I s → Q (step s e) → P s e → I (step s e)) :
    ∀ {s : σ} {es : List ε}, I s → EveryAfter step Q s es → (EveryStep step P s es ↔ EveryStep step P' s es)
  | _, [], _, _ => Iff.rfl
  | s, e :: _, hs, ⟨hq, hqs⟩ => by
    rw [everyStep_cons, everyStep_cons, ← hiff s e hs hq]
    exact and_congr_right fun hp => everyStep_congr hiff hinv (hinv s e hs hq hp) hqs

/-- **A run stays within `Q` exactly when each of its steps meets the condition
    under which a step does**, given an invariant that the steps meeting the
    condition preserve. -/
theorem everyAfter_iff {I : σ → Prop} (hstep : ∀ s e, I s → P s e → (Q (step s e) ↔ P' s e))
    (hinv : ∀ s e, I s → P s e → P' s e → I (step s e)) :
    ∀ {s : σ} {es : List ε}, I s → EveryStep step P s es →
      (EveryAfter step Q s es ↔ EveryStep step P' s es)
  | _, [], _, _ => Iff.rfl
  | s, e :: _, hs, ⟨hp, hps⟩ => by
    rw [everyAfter_cons, everyStep_cons, hstep s e hs hp]
    refine and_congr_right fun hp' => everyAfter_iff hstep hinv ?_ hps
    exact hinv s e hs hp hp'

end

/-! ## Runs that may fail -/

section
variable {attempt : σ → ε → Option σ} {s s' : σ} {e : ε} {es rest : List ε} {Q : σ → Prop}

theorem foldlM_cons_eq_some :
    (e :: es).foldlM attempt s = some s' ↔ ∃ t, attempt s e = some t ∧ es.foldlM attempt t = some s' := by
  rw [List.foldlM_cons]
  exact Option.bind_eq_some_iff

/-- **An invariant the steps of a run preserve holds at its end**, where it has one. -/
theorem foldlM_of_step (hs : Q s) (hstep : ∀ e ∈ es, ∀ s t, Q s → attempt s e = some t → Q t)
    (hrun : es.foldlM attempt s = some s') : Q s' := by
  induction es generalizing s with
  | nil =>
    obtain rfl : s = s' := by simpa using hrun
    exact hs
  | cons e es ih =>
    rw [List.forall_mem_cons] at hstep
    obtain ⟨t, ht, hrun⟩ := foldlM_cons_eq_some.1 hrun
    exact ih (hstep.1 s t hs ht) hstep.2 hrun

/-- Where each step succeeds from an invariant it preserves, so does the run. -/
theorem exists_foldlM_of_step (hs : Q s) (hstep : ∀ e ∈ es, ∀ s, Q s → ∃ t, attempt s e = some t ∧ Q t) :
    ∃ s', es.foldlM attempt s = some s' ∧ Q s' := by
  induction es generalizing s with
  | nil => exact ⟨s, rfl, hs⟩
  | cons e es ih =>
    rw [List.forall_mem_cons] at hstep
    obtain ⟨t, ht, hQ⟩ := hstep.1 s hs
    obtain ⟨s', hrun, hs'⟩ := ih hQ hstep.2
    exact ⟨s', foldlM_cons_eq_some.2 ⟨t, ht, hrun⟩, hs'⟩

/-- **Every state a run reaches is in `Q` exactly when each of its steps meets the condition
    under which a step from `Q` stays there.** -/
theorem foldlM_reached_iff {P : σ → ε → Prop} (hs : Q s)
    (hstep : ∀ e ∈ es, ∀ s t, Q s → attempt s e = some t → (Q t ↔ P s e)) :
    (∀ before rest t, es = before ++ rest → before.foldlM attempt s = some t → Q t) ↔
      ∀ before e rest t t', es = before ++ e :: rest → before.foldlM attempt s = some t →
        attempt t e = some t' → P t e := by
  constructor
  · intro hall before e rest t t' heq hrun hlast
    have hmem : e ∈ es := heq ▸ List.mem_append_right before List.mem_cons_self
    refine (hstep e hmem t t' (hall before (e :: rest) t heq hrun) hlast).1 ?_
    refine hall (before ++ [e]) rest t' (by rw [heq, List.append_assoc]; rfl) ?_
    rw [List.foldlM_append, hrun]
    exact foldlM_cons_eq_some.2 ⟨t', hlast, rfl⟩
  · intro hall before
    induction before using List.reverseRecOn with
    | nil =>
      intro rest t _ hrun
      obtain rfl : s = t := by simpa using hrun
      exact hs
    | append_singleton before e ih =>
      intro rest t' heq hrun
      rw [List.append_assoc] at heq
      rw [List.foldlM_append] at hrun
      obtain ⟨t, ht, hlast⟩ := Option.bind_eq_some_iff.1 hrun
      obtain ⟨u, hu, hnil⟩ := foldlM_cons_eq_some.1 hlast
      obtain rfl : u = t' := by simpa using hnil
      have hmem : e ∈ es := heq ▸ List.mem_append_right before List.mem_cons_self
      exact (hstep e hmem t u (ih _ t heq ht) hu).2 (hall before e rest t u heq ht hu)

end

end Runs
