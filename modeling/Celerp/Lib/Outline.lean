/-
  Outlines: lines set in under each other by their depth.

  `Outline depth tells d lines`: the lines are, one after the other, lines at depth `d`, each
  followed by an outline of what is under it one deeper; `tells` is what holds of a line and
  the lines under it.

  A line's outline is what stands under it as far as the lines are deeper than it
  (`Outline.tells_under`), so that who reads the depths alone reads what was laid out.
-/
import Mathlib.Data.List.TakeWhile

namespace Outlines

variable {α : Type*}

/-- The lines at a depth, each with the lines under it. -/
inductive Outline (depth : α → ℕ) (tells : α → List α → Prop) : ℕ → List α → Prop
  | nil {d : ℕ} : Outline depth tells d []
  | cons {d : ℕ} {h : α} {below rest : List α} : depth h = d → tells h below → Outline depth tells (d + 1) below →
      Outline depth tells d rest → Outline depth tells d (h :: (below ++ rest))

variable {depth : α → ℕ} {tells : α → List α → Prop} {d : ℕ} {lines rest pre post : List α} {h : α}

/-- The lines under a line: those after it that are deeper than it. -/
def under (depth : α → ℕ) (h : α) (post : List α) : List α := post.takeWhile (depth h < depth ·)

theorem Outline.le_depth (hlines : Outline depth tells d lines) : ∀ l ∈ lines, d ≤ depth l := by
  induction hlines with
  | nil => simp
  | cons hdepth _ _ _ ihbelow ihrest =>
    intro l hl
    rcases List.mem_cons.1 hl with rfl | hl
    · exact hdepth.ge
    · rcases List.mem_append.1 hl with hl | hl
      · exact (Nat.le_succ _).trans (ihbelow l hl)
      · exact ihrest l hl

theorem Outline.append (hlines : Outline depth tells d lines) (hrest : Outline depth tells d rest) :
    Outline depth tells d (lines ++ rest) := by
  induction hlines with
  | nil => exact hrest
  | cons hdepth htells hbelow _ _ ihrest =>
    rw [List.cons_append, List.append_assoc]
    exact .cons hdepth htells hbelow (ihrest hrest)

theorem Outline.single (hdepth : depth h = d) (htells : tells h lines) (hlines : Outline depth tells (d + 1) lines) :
    Outline depth tells d (h :: lines) := by
  simpa using Outline.cons hdepth htells hlines .nil

/-- What is under a line ends where an outline at its depth, or less deep, goes on. -/
theorem Outline.under_append (hrest : Outline depth tells d rest) (hd : d ≤ depth h) :
    under depth h (post ++ rest) = under depth h post := by
  unfold under
  induction post with
  | nil =>
    cases hrest with
    | nil => rfl
    | cons hdepth _ _ _ => exact List.takeWhile_cons_of_neg (by simp [hdepth, hd])
  | cons l post ih =>
    rw [List.cons_append, List.takeWhile_cons, List.takeWhile_cons, ih]

theorem Outline.under_eq (hlines : Outline depth tells (d + 1) lines) (hdepth : depth h = d) :
    under depth h lines = lines := by
  rw [under, List.takeWhile_eq_self_iff]
  intro l hl
  simpa [hdepth] using Nat.lt_of_succ_le (hlines.le_depth l hl)

/-- **A line tells of the lines under it what it was laid out to say.** -/
theorem Outline.tells_under (hlines : Outline depth tells d lines) (heq : lines = pre ++ h :: post) :
    tells h (under depth h post) := by
  induction hlines generalizing pre post with
  | nil => exact absurd heq (by simp)
  | @cons d h₀ below rest hdepth htells hbelow hrest ihbelow ihrest =>
    cases pre with
    | nil =>
      obtain ⟨rfl, rfl⟩ := List.cons.inj heq
      rwa [hrest.under_append hdepth.ge, hbelow.under_eq hdepth]
    | cons h₁ pre =>
      obtain ⟨rfl, hsplit⟩ := List.cons.inj heq
      rcases List.append_eq_append_iff.1 hsplit with ⟨mid, -, hmid⟩ | ⟨mid, hmid, hend⟩
      · exact ihrest hmid
      · cases mid with
        | nil =>
          have hhead : rest = [] ++ h :: post := hend.symm
          exact ihrest hhead
        | cons l mid =>
          obtain ⟨rfl, hpost⟩ := List.cons.inj hend
          obtain rfl : post = mid ++ rest := hpost
          have hdeep : d ≤ depth h := by
            have := hbelow.le_depth h (hmid ▸ List.mem_append_right pre List.mem_cons_self)
            omega
          rw [hrest.under_append hdeep]
          exact ihbelow hmid

end Outlines
