/-
  Minting: taking the next members of a sequence that are not in use.

  `mint code used count` goes through the members of `code` from a candidate on and keeps
  those not in use until there are `count`.

  Where the members are distinct and those in use are among finitely many, so many members
  more than `count` suffice (`mint_eq_some`), and what is kept is `count` members, all distinct
  and none in use (`Minted`).
-/
import Mathlib.Data.List.Nodup
import Mathlib.Logic.Function.Basic

namespace Minting

variable {α : Type*} {code : ℕ → α} {used : α → Bool} {count fuel candidate : ℕ} {codes : List α}

/-- Go on through the sequence until there are `count` members not in use. -/
def mint (code : ℕ → α) (used : α → Bool) (count : ℕ) : ℕ → List α → ℕ → Option (List α)
  | fuel, codes, candidate =>
    if codes.length < count then
      match fuel with
      | 0 => none
      | fuel + 1 =>
        mint code used count fuel (if used (code candidate) then codes else codes ++ [code candidate]) (candidate + 1)
    else some codes

/-- Members kept before a candidate: distinct, not in use, and members of the sequence before
    it. -/
structure Minted (code : ℕ → α) (used : α → Bool) (candidate : ℕ) (codes : List α) : Prop where
  nodup : codes.Nodup
  free : ∀ c ∈ codes, used c = false
  before : ∀ c ∈ codes, ∃ n < candidate, code n = c

theorem Minted.nil : Minted code used candidate [] := ⟨List.nodup_nil, by simp, by simp⟩

theorem Minted.skip (h : Minted code used candidate codes) : Minted code used (candidate + 1) codes where
  nodup := h.nodup
  free := h.free
  before c hc := by
    obtain ⟨n, hn, heq⟩ := h.before c hc
    exact ⟨n, by omega, heq⟩

theorem Minted.keep (h : Minted code used candidate codes) (hcode : code.Injective)
    (hfree : used (code candidate) = false) : Minted code used (candidate + 1) (codes ++ [code candidate]) where
  nodup := by
    rw [List.nodup_append']
    refine ⟨h.nodup, List.nodup_singleton _, fun c hc hone => ?_⟩
    obtain rfl := List.mem_singleton.1 hone
    obtain ⟨n, hn, heq⟩ := h.before _ hc
    exact absurd (hcode heq) (by omega)
  free := by
    intro c hc
    rcases List.mem_append.1 hc with hc | hc
    · exact h.free c hc
    · exact List.mem_singleton.1 hc ▸ hfree
  before := by
    intro c hc
    rcases List.mem_append.1 hc with hc | hc
    · exact h.skip.before c hc
    · exact ⟨candidate, by omega, (List.mem_singleton.1 hc).symm⟩

/-- **Minting ends with as many as asked for.**  Each member passed over is one of those in
    use, and each of these is passed over once. -/
theorem mint_eq_some [DecidableEq α] (hcode : code.Injective) {held : List α}
    (hheld : ∀ n, candidate ≤ n → used (code n) = true → code n ∈ held) (hminted : Minted code used candidate codes)
    (hlength : codes.length ≤ count) (hfuel : count + held.length ≤ fuel + codes.length) :
    ∃ minted after, mint code used count fuel codes candidate = some minted ∧ minted.length = count ∧
      Minted code used after minted := by
  induction fuel generalizing candidate held codes with
  | zero =>
    have hdone : ¬codes.length < count := by omega
    exact ⟨codes, candidate, by rw [mint, if_neg hdone], by omega, hminted⟩
  | succ fuel ih =>
    rw [mint]
    split_ifs with hmore hused
    · -- a member in use: one fewer of these is left to come
      have hmem : code candidate ∈ held := hheld candidate (Nat.le_refl _) hused
      have hpos := List.length_pos_of_mem hmem
      have herase := List.length_erase_of_mem hmem
      refine ih (fun n hn hn' => ?_) hminted.skip hlength (by omega : count + (held.erase (code candidate)).length ≤ _)
      refine (List.mem_erase_of_ne fun heq => ?_).2 (hheld n (by omega) hn')
      exact absurd (hcode heq) (by omega)
    · have hfree : used (code candidate) = false := by simpa using hused
      have hone : (codes ++ [code candidate]).length = codes.length + 1 := List.length_append
      exact ih (fun n hn => hheld n (by omega)) (hminted.keep hcode hfree) (by omega) (by omega)
    · exact ⟨codes, candidate, rfl, by omega, hminted⟩

end Minting
