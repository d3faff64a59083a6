/-
  Rows that hold an amount on an account each, and what an account carries of them.

  `carried H k rows` is what the rows on the account `k` hold.  A row set changes it by what the
  row holds then, less what it held (`carried_set`), and rows taken out by what they held
  (`carried_filter`).
-/
import Celerp.Lib.Dicts
import Mathlib.Algebra.BigOperators.Group.List.Basic
import Mathlib.Tactic.Abel

namespace Holdings

variable {ι κ ρ α : Type*} [DecidableEq κ] [AddCommGroup α]

/-- Which account a row is on, if it is on one, and what it holds. -/
structure Holding (κ ρ α : Type*) where
  account : ρ → Option κ
  held : ρ → α

/-- What a row holds on an account. -/
def Holding.share (H : Holding κ ρ α) (k : κ) (r : ρ) : α := if H.account r = some k then H.held r else 0

/-- What the rows hold on an account. -/
def carried (H : Holding κ ρ α) (k : κ) (rows : List (ι × ρ)) : α := (rows.map fun f => H.share k f.2).sum

section
variable {H : Holding κ ρ α} {k : κ} {rows : List (ι × ρ)} {r : ρ}

theorem share_of_account (h : H.account r = some k) : H.share k r = H.held r := if_pos h

theorem share_of_ne (h : H.account r ≠ some k) : H.share k r = 0 := if_neg h

theorem share_of_held (h : H.held r = 0) : H.share k r = 0 := by
  unfold Holding.share
  split_ifs
  · exact h
  · rfl

@[simp] theorem carried_nil : carried H k ([] : List (ι × ρ)) = 0 := rfl

theorem carried_cons {f : ι × ρ} : carried H k (f :: rows) = H.share k f.2 + carried H k rows := by
  rw [carried, List.map_cons, List.sum_cons]
  rfl

/-- **Setting a row.** -/
theorem carried_set [DecidableEq ι] {i : ι} : carried H k (Dicts.set rows i r) =
    carried H k rows - ((Dicts.get? rows i).elim 0 (H.share k)) + H.share k r := by
  induction rows with
  | nil =>
    rw [Dicts.set, carried_cons]
    simp
  | cons f rows ih =>
    rw [Dicts.set, Dicts.get?_cons, carried_cons]
    by_cases hf : f.1 = i
    · rw [if_pos hf, if_pos hf.symm, carried_cons, Option.elim_some]
      abel
    · rw [if_neg hf, if_neg (Ne.symm hf), carried_cons, ih]
      abel

/-- **Taking rows out.** -/
theorem carried_filter (rows : List (ι × ρ)) (p : ι × ρ → Bool) :
    carried H k rows = carried H k (rows.filter p) + carried H k (rows.filter fun f => !p f) := by
  induction rows with
  | nil => simp
  | cons f rows ih =>
    rw [carried_cons, ih]
    cases hp : p f with
    | true =>
      rw [List.filter_cons_of_pos hp, List.filter_cons_of_neg (by simp [hp]), carried_cons]
      abel
    | false =>
      rw [List.filter_cons_of_neg (by simp [hp]), List.filter_cons_of_pos (by simp [hp]), carried_cons]
      abel

theorem carried_perm {rows' : List (ι × ρ)} (h : rows'.Perm rows) : carried H k rows' = carried H k rows :=
  (h.map _).sum_eq

end

end Holdings
