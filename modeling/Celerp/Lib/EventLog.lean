/-
  Tables of rows kept beside a log of the entries that wrote them.

  A `Play` says which record an entry is of, whether it is passed over, and what it makes of
  the record's row.  `row` plays one entry on one row, `playAll` plays a log on a table.

  * `rowOf`: the row the entries of one record make of it, whatever other records they lie
    between (`playAll_spec`);
  * `Kept t log`: the table holds what the log makes of each record.  Writing an entry with
    its row keeps it (`Kept.write`), and so does dropping records with their entries
    (`Kept.drop`);
  * `Kept.replayOf`: playing the entries of some records on the rows of the others gives the
    table back.
-/
import Celerp.Lib.Dicts
import Celerp.Lib.Outcome

namespace EventLog

universe u v w
variable {κ ρ : Type u} {η : Type v} {ε : Type w}

/-- How the entries of a log write the rows of a table. -/
structure Play (κ ρ : Type u) (η : Type v) (ε : Type w) where
  /-- the record an entry is of -/
  key : η → κ
  /-- whether an entry is passed over -/
  skips : Option ρ → η → Bool
  /-- what an entry makes of the row, if there is one -/
  write : Option ρ → η → Except ε ρ

/-- The entries of one record among those of some records. -/
theorem filter_key_and [DecidableEq κ] {key : η → κ} {log : List η} (p : κ → Bool) (k : κ) :
    (log.filter fun e => p (key e)).filter (key · = k) = if p k then log.filter (key · = k) else [] := by
  rw [List.filter_filter]
  split_ifs with hp
  · refine List.filter_congr fun e _ => ?_
    rcases eq_or_ne (key e) k with rfl | hk
    · simp [hp]
    · simp [hk]
  · refine List.filter_eq_nil_iff.2 fun e _ => ?_
    rw [Bool.and_eq_true, decide_eq_true_iff, not_and]
    rintro rfl
    exact hp

namespace Play

/-- One entry on the row of its record. -/
def row (P : Play κ ρ η ε) (r : Option ρ) (e : η) : Except ε (Option ρ) :=
  if P.skips r e then .ok r
  else do
    let r' ← P.write r e
    .ok (some r')

/-- A row there is stays there. -/
theorem isSome_of_row {P : Play κ ρ η ε} {r r' : Option ρ} {e : η} (h : P.row r e = .ok r') (hr : r.isSome) :
    r'.isSome := by
  unfold row at h
  split_ifs at h with hskip
  · cases h
    exact hr
  · obtain ⟨v, -, hv⟩ := Outcome.bind_eq_ok.1 h
    cases hv
    rfl

theorem row_of_write {P : Play κ ρ η ε} {r : Option ρ} {e : η} {v : ρ} (h : P.skips r e = false)
    (hw : P.write r e = .ok v) : P.row r e = .ok (some v) := by
  simp [row, h, hw, bind, Except.bind]

variable [DecidableEq κ] (P : Play κ ρ η ε)

/-- The row that the entries of one record make of it. -/
def rowOf (log : List η) (k : κ) : Except ε (Option ρ) := (log.filter (P.key · = k)).foldlM P.row none

/-- One entry on a table. -/
def step (t : List (κ × ρ)) (e : η) : Except ε (List (κ × ρ)) := do
  let r ← P.row (Dicts.get? t (P.key e)) e
  .ok (match r with
    | some r => Dicts.set t (P.key e) r
    | none => t)

/-- A log on a table. -/
def playAll (t : List (κ × ρ)) (log : List η) : Except ε (List (κ × ρ)) := log.foldlM P.step t

/-- The table holds what the log makes of each record. -/
def Kept (t : List (κ × ρ)) (log : List η) : Prop := ∀ k, P.rowOf log k = .ok (Dicts.get? t k)

/-! ## Playing on rows -/

section
variable {P} {r r' : Option ρ} {e : η} {t t' : List (κ × ρ)} {log es : List η} {k : κ}

/-- What an entry leaves of the rows: its own record's as it plays, the others' as they were. -/
theorem get?_step (h : P.row (Dicts.get? t (P.key e)) e = .ok r') :
    ∃ t', P.step t e = .ok t' ∧ ∀ k, Dicts.get? t' k = if P.key e = k then r' else Dicts.get? t k := by
  cases r' with
  | some v =>
    refine ⟨Dicts.set t (P.key e) v, by simp [step, h, bind, Except.bind], fun k => ?_⟩
    rw [Dicts.get?_set]
    exact if_congr eq_comm rfl rfl
  | none =>
    refine ⟨t, by simp [step, h, bind, Except.bind], fun k => ?_⟩
    split_ifs with hk
    · subst hk
      by_contra hne
      exact absurd (isSome_of_row h (Option.isSome_iff_ne_none.2 hne)) (by simp)
    · rfl

/-- **A log plays on a table when its entries of each record play on the record's row**, and
    leaves what they make of it. -/
theorem playAll_spec {rows : κ → Option ρ}
    (h : ∀ k, (log.filter (P.key · = k)).foldlM P.row (Dicts.get? t k) = .ok (rows k)) :
    ∃ t', P.playAll t log = .ok t' ∧ ∀ k, Dicts.get? t' k = rows k := by
  induction log generalizing t with
  | nil => exact ⟨t, rfl, fun k => Except.ok.inj (h k)⟩
  | cons e log ih =>
    -- the entry plays on its own record's row, and the rest of that record's on what it made
    have hown := h (P.key e)
    rw [List.filter_cons_of_pos (by simp), List.foldlM_cons] at hown
    obtain ⟨r', hr', hown⟩ := Outcome.bind_eq_ok.1 hown
    obtain ⟨t₁, ht₁, hrows⟩ := get?_step hr'
    obtain ⟨t', ht', hspec⟩ := ih (t := t₁) fun k => by
      rw [hrows]
      split_ifs with hk
      · rw [← hk]
        exact hown
      · have := h k
        rwa [List.filter_cons_of_neg (by simpa using hk)] at this
    refine ⟨t', ?_, hspec⟩
    rw [playAll, List.foldlM_cons, ht₁]
    exact ht'

end

/-! ## A table kept -/

section
variable {P} {e : η} {t : List (κ × ρ)} {log : List η} {v : ρ}

theorem kept_nil : P.Kept ([] : List (κ × ρ)) [] := fun _ => rfl

/-- **An entry written with its row keeps the table.** -/
theorem Kept.write (h : P.Kept t log) (hs : P.skips (Dicts.get? t (P.key e)) e = false)
    (hw : P.write (Dicts.get? t (P.key e)) e = .ok v) : P.Kept (Dicts.set t (P.key e) v) (log ++ [e]) := by
  intro k
  have hrow : (log.filter (P.key · = k)).foldlM P.row none = .ok (Dicts.get? t k) := h k
  rw [rowOf, List.filter_append, List.foldlM_append, hrow, Dicts.get?_set]
  split_ifs with hk
  · subst hk
    rw [List.filter_cons_of_pos (by simp)]
    change P.row _ e >>= pure = _
    rw [row_of_write hs hw]
    rfl
  · rw [List.filter_cons_of_neg (by simpa using fun h => hk h.symm)]
    rfl

/-- **Records dropped with their entries** leave the table kept. -/
theorem Kept.drop (h : P.Kept t log) (p : κ → Bool) :
    P.Kept (t.filter fun f => !p f.1) (log.filter fun e => !p (P.key e)) := by
  intro k
  unfold rowOf
  rw [filter_key_and fun k => !p k, Dicts.get?_filter_key fun k => !p k]
  split_ifs with hp
  · exact h k
  · rfl

/-- **Playing the entries of some records on the rows of the others gives the table back.** -/
theorem Kept.replayOf (h : P.Kept t log) (p : κ → Bool) :
    ∃ t', P.playAll (t.filter fun f => !p f.1) (log.filter fun e => p (P.key e)) = .ok t' ∧
      ∀ k, Dicts.get? t' k = Dicts.get? t k := by
  refine playAll_spec fun k => ?_
  rw [filter_key_and p, Dicts.get?_filter_key fun k => !p k]
  cases hp : p k with
  | true => exact h k
  | false => rfl

end

/-- Plays that agree on the entries of a log play it alike. -/
theorem playAll_congr {P Q : Play κ ρ η ε} {log : List η} {t : List (κ × ρ)}
    (h : ∀ e ∈ log, P.key e = Q.key e ∧ ∀ r, P.row r e = Q.row r e) : P.playAll t log = Q.playAll t log := by
  induction log generalizing t with
  | nil => rfl
  | cons e log ih =>
    rw [List.forall_mem_cons] at h
    have hstep : P.step t e = Q.step t e := by rw [step, step, h.1.1, h.1.2]
    rw [playAll, playAll, List.foldlM_cons, List.foldlM_cons, hstep]
    exact Outcome.bind_congr_of_ok fun t' _ => ih h.2

end Play

end EventLog
