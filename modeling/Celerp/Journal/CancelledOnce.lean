/-
  A journal entry is cancelled at most once, over any run of events.

  `Journal.Sound` is the invariant: entries are written before their reversals, which take
  their lines back, and none is cancelled twice.  An event keeps it where the chain it
  writes to is judged (`step_sound`); in a sound journal an entry with the whole tree of its
  reversals moves what the entry moves, or nothing (`netOnce_of_sound`).
-/
import Celerp.Journal.Reversals
import Celerp.Lib.Runs

namespace Celerp

open Outcome

section
variable {rows rest pre : List JournalRow} {r p : JournalRow} {jeId : String} {account : String}

/-- The reversals of an entry that stand. -/
abbrev standingOf (rows : List JournalRow) (jeId : String) : List JournalRow :=
  Chains.standingAfter JournalRow.entityId JournalRow.reverses JournalRow.posted rows jeId

/-- Entries are written before their reversals. -/
abbrev WrittenFirst (rows : List JournalRow) : Prop :=
  Chains.Founded JournalRow.entityId JournalRow.reverses [] rows

/-- No entry is cancelled twice. -/
abbrev OnceEach (rows : List JournalRow) : Prop :=
  Chains.Once JournalRow.entityId JournalRow.reverses JournalRow.posted JournalRow.voided rows

/-- The invariant of the entries of a journal. -/
structure SoundRows (rows : List JournalRow) : Prop where
  writtenFirst : WrittenFirst rows
  swapped : ∀ r ∈ rows, ∀ p ∈ rows, r.reverses = some p.entityId → r.lines = p.lines.map Line.swap
  undrafted : ∀ r ∈ rows, ∀ p ∈ rows, r.reverses = some p.entityId → r.status = .posted → p.status ≠ .draft
  once : OnceEach rows

/-! ## What a sound journal moves -/

theorem standingOf_cons : standingOf (r :: rest) jeId =
    (if r.reverses = some jeId ∧ r.posted ∧ (standingOf rest r.entityId).isEmpty then [r] else []) ++
      standingOf rest jeId := rfl

theorem standingOf_append (h : ∀ s ∈ pre, s.reverses ≠ some jeId) : standingOf (pre ++ rest) jeId = standingOf rest jeId := by
  induction pre with
  | nil => rfl
  | cons s pre ih =>
    have hs := h s List.mem_cons_self
    rw [List.cons_append, standingOf_cons, if_neg (fun hc => hs hc.1), List.nil_append]
    exact ih fun t ht => h t (List.mem_cons_of_mem s ht)

theorem reversalsNet_append (h : ∀ s ∈ pre, s.reverses ≠ some jeId) :
    reversalsNet account (pre ++ rest) jeId = reversalsNet account rest jeId := by
  induction pre with
  | nil => rfl
  | cons s pre ih =>
    have hs := h s List.mem_cons_self
    rw [List.cons_append, reversalsNet, if_neg hs, zero_add]
    exact ih fun t ht => h t (List.mem_cons_of_mem s ht)

/-- What an entry and its reversals move: the entry's own lines where it stands, else
    nothing. -/
def standingNet (account : String) (rest : List JournalRow) (r : JournalRow) : ℚ :=
  if r.posted ∧ (standingOf rest r.entityId).isEmpty then net account r.lines else 0

theorem moved_add_standing (account : String) (h : SoundRows rows) (hrows : rows = pre ++ r :: rest) :
    r.moved account + ((standingOf rest r.entityId).map fun s => net account s.lines).sum =
      standingNet account rest r := by
  have hr : r ∈ rows := by simp [hrows]
  have hstanding : standingOf rows r.entityId = standingOf rest r.entityId := by
    have hfounded := h.writtenFirst
    rw [hrows] at hfounded ⊢
    have hsplit : pre ++ r :: rest = (pre ++ [r]) ++ rest := by simp
    rw [hsplit]
    exact standingOf_append hfounded.target_ne
  obtain ⟨hsame, hvoid⟩ : (∀ s ∈ standingOf rows r.entityId, ∀ t ∈ standingOf rows r.entityId, s = t) ∧
      (r.voided → standingOf rows r.entityId = []) := h.once r hr
  rw [hstanding] at hsame hvoid
  have hmem : ∀ s ∈ standingOf rest r.entityId, s ∈ rows ∧ s.reverses = some r.entityId ∧ s.posted := by
    intro s hs
    obtain ⟨p, q, heq, hreverses, hposted, -⟩ := Chains.mem_standingAfter.1 hs
    refine ⟨?_, hreverses, hposted⟩
    simp [hrows, heq]
  rw [standingNet, JournalRow.moved]
  have hnodup : (standingOf rest r.entityId).Nodup := by
    rw [← hstanding]
    exact (List.Nodup.of_map _ h.writtenFirst.nodup).sublist Chains.standingAfter_sublist
  cases hlist : standingOf rest r.entityId with
  | nil => simp
  | cons s others =>
    rw [hlist] at hsame hvoid hmem hnodup
    have hnone : others = [] := by
      rw [List.eq_nil_iff_forall_not_mem]
      intro t ht
      obtain rfl := hsame s List.mem_cons_self t (List.mem_cons_of_mem s ht)
      exact (List.nodup_cons.1 hnodup).1 ht
    obtain ⟨hs, hreverses, hposted⟩ := hmem s List.mem_cons_self
    subst hnone
    have hdraft := h.undrafted s hs r hr hreverses (by simpa [JournalRow.posted] using hposted)
    have hnotvoid : r.voided = false := by
      cases hv : r.voided with
      | false => rfl
      | true => exact absurd (hvoid hv) (by simp)
    have hrposted : r.posted = true := by
      cases hstatus : r.status with
      | posted => simp [JournalRow.posted, hstatus]
      | void => simp [JournalRow.voided, hstatus] at hnotvoid
      | draft => exact absurd hstatus hdraft
    simp [hrposted, h.swapped s hs r hr hreverses, net_swap]

/-- What the reversals of an entry move is what those that stand are lines of. -/
theorem reversalsNet_eq (h : SoundRows rows) (hrows : rows = pre ++ rest) :
    reversalsNet account rest jeId = ((standingOf rest jeId).map fun s => net account s.lines).sum := by
  induction rest generalizing pre jeId with
  | nil => simp [reversalsNet, standingOf, Chains.standingAfter]
  | cons r rest ih =>
    have hrest : rows = (pre ++ [r]) ++ rest := by simp [hrows]
    rw [reversalsNet, ih hrest, ih hrest, moved_add_standing account h hrows, standingOf_cons, List.map_append,
      List.sum_append, standingNet]
    congr 1
    by_cases hr : r.reverses = some jeId
    · by_cases hstands : r.posted ∧ (standingOf rest r.entityId).isEmpty
      · rw [if_pos hr, if_pos hstands, if_pos ⟨hr, hstands⟩]
        simp
      · rw [if_pos hr, if_neg hstands, if_neg fun hc => hstands hc.2]
        simp
    · rw [if_neg hr, if_neg fun hc => hr hc.1]
      simp

/-- **In a sound journal an entry with the whole tree of its reversals moves what the entry
    moves, or nothing.** -/
theorem netOnce_of_sound {journal : Journal} (h : SoundRows journal.rows) : NetOnce journal := by
  intro r hr account
  obtain ⟨pre, rest, hrows⟩ := List.append_of_mem hr
  have hnet := moved_add_standing account h hrows
  have htree : treeNet account journal.rows r = standingNet account rest r := by
    have hsplit : journal.rows = (pre ++ [r]) ++ rest := by simp [hrows]
    have hfounded := h.writtenFirst
    rw [treeNet, ← hnet, ← reversalsNet_eq h hsplit]
    congr 1
    rw [hsplit]
    rw [hrows] at hfounded
    exact reversalsNet_append hfounded.target_ne
  rw [htree, standingNet]
  split_ifs
  · exact Or.inl rfl
  · exact Or.inr rfl

end

/-! ## What an event writes -/

section
variable {rows nodes : List JournalRow} {r p : JournalRow} {jeId a : String} {status : JeStatus} {n : ℕ}

theorem judged_of_ok {v : Option String} (h : judgeChain n nodes v = .ok ()) :
    Chains.Judged JournalRow.entityId JournalRow.reverses JournalRow.posted JournalRow.voided n nodes := by
  rw [judgeChain] at h
  split at h
  · rename_i hnone
    intro p hp
    have hle := List.find?_eq_none.1 hnone p hp
    rw [decide_eq_true_eq, not_lt] at hle
    exact hle
  · split at h
    · split_ifs at h
    · cases h

theorem closed_journalChain (jeId : String) (h : SoundRows rows) :
    Chains.Closed JournalRow.entityId JournalRow.reverses rows (journalChain rows jeId) ∧
      ∀ r ∈ rows, r.entityId = jeId → r ∈ journalChain rows jeId :=
  Chains.closed_chain h.writtenFirst.nodup jeId

/-- An entry with its status set where it is the one of an id. -/
def statusSet (jeId : String) (status : JeStatus) (r : JournalRow) : JournalRow :=
  if r.entityId = jeId then { r with status } else r

theorem withStatus_eq : withStatus rows jeId status = rows.map (statusSet jeId status) := rfl

section
variable (jeId : String) (status : JeStatus) (r : JournalRow)

@[simp] theorem statusSet_entityId : (statusSet jeId status r).entityId = r.entityId := by
  rw [statusSet]
  split_ifs <;> rfl

@[simp] theorem statusSet_reverses : (statusSet jeId status r).reverses = r.reverses := by
  rw [statusSet]
  split_ifs <;> rfl

@[simp] theorem statusSet_lines : (statusSet jeId status r).lines = r.lines := by
  rw [statusSet]
  split_ifs <;> rfl

theorem statusSet_status : (statusSet jeId status r).status = if r.entityId = jeId then status else r.status := by
  rw [statusSet]
  split_ifs <;> rfl

end

/-- **An entry's status set keeps the journal sound** where its chain is judged with it, and
    a reversal is not posted of a draft. -/
theorem withStatus_sound (h : SoundRows rows) (hstatus : status ≠ .draft)
    (hposted : status = .posted → ∀ r ∈ rows, r.entityId = jeId → ∀ p ∈ rows, r.reverses = some p.entityId →
      p.status ≠ .draft)
    (hj : ∃ r ∈ rows, r.entityId = jeId) (hn : rows.length < n)
    (hjudged : Chains.Judged JournalRow.entityId JournalRow.reverses JournalRow.posted JournalRow.voided n
      (withStatus (journalChain rows jeId) jeId status)) : SoundRows (withStatus rows jeId status) := by
  have hid := statusSet_entityId jeId status
  have htarget := statusSet_reverses jeId status
  have hfounded : WrittenFirst (withStatus rows jeId status) := (Chains.founded_map hid htarget).2 h.writtenFirst
  refine ⟨hfounded, ?_, ?_, ?_⟩
  · intro r hr p hp ht
    obtain ⟨q, hq, rfl⟩ := List.mem_map.1 hr
    obtain ⟨o, ho, rfl⟩ := List.mem_map.1 hp
    have ht' : (statusSet jeId status q).reverses = some (statusSet jeId status o).entityId := ht
    rw [htarget, hid] at ht'
    have hlines := h.swapped q hq o ho ht'
    show (statusSet jeId status q).lines = (statusSet jeId status o).lines.map Line.swap
    rwa [statusSet_lines, statusSet_lines]
  · intro r hr p hp ht hrposted
    obtain ⟨q, hq, rfl⟩ := List.mem_map.1 hr
    obtain ⟨o, ho, rfl⟩ := List.mem_map.1 hp
    have ht' : (statusSet jeId status q).reverses = some (statusSet jeId status o).entityId := ht
    have hq' : (statusSet jeId status q).status = .posted := hrposted
    show (statusSet jeId status o).status ≠ .draft
    rw [htarget, hid] at ht'
    rw [statusSet_status] at hq' ⊢
    split_ifs with ho'
    · exact hstatus
    · split_ifs at hq' with hq''
      · exact hposted hq' q hq hq'' o ho ht'
      · exact h.undrafted q hq o ho ht' hq'
  · obtain ⟨hclosed, hmem⟩ := closed_journalChain jeId h
    have hin : jeId ∈ (withStatus (journalChain rows jeId) jeId status).map JournalRow.entityId := by
      obtain ⟨r, hr, heq⟩ := hj
      refine List.mem_map.2 ⟨statusSet jeId status r, List.mem_map_of_mem (hmem r hr heq), ?_⟩
      rw [hid, heq]
    refine Chains.once_of_judged h.writtenFirst hfounded hn (by rwa [withStatus, List.length_map])
      (Chains.closed_map hid htarget hclosed) hjudged ?_ ?_ h.once
    · intro r hout
      have hne : r.entityId ≠ jeId := fun heq => hout (heq ▸ hin)
      constructor
      · intro hr
        refine List.mem_map.2 ⟨r, hr, ?_⟩
        rw [if_neg hne]
      · intro hr
        obtain ⟨q, hq, heq⟩ := List.mem_map.1 hr
        split_ifs at heq with hq'
        · rw [← heq] at hne
          exact absurd hq' hne
        · exact heq ▸ hq
    · intro r hr
      exact ⟨statusSet jeId status r, List.mem_map_of_mem hr, hid r, htarget r⟩

theorem once_append_dead {x : JournalRow} (h : SoundRows rows) (hnone : ∀ s ∈ rows ++ [x], s.reverses ≠ some x.entityId)
    (hdead : x.reverses = none ∨ x.posted = false) : OnceEach (rows ++ [x]) := by
  have hread : ∀ a, standingOf (rows ++ [x]) a = standingOf rows a := fun a => Chains.standingAfter_append_dead hdead
  intro p hp
  show (∀ r ∈ standingOf (rows ++ [x]) p.entityId, ∀ s ∈ standingOf (rows ++ [x]) p.entityId, r = s) ∧
    (p.voided → standingOf (rows ++ [x]) p.entityId = [])
  rw [hread]
  rcases List.mem_append.1 hp with hp | hp
  · exact h.once p hp
  · have hnil : standingOf rows p.entityId = [] := by
      rw [List.eq_nil_iff_forall_not_mem]
      intro r hr
      obtain ⟨pre, rest, heq, ht, -⟩ := Chains.mem_standingAfter.1 hr
      rw [List.mem_singleton.1 hp] at ht
      exact hnone r (by simp [heq]) ht
    rw [hnil]
    exact ⟨by simp, fun _ => rfl⟩

/-- **A new entry keeps the journal sound**: one that reverses none, or a reversal of an
    entry that takes its lines back, whose chain is judged with it, and which is not posted
    of a draft. -/
theorem append_sound {x : JournalRow} (h : SoundRows rows) (hnew : ∀ r ∈ rows, r.entityId ≠ x.entityId)
    (hx : ∀ a, x.reverses = some a → ∃ p ∈ rows, p.entityId = a ∧ x.lines = p.lines.map Line.swap ∧
      (x.status = .posted → p.status ≠ .draft))
    (hn : rows.length + 1 < n)
    (hjudged : ∀ a, x.reverses = some a →
      Chains.Judged JournalRow.entityId JournalRow.reverses JournalRow.posted JournalRow.voided n
        (journalChain rows a ++ [newReversal x.entityId a])) :
    SoundRows (rows ++ [x]) := by
  have hfounded : WrittenFirst (rows ++ [x]) := by
    refine Chains.founded_append.2 ⟨h.writtenFirst, ?_, ?_, trivial⟩
    · intro hmem
      rw [List.append_nil, List.mem_reverse] at hmem
      obtain ⟨r, hr, heq⟩ := List.mem_map.1 hmem
      exact hnew r hr heq
    · intro a ha
      obtain ⟨p, hp, rfl, -⟩ := hx a ha
      simp only [List.append_nil, List.mem_reverse]
      exact List.mem_map_of_mem hp
  -- nothing reverses an entry before it is written
  have hnone : ∀ s ∈ rows ++ [x], s.reverses ≠ some x.entityId := by
    have hfounded' : WrittenFirst (rows ++ x :: []) := hfounded
    exact hfounded'.target_ne
  have hold : ∀ {r p : JournalRow}, r ∈ rows ++ [x] → p ∈ rows ++ [x] → r.reverses = some p.entityId → p ∈ rows := by
    intro r p hr hp ht
    rcases List.mem_append.1 hp with hp | hp
    · exact hp
    · rw [List.mem_singleton.1 hp] at ht
      exact absurd ht (hnone r hr)
  have hparent : ∀ p ∈ rows, x.reverses = some p.entityId → x.lines = p.lines.map Line.swap ∧
      (x.status = .posted → p.status ≠ .draft) := by
    intro p hp ht
    obtain ⟨q, hq, heq, hq'⟩ := hx _ ht
    obtain rfl := List.inj_on_of_nodup_map h.writtenFirst.nodup hq hp heq
    exact hq'
  refine ⟨hfounded, fun r hr p hp ht => ?_, fun r hr p hp ht hposted => ?_, ?_⟩
  · have hp' := hold hr hp ht
    rcases List.mem_append.1 hr with hr | hr
    · exact h.swapped r hr p hp' ht
    · rw [List.mem_singleton.1 hr] at ht ⊢
      exact (hparent p hp' ht).1
  · have hp' := hold hr hp ht
    rcases List.mem_append.1 hr with hr | hr
    · exact h.undrafted r hr p hp' ht hposted
    · rw [List.mem_singleton.1 hr] at ht hposted
      exact (hparent p hp' ht).2 hposted
  · cases hreverses : x.reverses with
    | none => exact once_append_dead h hnone (Or.inl hreverses)
    | some a =>
      cases hposted : x.posted with
      | false => exact once_append_dead h hnone (Or.inr hposted)
      | true =>
        obtain ⟨hclosed, hmem⟩ := closed_journalChain a h
        have hin : ∀ r ∈ journalChain rows a, r.entityId ≠ x.entityId := fun r hr => hnew r (hclosed.sub r hr)
        have hstub : (newReversal x.entityId a).entityId = x.entityId := rfl
        -- the chain was judged with a stand-in for the new entry
        have hmap : ((journalChain rows a ++ [newReversal x.entityId a]).map fun r =>
            if r.entityId = x.entityId then x else r) = journalChain rows a ++ [x] := by
          rw [List.map_append, List.map_singleton, newReversal, if_pos rfl]
          congr 1
          conv_rhs => rw [← List.map_id (journalChain rows a)]
          exact List.map_congr_left fun r hr => if_neg (hin r hr)
        have hcases : ∀ {r : JournalRow}, r ∈ journalChain rows a ++ [newReversal x.entityId a] →
            (if r.entityId = x.entityId then x else r) = r ∨
              r = newReversal x.entityId a := by
          intro r hr
          rcases List.mem_append.1 hr with hr | hr
          · exact Or.inl (if_neg (hin r hr))
          · exact Or.inr (List.mem_singleton.1 hr)
        have hvoided : x.voided = false := by
          have hstatus : x.status = .posted := by simpa [JournalRow.posted] using hposted
          simp [JournalRow.voided, hstatus]
        have hjudged' : Chains.Judged JournalRow.entityId JournalRow.reverses JournalRow.posted JournalRow.voided n
            (journalChain rows a ++ [x]) := by
          rw [← hmap]
          refine Chains.judged_map (fun r => ?_) (fun r hr => ?_) (fun r hr => ?_) (fun r hr => ?_) (hjudged a hreverses)
          · split_ifs with heq
            · exact heq.symm
            · rfl
          · rcases hcases hr with heq | rfl
            · rw [heq]
            · rw [if_pos hstub, hreverses]
              rfl
          · rcases hcases hr with heq | rfl
            · rw [heq]
            · rw [if_pos hstub, hposted]
              rfl
          · rcases hcases hr with heq | rfl
            · rw [heq]
            · rw [if_pos hstub, hvoided]
              rfl
        have hnodes : ∀ p ∈ rows, x.reverses = some p.entityId → p ∈ journalChain rows a := by
          intro p hp ht
          exact hmem p hp (Option.some.inj (ht.symm.trans hreverses))
        refine Chains.once_of_judged h.writtenFirst hfounded (by omega) (by simpa using hn)
          (Chains.closed_append hclosed hfounded hnodes) hjudged' (fun r hout => ?_) (fun r hr => ?_) h.once
        · constructor
          · intro hr
            exact List.mem_append_left _ hr
          · intro hr
            rcases List.mem_append.1 hr with hr | hr
            · exact hr
            · rw [List.mem_singleton.1 hr] at hout
              exact absurd (by simp) hout
        · exact ⟨r, List.mem_append_left _ hr, rfl, rfl⟩

end

/-! ## Any run of events -/

/-- The event is one of a company at work: it restores no backup, repeats a write or writes
    a new entry, posts or voids one the journal has, and what reverses an entry takes its
    lines back. -/
def PlainEvent (journal : Journal) (e : JournalEvent) : Prop :=
  e.restoring = false ∧ (e.key ∈ journal.keys ∨
    match e.write with
    | .created data => journal.get? e.entityId = none ∧ ∀ a ∈ data.reverses, ∃ p ∈ journal.get? a,
        data.lines = some (p.lines.map Line.swap)
    | .posted | .voided => journal.get? e.entityId ≠ none)

/-- The chain of what the event writes is judged, or need not be: a void is of a manual
    entry or of one whose chain holds with it void; posting is of an entry whose chain holds
    with it posted; and nothing posted reverses a draft. -/
def JudgedEvent (journal : Journal) (e : JournalEvent) : Prop :=
  e.key ∈ journal.keys ∨
    match e.write with
    | .created data => data.status.getD .posted = .posted → ∀ a ∈ data.reverses, ∀ p ∈ journal.get? a, p.status ≠ .draft
    | .posted => (∀ r ∈ journal.get? e.entityId, ∀ a ∈ r.reverses, ∀ p ∈ journal.get? a, p.status ≠ .draft) ∧
        Succeeds (journal.judgeWith e.entityId .posted)
    | .voided => ∀ r ∈ journal.get? e.entityId, r.jeType = some "manual" ∨ Succeeds (journal.judgeWith e.entityId .void)

/-- The event is accepted. -/
def AcceptedEvent (journal : Journal) (e : JournalEvent) : Prop := Succeeds (journal.emit e)

section
variable {journal journal' : Journal} {e : JournalEvent} {r : JournalRow} {a : String}

theorem get?_journal (h : journal.get? a = some r) : r ∈ journal.rows ∧ r.entityId = a :=
  ⟨List.mem_of_find?_eq_some h, by simpa using List.find?_some h⟩

theorem get?_journal_of_mem (h : (journal.rows.map JournalRow.entityId).Nodup) (hr : r ∈ journal.rows) :
    journal.get? r.entityId = some r := by
  cases hget : journal.get? r.entityId with
  | none => exact absurd (List.find?_eq_none.1 hget r hr) (by simp)
  | some s =>
    obtain ⟨hs, hid⟩ := get?_journal hget
    rw [List.inj_on_of_nodup_map h hs hr hid]

/-- A journal judged with an entry's status set. -/
theorem judged_of_judgeWith {status : JeStatus} (h : SoundRows journal.rows) (hr : journal.get? a = some r)
    (hjudge : Succeeds (journal.judgeWith a status)) :
    Chains.Judged JournalRow.entityId JournalRow.reverses JournalRow.posted JournalRow.voided journal.depth
      (withStatus (journalChain journal.rows a) a status) := by
  obtain ⟨hmem, hid⟩ := get?_journal hr
  obtain ⟨u, hu⟩ := hjudge
  rw [Journal.judgeWith] at hu
  rw [if_pos (List.mem_map.2 ⟨r, (closed_journalChain a h).2 r hmem hid, hid⟩)] at hu
  exact judged_of_ok hu

/-- The entries after an event that sets a status. -/
theorem apply_status {status : JeStatus} (h : (journal.rows.map JournalRow.entityId).Nodup)
    (hr : journal.get? e.entityId = some r)
    (hwrite : applyWrite e.entityId (some r) e.write = { r with status }) :
    (journal.apply e).rows = withStatus journal.rows e.entityId status := by
  simp only [Journal.apply, hr, withStatus]
  refine List.map_congr_left fun s hs => ?_
  split_ifs with heq
  · have hsr := get?_journal_of_mem h hs
    rw [heq, hr] at hsr
    rw [hwrite, Option.some.inj hsr]
  · rfl

/-- **An accepted event keeps the journal sound** where its chain is judged. -/
theorem step_sound (h : SoundRows journal.rows) (haccepted : AcceptedEvent journal e) (hplain : PlainEvent journal e)
    (hjudged : JudgedEvent journal e) : SoundRows (journal.step e).rows := by
  obtain ⟨journal', hemit⟩ := haccepted
  rw [Journal.step, hemit]
  show SoundRows journal'.rows
  obtain ⟨⟨⟩, hguard, hemit⟩ : ∃ u, journal.guardEvent e = .ok u ∧
      (if e.key ∈ journal.keys then journal else journal.apply e) = journal' := by
    rw [Journal.emit] at hemit
    cases hguard : journal.guardEvent e with
    | error err => rw [hguard] at hemit; cases hemit
    | ok u => rw [hguard] at hemit; exact ⟨u, rfl, Except.ok.inj hemit⟩
  split_ifs at hemit with hkey
  · exact hemit ▸ h
  · subst hemit
    obtain ⟨hrestoring, hplain⟩ := hplain
    rw [or_iff_right hkey] at hplain
    rw [JudgedEvent, or_iff_right hkey] at hjudged
    rw [Journal.guardEvent, hrestoring] at hguard
    cases hwrite : e.write with
    | created data =>
      rw [hwrite] at hplain hjudged hguard
      obtain ⟨hnone, hreversed⟩ := hplain
      have hrows : (journal.apply e).rows = journal.rows ++ [applyWrite e.entityId none (.created data)] := by
        simp only [Journal.apply, hnone, hwrite]
      have hnew : ∀ s ∈ journal.rows, s.entityId ≠ e.entityId := by
        intro s hs heq
        exact List.find?_eq_none.1 hnone s hs (by simp [heq])
      rw [hrows]
      refine append_sound h hnew (fun a ha => ?_) (n := journal.depth) (by simp [Journal.depth]) (fun a ha => ?_)
      · obtain ⟨p, hp, hlines⟩ := hreversed a ha
        obtain ⟨hmem, hid⟩ := get?_journal hp
        refine ⟨p, hmem, hid, ?_, fun hposted => hjudged hposted a ha p hp⟩
        show data.lines.getD [] = p.lines.map Line.swap
        rw [hlines, Option.getD_some]
      · have hreverses : data.reverses = some a := ha
        have hguard' : journal.requireReversedOnce e.entityId a = .ok () := by simpa [hreverses] using hguard
        have hout : e.entityId ∉ (journalChain journal.rows a).map JournalRow.entityId := by
          intro hmem
          obtain ⟨s, hs, heq⟩ := List.mem_map.1 hmem
          exact hnew s ((closed_journalChain a h).1.sub s hs) heq
        rw [Journal.requireReversedOnce, if_neg hout] at hguard'
        exact judged_of_ok hguard'
    | posted =>
      rw [hwrite] at hplain hjudged
      obtain ⟨r, hr⟩ := Option.ne_none_iff_exists'.1 hplain
      obtain ⟨hdraft, hjudge⟩ := hjudged
      obtain ⟨hmem, hid⟩ := get?_journal hr
      rw [apply_status h.writtenFirst.nodup hr (by rw [hwrite]; rfl)]
      refine withStatus_sound h (by decide) (fun _ s hs hsid p hp ht => ?_) ⟨r, hmem, hid⟩ (by simp [Journal.depth])
        (judged_of_judgeWith h hr hjudge)
      have hs' := get?_journal_of_mem h.writtenFirst.nodup hs
      rw [hsid] at hs'
      exact hdraft s hs' _ ht p (get?_journal_of_mem h.writtenFirst.nodup hp)
    | voided =>
      rw [hwrite] at hplain hjudged hguard
      obtain ⟨r, hr⟩ := Option.ne_none_iff_exists'.1 hplain
      obtain ⟨hmem, hid⟩ := get?_journal hr
      have hjudge : Succeeds (journal.judgeWith e.entityId .void) := by
        rcases hjudged r hr with hmanual | hjudge
        · refine ⟨(), ?_⟩
          have hguard' : journal.requireVoidOnce e.entityId = .ok () := hguard
          rw [Journal.requireVoidOnce, hr] at hguard'
          simpa [hmanual] using hguard'
        · exact hjudge
      rw [apply_status h.writtenFirst.nodup hr (by rw [hwrite]; rfl)]
      exact withStatus_sound h (by decide) nofun ⟨r, hmem, hid⟩ (by simp [Journal.depth]) (judged_of_judgeWith h hr hjudge)

end

/-- **In every run of accepted events whose chains are judged, each entry with the whole
    tree of its reversals moves what the entry moves, or nothing.** -/
theorem cancelled_once {journal : Journal} {events : List JournalEvent} (h : SoundRows journal.rows)
    (haccepted : Runs.EveryStep Journal.step AcceptedEvent journal events)
    (hplain : Runs.EveryStep Journal.step PlainEvent journal events)
    (hjudged : Runs.EveryStep Journal.step JudgedEvent journal events) :
    Runs.EveryAfter Journal.step NetOnce journal events := by
  have hstep : ∀ (journal : Journal) (e : JournalEvent), SoundRows journal.rows →
      ((AcceptedEvent journal e ∧ PlainEvent journal e) ∧ JudgedEvent journal e) → SoundRows (journal.step e).rows :=
    fun journal e hsound hp => step_sound hsound hp.1.1 hp.1.2 hp.2
  exact (Runs.everyAfter_of_step hstep h ((haccepted.and hplain).and hjudged)).imp fun _ => netOnce_of_sound

/-! ## Two runs -/

instance decidableAcceptedEvent (journal : Journal) (e : JournalEvent) : Decidable (AcceptedEvent journal e) :=
  inferInstanceAs (Decidable (Succeeds _))

instance decidablePlainEvent (journal : Journal) : ∀ e : JournalEvent, Decidable (PlainEvent journal e)
  | ⟨entityId, key, restoring, .created data⟩ => inferInstanceAs (Decidable (restoring = false ∧ (key ∈ journal.keys ∨
      (journal.get? entityId = none ∧ ∀ a ∈ data.reverses, ∃ p ∈ journal.get? a,
        data.lines = some (p.lines.map Line.swap)))))
  | ⟨entityId, key, restoring, .posted⟩ | ⟨entityId, key, restoring, .voided⟩ =>
    inferInstanceAs (Decidable (restoring = false ∧ (key ∈ journal.keys ∨ journal.get? entityId ≠ none)))

instance decidableJudgedEvent (journal : Journal) : ∀ e : JournalEvent, Decidable (JudgedEvent journal e)
  | ⟨_, key, _, .created data⟩ => inferInstanceAs (Decidable (key ∈ journal.keys ∨
      (data.status.getD .posted = .posted → ∀ a ∈ data.reverses, ∀ p ∈ journal.get? a, p.status ≠ .draft)))
  | ⟨entityId, key, _, .posted⟩ => inferInstanceAs (Decidable (key ∈ journal.keys ∨
      ((∀ r ∈ journal.get? entityId, ∀ a ∈ r.reverses, ∀ p ∈ journal.get? a, p.status ≠ .draft) ∧
        Succeeds (journal.judgeWith entityId .posted))))
  | ⟨entityId, key, _, .voided⟩ => inferInstanceAs (Decidable (key ∈ journal.keys ∨
      ∀ r ∈ journal.get? entityId, r.jeType = some "manual" ∨ Succeeds (journal.judgeWith entityId .void)))

def noJournal : Journal := ⟨[], []⟩

theorem noJournal_sound : SoundRows noJournal.rows :=
  ⟨trivial, nofun, nofun, nofun⟩

def saleLines : List Line := [.debitOf "1120" 100, .creditOf "4000" 100]

/-- An entry, a reversal of it, the reversal undone by a second one, and the second one
    void; the last write is sent twice. -/
def undoneEvents : List JournalEvent :=
  [⟨"je:1", "je:1:c", false, .created ⟨some "manual", some .posted, none, some saleLines, some "Sale", none⟩⟩,
    ⟨"je:1", "je:1:p", false, .posted⟩,
    ⟨"je:2", "je:2:c", false, .created ⟨some "manual", some .posted, some "je:1", some (saleLines.map Line.swap), none, none⟩⟩,
    ⟨"je:2", "je:2:p", false, .posted⟩,
    ⟨"je:3", "je:3:c", false, .created ⟨some "manual", some .posted, some "je:2", some saleLines, none, none⟩⟩,
    ⟨"je:3", "je:3:p", false, .posted⟩, ⟨"je:3", "je:3:void", false, .voided⟩, ⟨"je:3", "je:3:void", false, .voided⟩]

theorem cancelled_once_undone : Runs.EveryAfter Journal.step NetOnce noJournal undoneEvents :=
  cancelled_once noJournal_sound (by decide +kernel) (by decide +kernel) (by decide +kernel)

/-- An automatic entry, a reversal of it, and a void of the entry itself. -/
def voidedEvents : List JournalEvent :=
  [⟨"je:1", "je:1:c", false, .created ⟨some "invoice", some .posted, none, some saleLines, some "Sale", none⟩⟩,
    ⟨"je:2", "je:2:c", false, .created ⟨some "manual", some .posted, some "je:1", some (saleLines.map Line.swap), none, none⟩⟩,
    ⟨"je:1", "je:1:void", false, .voided⟩]

/-- The entry is cancelled by the reversal and by the void: its balance is taken back twice. -/
theorem cancelled_twice : Runs.EveryStep Journal.step AcceptedEvent noJournal voidedEvents ∧
    Runs.EveryStep Journal.step PlainEvent noJournal voidedEvents ∧
      ¬Runs.EveryAfter Journal.step NetOnce noJournal voidedEvents := by
  refine ⟨by decide +kernel, by decide +kernel, fun ⟨_, _, h, _⟩ => ?_⟩
  have hvoid := h ⟨"je:1", some "invoice", .void, none, saleLines, some "Sale", none⟩ (by decide +kernel) "1120"
  revert hvoid
  decide +kernel

end Celerp
