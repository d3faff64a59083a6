/-
  Journal entries over their events (`celerp/services/journal_reversals.py`,
  `celerp/events/engine.py`, `celerp_accounting/projections.py`): an entry is written,
  posted and voided, and a reversal is an entry whose `reverses` names the one it takes
  back.

  A void and a new reversal pass through `requireCancelledOnce`, which judges the whole
  chain of the entry as it would stand after the write.
-/
import Celerp.Journal.Entry
import Celerp.Lib.Chains
import Celerp.Lib.Outcome

namespace Celerp

/-- The status of an entry; `draft` stands for any but the two that are read. -/
inductive JeStatus where
  | posted
  | void
  | draft
  deriving DecidableEq, Repr

/-- A journal entry as it is projected. -/
structure JournalRow where
  entityId : String
  jeType : Option String
  status : JeStatus
  reverses : Option String
  lines : List Line
  memo : Option String
  ts : Option String
  deriving DecidableEq, Repr

namespace JournalRow

def posted (r : JournalRow) : Bool := r.status = .posted

def voided (r : JournalRow) : Bool := r.status = .void

end JournalRow

/-- The journal: its entries in the order they were written, and the idempotency keys of
    the writes. -/
structure Journal where
  rows : List JournalRow
  keys : List String
  deriving DecidableEq, Repr

/-- `AccJournalEntryCreated`; a field not given is left alone. -/
structure JournalData where
  jeType : Option String := none
  status : Option JeStatus := none
  reverses : Option String := none
  lines : Option (List Line) := none
  memo : Option String := none
  ts : Option String := none
  deriving DecidableEq, Repr

/-- What an event does to an entry. -/
inductive JournalWrite where
  | created (data : JournalData)
  | posted
  | voided
  deriving DecidableEq, Repr

/-- An event of an entry, its idempotency key, and whether it restores a backup. -/
structure JournalEvent where
  entityId : String
  key : String
  restoring : Bool
  write : JournalWrite
  deriving DecidableEq, Repr

/-! ## Chains -/

/-- The memo and the date an entry is named by in a refusal. -/
structure NamedEntry where
  memo : String
  date : String
  deriving DecidableEq, Repr

/-- `_named` -/
def JournalRow.named (r : JournalRow) : NamedEntry where
  memo := match r.memo with
    | some memo => if memo = "" then r.entityId else memo
    | none => r.entityId
  date := String.ofList ((r.ts.getD "").toList.take 10)

/-- Why a void or a reversal is refused. -/
inductive CancelRefusal where
  | jeAlreadyReversed (by_ : NamedEntry)
  | jeCancelledTwice (entry : NamedEntry)
  deriving DecidableEq, Repr

/-- `_chain`: what an entry reverses up to the first original, and every reversal below
    each of those. -/
def journalChain (rows : List JournalRow) (jeId : String) : List JournalRow :=
  Chains.chain JournalRow.entityId JournalRow.reverses rows jeId

/-- `_standing_reversals`: the reversals of an entry that still stand.  The chain of
    entries that each name an older one is no deeper than the journal is long. -/
def standingReversals (depth : ℕ) (nodes : List JournalRow) (jeId : String) : List JournalRow :=
  Chains.standing JournalRow.entityId JournalRow.reverses JournalRow.posted depth nodes jeId

/-- The chain with an entry's status set. -/
def withStatus (rows : List JournalRow) (jeId : String) (status : JeStatus) : List JournalRow :=
  rows.map fun r => if r.entityId = jeId then { r with status } else r

/-- How often an entry is cancelled: by the reversals of it that stand, and by a void. -/
def cancellations (depth : ℕ) (nodes : List JournalRow) (r : JournalRow) : ℕ :=
  (standingReversals depth nodes r.entityId).length + if r.voided then 1 else 0

/-- The judgement of a chain: the first entry cancelled twice is refused. -/
def judgeChain (depth : ℕ) (nodes : List JournalRow) (voiding : Option String) : Except CancelRefusal Unit :=
  match nodes.find? fun r => 1 < cancellations depth nodes r with
  | none => .ok ()
  | some r =>
    match standingReversals depth nodes r.entityId with
    | first :: _ => if voiding = some r.entityId then .error (.jeAlreadyReversed first.named)
      else .error (.jeCancelledTwice r.named)
    | [] => .error (.jeCancelledTwice r.named)

/-- A new reversal as it is judged. -/
def newReversal (jeId reverses : String) : JournalRow := ⟨jeId, none, .posted, some reverses, [], none, none⟩

namespace Journal
variable (journal : Journal)

/-- The entry of an id. -/
def get? (jeId : String) : Option JournalRow := journal.rows.find? (·.entityId = jeId)

/-- A depth no chain of the journal and one more entry goes beyond. -/
def depth : ℕ := journal.rows.length + 2

/-- The judgement of an entry's chain with its status set. -/
def judgeWith (jeId : String) (status : JeStatus) : Except CancelRefusal Unit :=
  let nodes := journalChain journal.rows jeId
  if jeId ∈ nodes.map JournalRow.entityId then
    judgeChain journal.depth (withStatus nodes jeId status) (if status = .void then some jeId else none)
  else .ok ()

/-- `require_cancelled_once` for a void: only a manual entry is judged. -/
def requireVoidOnce (jeId : String) : Except CancelRefusal Unit :=
  match journal.get? jeId with
  | none => .ok ()
  | some current => if current.jeType ≠ some "manual" then .ok () else journal.judgeWith jeId .void

/-- `require_cancelled_once` for a new reversal. -/
def requireReversedOnce (jeId reverses : String) : Except CancelRefusal Unit :=
  let nodes := journalChain journal.rows reverses
  judgeChain journal.depth
    (if jeId ∈ nodes.map JournalRow.entityId then nodes
      else nodes ++ [newReversal jeId reverses]) none

/-- The guard of an event. -/
def guardEvent (e : JournalEvent) : Except CancelRefusal Unit :=
  match e.restoring, e.write with
  | false, .voided => journal.requireVoidOnce e.entityId
  | false, .created data =>
    match data.reverses with
    | some reverses => journal.requireReversedOnce e.entityId reverses
    | none => .ok ()
  | _, _ => .ok ()

end Journal

/-! ## Events -/

/-- `apply_accounting_event`: what an event makes of an entry. -/
def applyWrite (jeId : String) (current : Option JournalRow) : JournalWrite → JournalRow
  | .created data =>
    match current with
    | some r =>
      ⟨jeId, data.jeType.or r.jeType, data.status.getD r.status, data.reverses.or r.reverses,
        data.lines.getD r.lines, data.memo.or r.memo, data.ts.or r.ts⟩
    | none =>
      ⟨jeId, data.jeType, data.status.getD .posted, data.reverses, data.lines.getD [], data.memo, data.ts⟩
  | .posted =>
    match current with
    | some r => { r with status := .posted }
    | none => ⟨jeId, none, .posted, none, [], none, none⟩
  | .voided =>
    match current with
    | some r => { r with status := .void }
    | none => ⟨jeId, none, .void, none, [], none, none⟩

namespace Journal
variable (journal : Journal)

/-- The journal with an event applied. -/
def apply (e : JournalEvent) : Journal where
  rows := match journal.get? e.entityId with
    | some r => journal.rows.map fun s => if s.entityId = e.entityId then applyWrite e.entityId (some r) e.write else s
    | none => journal.rows ++ [applyWrite e.entityId none e.write]
  keys := journal.keys ++ [e.key]

/-- `emit_event`: a write that repeats a key changes nothing. -/
def emit (e : JournalEvent) : Except CancelRefusal Journal :=
  (journal.guardEvent e).map fun _ => if e.key ∈ journal.keys then journal else journal.apply e

/-- The journal after an event: as it was where the event is refused. -/
def step (e : JournalEvent) : Journal :=
  match journal.emit e with
  | .ok journal' => journal'
  | .error _ => journal

end Journal

/-! ## The effect of an entry with its reversals -/

/-- What an entry moves on an account. -/
def JournalRow.moved (account : String) (r : JournalRow) : ℚ := if r.posted then net account r.lines else 0

/-- What the reversals of an entry move on an account, each with all reversals under it.
    An entry is written before its reversals. -/
def reversalsNet (account : String) : List JournalRow → String → ℚ
  | [], _ => 0
  | r :: rest, jeId =>
    (if r.reverses = some jeId then r.moved account + reversalsNet account rest r.entityId else 0) +
      reversalsNet account rest jeId

/-- What an entry and the whole tree of its reversals move on an account. -/
def treeNet (account : String) (rows : List JournalRow) (r : JournalRow) : ℚ :=
  r.moved account + reversalsNet account rows r.entityId

/-- Every entry's effect stands or is cancelled once. -/
def NetOnce (journal : Journal) : Prop :=
  ∀ r ∈ journal.rows, ∀ account, treeNet account journal.rows r = net account r.lines ∨
    treeNet account journal.rows r = 0

end Celerp
