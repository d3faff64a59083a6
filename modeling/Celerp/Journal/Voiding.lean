/-
  Voiding a document and taking the void back (`celerp/services/auto_je.py`).

  A document's automatic entries are named `je:auto:{document}:{suffix}`.  Those that
  recognize it have a root, the suffix less the generations of its restores
  (`recognitionRoot`).  `voidForDocVoided` voids each posted one under the next batch
  number; `createForDocUnvoided` posts a copy of each entry the last batch voided, as the
  next generation of its root, where nothing of the root is posted.

  The document is not one an import brought in.
-/
import Celerp.Journal.Reversals
import Celerp.Lib.Segments

namespace Celerp

open Segments

/-! ## Names of entries -/

/-- The prefix of the ids of a document's automatic entries. -/
def docPrefix (docId : String) : String := "je:auto:" ++ docId ++ ":"

def jeId (docId suffix : String) : String := docPrefix docId ++ suffix

/-- The suffix of the id of an automatic entry of the document. -/
def docSuffix (docId entityId : String) : Option String :=
  if (docPrefix docId).toList <+: entityId.toList then
    some (String.ofList (entityId.toList.drop (docPrefix docId).toList.length))
  else none

/-- `je_idempotency_key` -/
def jeIdempotencyKey (docId jeType suffix : String) : String := "je:" ++ docId ++ ":" ++ jeType ++ ":" ++ suffix

/-- `\d+` -/
def isDigits (s : List Char) : Bool := s ≠ [] && s.all Char.isDigit

/-- The tag of a restore's generation. -/
def UNVOID : List Char := ['u', 'n', 'v', 'o', 'i', 'd']

/-- A suffix less the generations of its restores. -/
def stripRestores (suffix : String) : String :=
  match split ':' suffix with
  | [] => ""
  | first :: rest => join ':' (first :: dropTags UNVOID isDigits rest)

/-- `_RECOGNITION_FAMILIES` -/
def RECOGNITION_FAMILIES : List String := ["fin", "bill", "cogs-backfill", "cogs-adj"]

/-- `_FULFILLMENT_COGS` -/
def fulfillmentCogs (root : String) : Bool :=
  root = "fulfill" ∨
    ("fulfill-".toList <+: root.toList ∧ isDigits (root.toList.drop "fulfill-".toList.length))

/-- `_GOODS_MOVEMENTS` -/
def GOODS_MOVEMENTS : List (List Char) :=
  ["rcv".toList, "rtn".toList, "landed-cap".toList, "landed-rtn".toList, "rtn-bill".toList]

/-- The roots of recognition entries, and with `goodsMovements` of those of the document's
    receipts and returns. -/
def isRecognized (goodsMovements : Bool) (root : String) : Bool :=
  fulfillmentCogs root ∨ (goodsMovements ∧ ∃ first ∈ (split ':' root).head?, first ∈ GOODS_MOVEMENTS) ∨
    ∃ family ∈ RECOGNITION_FAMILIES, root = family ∨ (family ++ ":").toList <+: root.toList

/-- `_recognition_root` -/
def recognitionRoot (goodsMovements : Bool) (suffix : String) : Option String :=
  if isRecognized goodsMovements (stripRestores suffix) then some (stripRestores suffix) else none

/-- The suffix of a restore. -/
def restoreSuffix (root : String) (generation : ℕ) : String := root ++ ":unvoid:" ++ toString generation

/-! ## Books -/

/-- What an entry was voided for. -/
inductive VoidTrigger where
  | docVoided
  | other
  deriving DecidableEq, Repr

/-- A void of an entry; the batch of a document's void, or 0. -/
structure VoidEvent where
  entityId : String
  trigger : VoidTrigger
  batch : ℕ
  deriving DecidableEq, Repr

/-- The journal and the voids in it, oldest first. -/
structure DocBooks where
  journal : Journal
  voidEvents : List VoidEvent
  deriving DecidableEq, Repr

/-- `emit_event` on an entry: a void that is not a repeat is recorded. -/
def DocBooks.emit (s : DocBooks) (trigger : VoidTrigger) (batch : ℕ) (e : JournalEvent) : Option DocBooks :=
  match s.journal.emit e with
  | .error _ => none
  | .ok journal => some ⟨journal, if e.write = .voided ∧ e.key ∉ s.journal.keys then
      s.voidEvents ++ [⟨e.entityId, trigger, batch⟩] else s.voidEvents⟩

section
variable (docId : String) (goodsMovements : Bool) (s : DocBooks)

/-- `_doc_recognition_jes`: the document's recognition entries by their suffix. -/
def docRecognitionJes : List (String × JournalRow) :=
  s.journal.rows.filterMap fun r =>
    match docSuffix docId r.entityId with
    | some suffix => if (recognitionRoot goodsMovements suffix).isSome then some (suffix, r) else none
    | none => none

/-- `_doc_void_events`: the voids of the document's entries, by their suffix. -/
def docVoidEvents : List (String × VoidEvent) :=
  s.voidEvents.filterMap fun e => (docSuffix docId e.entityId).map fun suffix => (suffix, e)

/-- The greatest batch of a void, 0 where there was none. -/
def lastVoidBatch : ℕ := ((docVoidEvents docId s).map (·.2.batch)).foldr max 0

/-! ## Voiding -/

/-- The void of an entry in a batch. -/
def voidWrite (batch : ℕ) (suffix : String) : JournalEvent where
  entityId := jeId docId suffix
  key := jeIdempotencyKey docId ("voided:" ++ toString batch ++ ":" ++ suffix) "void"
  restoring := false
  write := .voided

/-- The voids of a document's posted recognition entries. -/
def voidWrites : List JournalEvent :=
  ((docRecognitionJes docId goodsMovements s).filter (·.2.posted)).map fun je =>
    voidWrite docId (1 + lastVoidBatch docId s) je.1

/-- `void_for_doc_voided` -/
def voidForDocVoided : Option DocBooks :=
  (voidWrites docId goodsMovements s).foldlM (fun t e => t.emit .docVoided (1 + lastVoidBatch docId s) e) s

/-! ## Unvoiding -/

/-- The last void of each root, in the order the roots were first voided in. -/
def setLast (root : String) (e : String × VoidEvent) :
    List (String × String × VoidEvent) → List (String × String × VoidEvent)
  | [] => [(root, e)]
  | (root', e') :: rest => if root' = root then (root, e) :: rest else (root', e') :: setLast root e rest

@[inherit_doc setLast]
def lastVoidByRoot (events : List (String × VoidEvent)) : List (String × String × VoidEvent) :=
  events.foldl (fun last e => match recognitionRoot goodsMovements e.1 with
    | some root => setLast root e last
    | none => last) []

/-- The entries to restore: those of the last batch, or where no void has a batch, the one
    of each root whose last void was a document's. -/
def toRestore : List String :=
  let batched := (docVoidEvents docId s).filter (·.2.batch ≠ 0)
  if batched ≠ [] then (batched.filter (·.2.batch = lastVoidBatch docId s)).map Prod.fst
  else ((lastVoidByRoot goodsMovements (docVoidEvents docId s)).filter (·.2.2.trigger = .docVoided)).map (·.2.1)

/-- An entry to be posted again, as the next generation of its root. -/
structure Restore where
  root : String
  generation : ℕ
  source : JournalRow
  deriving DecidableEq, Repr

/-- The restore of an entry: none where an entry of its root is posted, or it is empty. -/
def restoreOf (suffix : String) : Option Restore :=
  let jes := docRecognitionJes docId goodsMovements s
  match recognitionRoot goodsMovements suffix, jes.find? (·.1 = suffix) with
  | some root, some (_, source) =>
    let family := jes.filter fun je => recognitionRoot goodsMovements je.1 = some root
    if family.any (·.2.posted) ∨ source.lines = [] then none
    else some ⟨root, 1 + (family.filter (·.1 ≠ root)).length, source⟩
  | _, _ => none

/-- What an unvoid restores. -/
def restores : List Restore := (toRestore docId goodsMovements s).filterMap (restoreOf docId goodsMovements s)

end

section
variable (docId currency : String) (postingDay : Option String → Option String)

/-- The memo of a restore. -/
def restoreMemo (source : JournalRow) : String :=
  match source.memo with
  | some memo => if memo = "" then "Auto JE for " ++ docId ++ " unvoided" else memo
  | none => "Auto JE for " ++ docId ++ " unvoided"

/-- The events that post a restore of `lines`. -/
def restoreWrites (r : Restore) (lines : List Line) : List JournalEvent :=
  let jeType := "unvoid:" ++ r.root ++ ":" ++ toString r.generation
  let entityId := jeId docId (restoreSuffix r.root r.generation)
  [⟨entityId, jeIdempotencyKey docId jeType "c", false, .created
      { memo := some (restoreMemo docId r.source), lines := some lines, ts := postingDay r.source.ts }⟩,
    ⟨entityId, jeIdempotencyKey docId jeType "p", false, .posted⟩]

/-- The events of a restore, none where its lines are refused. -/
def writesOf (r : Restore) : Option (List JournalEvent) :=
  (emitAutoPosted currency r.source.lines).map (restoreWrites docId postingDay r)

/-- The events of an unvoid. -/
def unvoidWrites (goodsMovements : Bool) (s : DocBooks) : List JournalEvent :=
  (restores docId goodsMovements s).flatMap fun r => (writesOf docId currency postingDay r).getD []

/-- `create_for_doc_unvoided` -/
def createForDocUnvoided (goodsMovements : Bool) (s : DocBooks) : Option DocBooks :=
  (restores docId goodsMovements s).foldlM (fun t r =>
    (writesOf docId currency postingDay r).bind (·.foldlM (fun t e => t.emit .other 0 e) t)) s

end

end Celerp
