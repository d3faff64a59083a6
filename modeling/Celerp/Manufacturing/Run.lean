/-
  The state of a production run under its events
  (`celerp_manufacturing/projection_handler.py`).

  `applyManufacturingEvent` is what each event does to the run: what was issued to each
  component and the value it took, what was received, and the value the run moved on
  (`wip`).  Completion keeps what it changes (`ClosedKeys`) with its closing, and
  `reopened` puts it back (`reopened_completed`).

  The fields no event and no movement reads are kept as they are stored (`rest`).
-/
import Celerp.Lib.Amounts
import Celerp.Money

namespace Celerp

/-! ## The state -/

/-- A key of a stored state: absent, or its value, which may be null. -/
abbrev Stored (α : Type) : Type := Option (Option α)

inductive RunStatus where
  | planned
  | inProgress
  | onHold
  | completed
  | cancelled
  deriving DecidableEq, Repr

/-- A component of a run: what it needs, and what was issued to it. -/
structure RunInput where
  itemId : String
  quantity : ℚ
  issuedQty : ℚ
  issuedValue : Option ℚ
  goodsCostUnknown : Bool
  deriving DecidableEq, Repr

/-- A product the run makes, and how much of it. -/
structure RunOutput where
  sku : String
  quantity : ℚ
  deriving DecidableEq, Repr

/-- Output received: the lot it became and the value it took. -/
structure Receipt where
  lotItemId : String
  quantity : ℚ
  value : ℚ
  /-- it keeps the value it was given -/
  fixed : Bool
  deriving DecidableEq, Repr

/-- A quantity of a component, with its value. -/
structure ValuedLine where
  itemId : String
  quantity : ℚ
  value : ℚ
  deriving DecidableEq, Repr

/-- What a completion wasted. -/
structure WasteRecord where
  items : List ValuedLine
  unit : Option String
  reason : Option String
  deriving DecidableEq, Repr

/-- `_CLOSED`: what completion changes on a run. -/
structure ClosedKeys where
  status : Stored RunStatus
  isInProduction : Stored Bool
  actualOutputs : Stored (List RunOutput)
  waste : Stored WasteRecord
  laborHours : Stored ℚ
  wipTransferred : Option ℚ
  wipWasted : Option ℚ
  deriving DecidableEq, Repr

/-- None of the keys. -/
def ClosedKeys.absent : ClosedKeys := ⟨none, none, none, none, none, none, none⟩

/-- A lot whose cost a completion changed. -/
structure RestatedLot where
  lotItemId : String
  delta : ℚ
  deriving DecidableEq, Repr

/-- What a completion moved. -/
structure ClosingRecord where
  held : ℚ
  wasted : ℚ
  lots : List RestatedLot
  booked : Bool
  deriving DecidableEq, Repr

/-- The closing of a completed run: what it moved, and what the run held before. -/
structure Closing extends ClosingRecord where
  before : ClosedKeys
  deriving DecidableEq, Repr

/-- The state of a run. -/
structure RunState where
  closed : ClosedKeys
  closing : Option Closing
  inputs : List RunInput
  receivedQty : ℚ
  receivedLots : List String
  receipts : List Receipt
  wipIssued : Option ℚ
  wipAccountCode : Option String
  wipUntracked : Bool
  wipUnresolved : Option String
  outputItemId : Option String
  expectedOutputs : List RunOutput
  holdReason : Option String
  cancelReason : Option String
  dueDate : Option String
  plannedStart : Option String
  priority : Option String
  /-- the other fields, as they are stored -/
  rest : List (String × String)
  deriving DecidableEq, Repr

namespace RunState
variable (s : RunState)

def status : Option RunStatus := s.closed.status.join

/-- `_wip`: what the run holds, the value issued not yet moved to its lots or waste. -/
def wip : ℚ := s.wipIssued.getD 0 - s.closed.wipTransferred.getD 0 - s.closed.wipWasted.getD 0

/-- The state with a status, in production or not. -/
def setStatus (status : RunStatus) (isInProduction : Bool) : RunState :=
  { s with closed := { s.closed with status := some (some status), isInProduction := some (some isInProduction) } }

/-- `_add` to the value issued. -/
def addIssued (v : ℚ) : RunState := { s with wipIssued := some (s.wipIssued.getD 0 + v) }

/-- `_add` to the value transferred. -/
def addTransferred (v : ℚ) : RunState :=
  { s with closed := { s.closed with wipTransferred := some (s.closed.wipTransferred.getD 0 + v) } }

/-- `reopened`: what a completed run held before completion, without the closing. -/
def reopened : RunState :=
  { s with closing := none, closed := (s.closing.map (·.before)).getD .absent }

end RunState

/-! ## Events -/

/-- A line of an issue, as its event records it. -/
structure IssuedLine where
  itemId : String
  quantity : ℚ
  value : Option ℚ
  goodsCostUnknown : Bool
  deriving DecidableEq, Repr

/-- What a new run is created with. -/
structure OrderData where
  closed : ClosedKeys
  inputs : List (String × ℚ)
  receivedQty : Option ℚ
  receivedLots : Option (List String)
  outputItemId : Option String
  expectedOutputs : List RunOutput
  holdReason : Option String
  cancelReason : Option String
  dueDate : Option String
  plannedStart : Option String
  priority : Option String
  rest : List (String × String)

/-- What a completion records. -/
structure CompletedData where
  actualOutputs : Option (List RunOutput)
  waste : Option WasteRecord
  laborHours : Option ℚ
  transferred : Option ℚ
  wasted : Option ℚ
  closing : Option ClosingRecord

/-- What an older run held, as its settlement or its reconciliation records it. -/
structure SettledData where
  components : List ValuedLine
  issued : ℚ
  transferred : ℚ
  receipts : List Receipt
  wipAccountCode : Option String

inductive RunEvent where
  | created (data : OrderData)
  | started
  | onHold (reason : Option String)
  | resumed
  | issued (items : List IssuedLine) (value : Option ℚ) (wipAccountCode : Option String)
  | returned (items : List ValuedLine) (value : ℚ)
  | received (quantity : ℚ) (lotItemId : Option String) (value : Option ℚ)
  | scheduled (dueDate plannedStart priority : Stored String)
  | receiptUndone (lotItemId : String) (quantity value : ℚ)
  | reopened
  | completed (data : CompletedData)
  /-- with the components, where the run did not record them itself -/
  | wipOpened (data : SettledData) (components : Bool)
  | outputRepaired (discarded : ℚ) (outputItemId : Option String) (expectedOutputs : List RunOutput)
  | wipReconciled (data : SettledData)
  | wipUnresolved (reason : Option String)
  | cancelled (reason : Option String)

/-- `merge_inputs`: one line for each component, in first-seen order. -/
def mergeInputs (lines : List (String × ℚ)) : List (String × ℚ) :=
  lines.foldl (fun merged line =>
    if line.1 ∈ merged.map Prod.fst then
      merged.map fun p => if p.1 = line.1 then (p.1, roundDigits (p.2 + line.2) 6) else p
    else merged ++ [line]) []

/-- A component as a run is created with it. -/
def RunInput.planned (line : String × ℚ) : RunInput := ⟨line.1, line.2, 0, none, false⟩

/-- The state a created run starts in. -/
def RunState.ofOrder (data : OrderData) : RunState where
  closed :=
    { data.closed with
      status := data.closed.status.or (some (some .planned))
      isInProduction := data.closed.isInProduction.or (some (some false))
      actualOutputs := data.closed.actualOutputs.or (some (some []))
      wipTransferred := none
      wipWasted := none }
  closing := none
  inputs := (mergeInputs (data.inputs.filter (0 < ·.2)) ++ data.inputs.filter (¬0 < ·.2)).map .planned
  receivedQty := data.receivedQty.getD 0
  receivedLots := data.receivedLots.getD []
  receipts := []
  wipIssued := none
  wipAccountCode := none
  wipUntracked := false
  wipUnresolved := none
  outputItemId := data.outputItemId
  expectedOutputs := data.expectedOutputs
  holdReason := data.holdReason
  cancelReason := data.cancelReason
  dueDate := data.dueDate
  plannedStart := data.plannedStart
  priority := data.priority
  rest := data.rest

namespace RunInput
variable (inp : RunInput)

/-- A component issued: it keeps its value for a return, or none where it was once issued
    without one. -/
def issue (quantity : ℚ) (value : Option ℚ) (unknown : Bool) : RunInput where
  itemId := inp.itemId
  quantity := inp.quantity
  issuedQty := inp.issuedQty + quantity
  issuedValue := value.bind fun v =>
    if inp.issuedValue ≠ none ∨ inp.issuedQty = 0 then some (inp.issuedValue.getD 0 + v) else none
  goodsCostUnknown := inp.goodsCostUnknown || unknown

/-- A component returned. -/
def giveBack (line : ValuedLine) : RunInput where
  itemId := inp.itemId
  quantity := inp.quantity
  issuedQty := max 0 (roundDigits (inp.issuedQty - line.quantity) 9)
  issuedValue := some (inp.issuedValue.getD 0 - line.value)
  goodsCostUnknown :=
    if max 0 (roundDigits (inp.issuedQty - line.quantity) 9) = 0 then false else inp.goodsCostUnknown

end RunInput

/-- The components once items are issued: each item goes on the first line of its own. -/
def issueInputs (values : List (String × ℚ)) (unknown : List String) :
    List (String × ℚ) → List RunInput → List RunInput
  | _, [] => []
  | issued, inp :: inputs =>
    match issued.lookup inp.itemId with
    | some q => inp.issue q (values.lookup inp.itemId) (inp.itemId ∈ unknown) ::
        issueInputs values unknown (issued.filter (·.1 ≠ inp.itemId)) inputs
    | none => inp :: issueInputs values unknown issued inputs

/-- The lines by item: of the lines of one item the last counts. -/
def linesByItem (lines : List ValuedLine) : List ValuedLine :=
  lines.foldl (fun kept line =>
    if line.itemId ∈ kept.map (·.itemId) then kept.map fun l => if l.itemId = line.itemId then line else l
    else kept ++ [line]) []

/-- The components once items are returned. -/
def returnInputs : List ValuedLine → List RunInput → List RunInput
  | _, [] => []
  | returned, inp :: inputs =>
    match returned.find? (·.itemId = inp.itemId) with
    | some line => inp.giveBack line :: returnInputs (returned.filter (·.itemId ≠ inp.itemId)) inputs
    | none => inp :: returnInputs returned inputs

/-- `_held`: the components hold exactly what is listed, each on its first positive line;
    one with no line gets its own. -/
def heldInputs : List ValuedLine → List RunInput → List RunInput
  | held, [] => (held.filter (0 < ·.quantity)).map fun c => ⟨c.itemId, c.quantity, c.quantity, some c.value, false⟩
  | held, inp :: inputs =>
    match if 0 < inp.quantity then held.find? (·.itemId = inp.itemId) else none with
    | some c => { inp with issuedQty := c.quantity, issuedValue := some c.value } ::
        heldInputs (held.filter (·.itemId ≠ inp.itemId)) inputs
    | none => { inp with issuedQty := 0, issuedValue := none, goodsCostUnknown := false } :: heldInputs held inputs

namespace RunState
variable (s : RunState)

/-- Issuing starts a run that is planned or on hold. -/
def start : RunState :=
  { (if s.status ∈ [none, some .planned, some .onHold] then s.setStatus .inProgress true else s) with
    holdReason := none }

/-- `mfg.order.issued` -/
def issue (items : List IssuedLine) (value : Option ℚ) (wipAccountCode : Option String) : RunState :=
  let s := { s.start with
    inputs := issueInputs (Amounts.ofList (items.filterMap fun i => i.value.map fun v => (i.itemId, v)))
      ((items.filter (·.goodsCostUnknown)).map (·.itemId)) (Amounts.ofList (items.map fun i => (i.itemId, i.quantity)))
      s.inputs }
  match value with
  | some v => { s.addIssued v with wipAccountCode := wipAccountCode.or s.wipAccountCode }
  | none => if items ≠ [] then { s with wipUntracked := true } else s

/-- `mfg.order.received` -/
def receive (quantity : ℚ) (lotItemId : Option String) (value : Option ℚ) : RunState :=
  let s := { s with
    receivedQty := s.receivedQty + quantity
    receivedLots := match lotItemId with
      | some lot => if lot ∈ s.receivedLots then s.receivedLots else s.receivedLots ++ [lot]
      | none => s.receivedLots }
  match value with
  | some v => { s.addTransferred v with
      receipts := s.receipts ++ [⟨lotItemId.getD "", quantity, v, false⟩] }
  | none => { s with wipUntracked := true }

/-- `mfg.order.receipt_undone` -/
def undoReceipt (lotItemId : String) (quantity value : ℚ) : RunState :=
  { s.addTransferred (-value) with
    receivedQty := max 0 (roundDigits (s.receivedQty - quantity) 9)
    receivedLots := s.receivedLots.filter (· ≠ lotItemId)
    receipts := s.receipts.filter (·.lotItemId ≠ lotItemId) }

/-- `mfg.order.completed` -/
def complete (data : CompletedData) : RunState :=
  { s with
    closing := match data.closing with
      | some record => some ⟨record, s.closed⟩
      | none => s.closing
    closed := {
      status := some (some .completed)
      isInProduction := some (some false)
      actualOutputs := (data.actualOutputs.map some).or s.closed.actualOutputs
      waste := (data.waste.map some).or s.closed.waste
      laborHours := (data.laborHours.map some).or s.closed.laborHours
      wipTransferred := data.transferred.or s.closed.wipTransferred
      wipWasted := if data.transferred.isSome then some (data.wasted.getD 0) else s.closed.wipWasted } }

/-- The value an older run is given. -/
def settle (data : SettledData) : RunState :=
  { s with
    wipIssued := some data.issued
    closed := { s.closed with wipTransferred := some data.transferred }
    receipts := data.receipts
    wipAccountCode := data.wipAccountCode.or s.wipAccountCode
    wipUntracked := false
    wipUnresolved := none }

/-- `mfg.order.output_repaired` -/
def repairOutput (discarded : ℚ) (outputItemId : Option String) (expectedOutputs : List RunOutput) : RunState :=
  let left := max 0 (roundDigits (s.receivedQty - discarded) 9)
  { s with
    receivedQty := left
    outputItemId := outputItemId.or s.outputItemId
    expectedOutputs := if outputItemId.isSome then expectedOutputs else s.expectedOutputs
    wipUnresolved :=
      if s.wipUnresolved = some "received before tracking" ∧ left = 0 ∧ s.receivedLots = [] then none
      else s.wipUnresolved }

end RunState

/-- `apply_manufacturing_event` -/
def applyManufacturingEvent (s : RunState) : RunEvent → RunState
  | .created data => .ofOrder data
  | .started => s.setStatus .inProgress true
  | .onHold reason => { s.setStatus .onHold false with holdReason := reason.or s.holdReason }
  | .resumed => { s.setStatus .inProgress true with holdReason := none }
  | .issued items value wipAccountCode => s.issue items value wipAccountCode
  | .returned items value => { s.addIssued (-value) with inputs := returnInputs (linesByItem items) s.inputs }
  | .received quantity lotItemId value => s.receive quantity lotItemId value
  | .scheduled dueDate plannedStart priority =>
    { s with
      dueDate := dueDate.getD s.dueDate
      plannedStart := plannedStart.getD s.plannedStart
      priority := priority.getD s.priority }
  | .receiptUndone lotItemId quantity value => s.undoReceipt lotItemId quantity value
  | .reopened => s.reopened
  | .completed data => s.complete data
  | .wipOpened data components =>
    { s.settle data with inputs := if components then heldInputs (linesByItem data.components) s.inputs else s.inputs }
  | .outputRepaired discarded outputItemId expectedOutputs => s.repairOutput discarded outputItemId expectedOutputs
  | .wipReconciled data =>
    { { s with closed := { s.closed with wipWasted := none } }.settle data with
      inputs := heldInputs (linesByItem data.components) s.inputs }
  | .wipUnresolved reason => { s with wipUnresolved := some (reason.getD "unresolved") }
  | .cancelled reason => { s.setStatus .cancelled false with cancelReason := reason.or s.cancelReason }

section
variable {s : RunState}

@[simp] theorem wip_setStatus (status : RunStatus) (b : Bool) : (s.setStatus status b).wip = s.wip := rfl

/-- **Reopening gives back the run completion found.** -/
theorem reopened_completed {data : CompletedData} {record : ClosingRecord} (hclosing : s.closing = none)
    (hrecord : data.closing = some record) : (applyManufacturingEvent s (.completed data)).reopened = s := by
  cases s
  cases hclosing
  simp [applyManufacturingEvent, RunState.complete, RunState.reopened, hrecord]

end

end Celerp
