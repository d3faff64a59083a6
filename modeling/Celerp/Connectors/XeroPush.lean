/-
  The push of an invoice to Xero (`celerp/connectors/xero.py`), through the outbound queue
  (`celerp/connectors/outbound_queue.py`).

  The row of an invoice in the queue keeps the create that was sent for it (`CreateState`): it is
  saved before the first call, and until Xero's id is known the create is sent again, under the same
  key while Xero remembers it, and otherwise only after looking the number up in Xero.

  The process may stop between any two of these, and an answer may be lost.  A create in flight may
  reach Xero any number of times: the client sends it again.  Attempts at an invoice take turns; a
  create whose attempt is over, because its client gave it up or its process stopped, may still reach
  Xero (`late`).  The invoice is linked by an entry that is the company's only one for the id, so it
  is not where another invoice has it (`others`).

  Xero and the relay are not part of the repository.  Xero remembers what it answered a create by its
  key, for as long as `XeroTiming` has it, and an invoice it has keeps its number; all else in Xero
  may change.  `promised` is what a run relies on of them.
-/
import Celerp.Connectors.Execution
import Mathlib.Data.Rat.Defs
import Mathlib.Data.List.Perm.Basic

namespace Celerp

/-- How old a create is sent again under its key. -/
def KEY_WINDOW : ℕ := 6 * 60 * SECOND

/-! ## Invoices -/

/-- A line of an invoice. -/
structure PushLine where
  description : Option String
  quantity : Option ℚ
  unitPrice : Option ℚ
  total : Option ℚ

/-- What the push reads of an invoice (`invoice_for_push`), but for the id it was pushed under. -/
structure PushInvoice where
  refId : Option String
  customerName : Option String
  customerExternalId : Option String
  lineItems : List PushLine
  imported : Bool

/-- A line as it is sent. -/
structure SentLine where
  description : String
  quantity : ℚ
  unitAmount : ℚ
  lineAmount : ℚ
  deriving DecidableEq

structure InvoiceRequest where
  type : String
  invoiceNumber : Option String
  contactId : Option String
  lineItems : List SentLine
  status : String
  deriving DecidableEq

/-- `_invoice_request`. -/
def invoiceRequest (inv : PushInvoice) : InvoiceRequest where
  type := "ACCREC"
  invoiceNumber := inv.refId
  contactId := (inv.customerExternalId.filter (· ≠ "")).or inv.customerName
  lineItems := inv.lineItems.map fun line =>
    ⟨line.description.getD "", line.quantity.getD 1, line.unitPrice.getD 0, line.total.getD 0⟩
  status := "AUTHORISED"

/-- The create an operation saves: what was sent, where, and under which key. -/
structure CreateState where
  tenantId : String
  request : InvoiceRequest
  invoiceNumber : String
  remoteId : Option ℕ
  held : Bool
  idempotencyKey : ℕ
  attemptedAt : ℕ

/-- `_new_attempt`. -/
def newAttempt (key now : ℕ) (state : CreateState) : CreateState :=
  { state with idempotencyKey := key, attemptedAt := now }

/-- An invoice Xero has. -/
structure RemoteInvoice where
  tenant : String
  id : ℕ
  type : String
  number : Option String
  contactId : Option String
  lineItems : List SentLine

/-- `_is_sent_invoice`. -/
def isSentInvoice (remote : RemoteInvoice) (sent : InvoiceRequest) : Bool :=
  remote.type = sent.type && remote.number = sent.invoiceNumber && remote.contactId = sent.contactId &&
    decide (remote.lineItems.Perm sent.lineItems)

/-! ## The queue, and Xero -/

inductive RowStatus where
  | pending
  | blocked
  deriving DecidableEq

/-- The row of an invoice in `outbound_queue`.  A push queues an invoice under its lease, where no row
    is queued for it, so there is one. -/
structure QueueRow where
  status : RowStatus
  payload : Option CreateState
  errorMessage : Option String

/-- What Xero answers a create with. -/
inductive XeroAnswer where
  | created (id : ℕ)
  | rejected (message : String)

/-- The answer to a create that Xero remembers. -/
structure KeyEntry where
  first : ℕ
  id : ℕ

/-- A create in flight, and what Xero answered it last. -/
structure CreateCall where
  key : ℕ
  tenant : String
  request : InvoiceRequest
  decidedAt : ℕ
  answer : Option XeroAnswer

/-- How an attempt ended. -/
inductive PushOutcome where
  | created
  | skipped
  | failed (message : String)
  deriving DecidableEq

/-- How far an attempt has come: it looks a number up, sends a create, knows Xero's id and has saved
    it, and has linked the invoice. -/
inductive Attempt where
  | idle
  | looking (doc : PushInvoice) (state : CreateState)
  | sending (doc : PushInvoice) (state : CreateState)
  | settling (doc : PushInvoice) (state : CreateState) (id : ℕ)
  | settled (doc : PushInvoice) (state : CreateState)

/-- How long after it is sent a create may reach Xero, and how long Xero remembers a key. -/
structure XeroTiming where
  call : ℕ
  memory : ℕ
  fits : KEY_WINDOW + call ≤ memory

/-- One invoice, its row in the queue, and Xero. -/
structure InvoicePush where
  now : ℕ
  storeHandle : Option String
  doc : Option PushInvoice
  pushedId : Option ℕ
  /-- The ids other invoices are linked to. -/
  others : List ℕ
  row : Option QueueRow
  attempt : Attempt
  /-- How the last attempt ended. -/
  outcome : Option PushOutcome
  /-- The create the attempt waits for. -/
  call : Option CreateCall
  /-- Creates of attempts that are over. -/
  late : List CreateCall
  nextKey : ℕ
  invoices : List RemoteInvoice
  keys : List (ℕ × KeyEntry)
  /-- What creates made in Xero, newest first. -/
  created : List RemoteInvoice

namespace InvoicePush

/-- An invoice that was not queued yet. -/
def fresh (storeHandle : Option String) (doc : Option PushInvoice) (invoices : List RemoteInvoice) : InvoicePush where
  now := 0
  storeHandle := storeHandle
  doc := doc
  pushedId := none
  others := []
  row := none
  attempt := .idle
  outcome := none
  call := none
  late := []
  nextKey := 0
  invoices := invoices
  keys := []
  created := []

variable (T : XeroTiming) (w : InvoicePush)

/-! ### What becomes of the row -/

/-- The attempt is over: a create it waits for may still reach Xero. -/
def ended : InvoicePush := { w with attempt := .idle, call := none, late := w.call.toList ++ w.late }

/-- `clear`: the row is removed. -/
def clear (outcome : PushOutcome) : InvoicePush := { w.ended with row := none, outcome := some outcome }

/-- The operation is parked until the user resolves it. -/
def park (message : String) : InvoicePush :=
  { w.ended with
    row := w.row.map fun row => { row with status := .blocked, errorMessage := some message }
    outcome := some (.failed message) }

/-- It is tried again later. -/
def retry (message : String) : InvoicePush :=
  { w.ended with
    row := w.row.map fun row => { row with status := .pending, errorMessage := some message }
    outcome := some (.failed message) }

/-- `OutboundOperation.save`. -/
def save (state : CreateState) : Option InvoicePush :=
  w.row.map fun row => { w with row := some { row with payload := some state } }

/-- Save the state, and go on. -/
def saving (state : CreateState) (next : InvoicePush → InvoicePush) : InvoicePush :=
  ((w.save state).map next).getD (w.retry "the queued change was removed")

/-! ### An attempt -/

/-- The create is sent. -/
def send (doc : PushInvoice) (state : CreateState) : InvoicePush :=
  { w with
    attempt := .sending doc state
    call := some ⟨state.idempotencyKey, state.tenantId, state.request, w.now, none⟩ }

/-- A new attempt is saved, then sent. -/
def sendAnew (doc : PushInvoice) (state : CreateState) : InvoicePush :=
  let state := newAttempt w.nextKey w.now state
  { w with nextKey := w.nextKey + 1 }.saving state fun w => w.send doc state

/-- An attempt at an invoice nothing was sent for. -/
def firstAttempt (handle : String) : InvoicePush :=
  match w.doc with
  | none => w.clear .skipped
  | some doc =>
    if w.pushedId.isSome ∨ doc.imported then w.clear .skipped
    else match doc.refId.filter (· ≠ "") with
      | none => w.clear (.failed "It has no invoice number.")
      | some number =>
        w.sendAnew doc ⟨handle, invoiceRequest doc, number, none, false, 0, 0⟩

/-- An attempt at an invoice a create was sent for. -/
def nextAttempt (handle : String) (state : CreateState) : InvoicePush :=
  let number := state.invoiceNumber
  if state.tenantId ≠ handle then
    w.park (s!"Invoice {number} was sent to a different Xero organisation. Reconnect " ++
      "that organisation, then sync again.")
  else match w.doc with
    | none =>
      w.park (s!"Invoice {number} was removed from Celerp while its creation in Xero " ++ "was unresolved.")
    | some doc =>
      match state.remoteId with
      | some id => { w with attempt := .settling doc state id }
      | none =>
        if w.pushedId.isSome then w.clear .skipped
        else if state.held ∨ state.attemptedAt + KEY_WINDOW ≤ w.now then { w with attempt := .looking doc state }
        else w.send doc state

/-- An attempt begins, of a sync run at `parked` rows too.  None does while another goes on, which
    holds the identity's lock. -/
def begin (parked : Bool) : InvoicePush :=
  match w.attempt, w.row with
  | .idle, some row =>
    if row.status = .blocked ∧ parked = false then w
    else match w.storeHandle, row.payload with
      | none, _ => w.retry "The connected Xero organisation is not known yet."
      | some handle, none => w.firstAttempt handle
      | some handle, some state => w.nextAttempt handle state
  | _, _ => w

/-- The invoices of an organisation that Xero finds under a number. -/
def found (tenant number : String) : List RemoteInvoice :=
  w.invoices.filter fun i => i.tenant = tenant && i.type = "ACCREC" && i.number = some number

/-- Nothing reached Xero, so the invoice is sent as it is now. -/
def asItIsNow (doc : PushInvoice) (state : CreateState) : CreateState :=
  match doc.refId.filter (· ≠ "") with
  | some number =>
    if invoiceRequest doc ≠ state.request then { state with request := invoiceRequest doc, invoiceNumber := number }
    else state
  | none => state

/-- Xero answers the lookup. -/
def lookup : InvoicePush :=
  match w.attempt with
  | .looking doc state =>
    let number := state.invoiceNumber
    match w.found state.tenantId number with
    | [] =>
      if state.held then
        w.park (s!"Xero has no invoice numbered {number}. Create it in Xero to match " ++
          "this invoice, then sync again.")
      else
        w.sendAnew doc (asItIsNow doc state)
    | i :: rest =>
      if rest.isEmpty && isSentInvoice i state.request then
        let state := { state with remoteId := some i.id }
        w.saving state fun w => { w with attempt := .settling doc state i.id }
      else
        w.saving { state with held := true } fun w =>
          w.park (s!"Xero has an invoice numbered {number} that does not match the one " ++
            "Celerp sent. Correct it in Xero, then sync again.")
  | _ => w

/-- A create reaches Xero, which answers as it did if it remembers the key, and otherwise creates the
    invoice (`id`) or rejects it. -/
def reach (call : CreateCall) (id : Option ℕ) (message : String) : InvoicePush × XeroAnswer :=
  match (Dicts.get? w.keys call.key).filter fun e => w.now ≤ e.first + T.memory with
  | some e => (w, .created e.id)
  | none =>
    match id with
    | some id =>
      let invoice : RemoteInvoice :=
        ⟨call.tenant, id, call.request.type, call.request.invoiceNumber, call.request.contactId,
          call.request.lineItems⟩
      ({ w with
        invoices := invoice :: w.invoices
        created := invoice :: w.created
        keys := Dicts.set w.keys call.key ⟨w.now, id⟩ }, .created id)
    | none => (w, .rejected message)

/-- The create the attempt waits for reaches Xero. -/
def arrive (id : Option ℕ) (message : String) : InvoicePush :=
  match w.call with
  | some call =>
    { (w.reach T call id message).1 with call := some { call with answer := some (w.reach T call id message).2 } }
  | none => w

/-- A create whose attempt is over does. -/
def arriveLate (i : ℕ) (id : Option ℕ) (message : String) : InvoicePush :=
  match w.late[i]? with
  | some call => (w.reach T call id message).1
  | none => w

/-- The answer to the create arrives. -/
def answered : InvoicePush :=
  match w.attempt, w.call.bind (·.answer) with
  | .sending doc state, some (.created id) =>
    let state := { state with remoteId := some id }
    { w with call := none }.saving state fun w => { w with attempt := .settling doc state id }
  | .sending _ _, some (.rejected message) => { w with call := none }.clear (.failed s!"Xero rejected it: {message}")
  | _, _ => w

/-- `mark_doc_pushed`: the invoice is linked to Xero's, unless another is. -/
def link : InvoicePush :=
  match w.attempt with
  | .settling doc state id =>
    { w with pushedId := if id ∈ w.others then w.pushedId else some id, attempt := .settled doc state }
  | _ => w

/-- The attempt at a linked invoice ends: it is held until the two agree. -/
def finish : InvoicePush :=
  match w.attempt with
  | .settled doc state =>
    let number := state.invoiceNumber
    if invoiceRequest doc ≠ state.request then
      w.park (s!"Xero has invoice {number} as Celerp first sent it, and it has " ++
        "changed in Celerp since. Make the two match, then sync again.")
    else w.clear .created
  | _ => w

/-- The attempt fails otherwise: a call times out, is refused, or its answer is lost. -/
def fail (message : String) : InvoicePush :=
  match w.attempt with
  | .idle => w
  | _ => w.retry message

/-! ### What else happens -/

/-- `enqueue_outbound`. -/
def enqueue : InvoicePush := { w with row := some (w.row.getD ⟨.pending, none, none⟩) }

/-- `_release_rows`: a row is dropped, or parked where its create may have reached Xero. -/
def release (message : String) : InvoicePush :=
  { w with row := (w.row.filter fun row => row.payload.isSome).map fun row =>
      { row with status := .blocked, errorMessage := some message } }

/-- Another invoice is linked to one of Xero's, unless this one is. -/
def linkOther (id : ℕ) : InvoicePush := if w.pushedId = some id then w else { w with others := id :: w.others }

/-- An invoice is changed in Xero, under its number. -/
def remoteEdit (id : ℕ) (contactId : Option String) (lineItems : List SentLine) : InvoicePush :=
  { w with invoices := w.invoices.map fun i =>
      if i.id = id then { i with contactId := contactId, lineItems := lineItems } else i }

end InvoicePush

/-! ## Runs -/

/-- What happens to the invoice, here and in Xero. -/
inductive PushStep where
  | enqueue
  | begin (parked : Bool)
  | lookup
  | arrive (id : Option ℕ) (message : String)
  | arriveLate (i : ℕ) (id : Option ℕ) (message : String)
  | answered
  | link
  | finish
  | fails (message : String)
  | crash
  | lateEnds (i : ℕ)
  | release (message : String)
  | connect (handle : Option String)
  | linkOther (id : ℕ)
  | edit (doc : Option PushInvoice)
  | remoteAdd (invoice : RemoteInvoice)
  | remoteEdit (id : ℕ) (contactId : Option String) (lineItems : List SentLine)
  | tick (d : ℕ)

namespace InvoicePush

/-- One step. -/
def step (T : XeroTiming) (w : InvoicePush) : PushStep → InvoicePush
  | .enqueue => w.enqueue
  | .begin parked => w.begin parked
  | .lookup => w.lookup
  | .arrive id message => w.arrive T id message
  | .arriveLate i id message => w.arriveLate T i id message
  | .answered => w.answered
  | .link => w.link
  | .finish => w.finish
  | .fails message => w.fail message
  | .crash => w.ended
  | .lateEnds i => { w with late := w.late.eraseIdx i }
  | .release message => w.release message
  | .connect handle => { w with storeHandle := handle }
  | .linkOther id => w.linkOther id
  | .edit doc => { w with doc := doc }
  | .remoteAdd invoice => { w with invoices := invoice :: w.invoices }
  | .remoteEdit id contactId lineItems => w.remoteEdit id contactId lineItems
  | .tick d => { w with now := w.now + d }

def run (T : XeroTiming) (w : InvoicePush) (steps : List PushStep) : InvoicePush := steps.foldl (step T) w

/-- What a run relies on: an attempt begins once no create of one that is over may still reach Xero
    (the relay settles a call before its client gives it up), a create reaches Xero in time, and no
    other invoice is linked to the one that is about to be. -/
def promised (T : XeroTiming) (w : InvoicePush) : PushStep → Bool
  | .begin _ => w.late.isEmpty
  | .arrive _ _ => w.call.all fun call => w.now ≤ call.decidedAt + T.call
  | .arriveLate i _ _ => w.late[i]?.all fun call => w.now ≤ call.decidedAt + T.call
  | .link =>
    match w.attempt with
    | .settling _ _ id => id ∉ w.others
    | _ => true
  | _ => true

end InvoicePush

end Celerp
