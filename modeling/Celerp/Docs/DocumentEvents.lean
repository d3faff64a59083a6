/-
  The state of a document under its events (`celerp_docs/doc_projections.py`).

  `applyDocumentsEvent` is `apply_documents_event` on the events of a document: its status
  and its fulfillment, what it received and gave back, what it is paid, and what a void
  remembers.  The payment branches are those of `applyPayment`.

  * `receivedLineIndex` is `received_line_index`, the line a receipt is for;
  * `receiptStatus` is `_receipt_status`, `statusWithoutReceipts` is
    `_status_without_receipts`;
  * the other definitions of `DocumentState` are one branch each.

  An unset number reads as 0, and a key holding null is one that is not there.  The fields
  no status is read from (contacts, references, files, notes, conversions, draws) are left
  out, and so are the events that write only them.
-/
import Celerp.Docs.Document
import Celerp.Docs.LineIdentity

namespace Celerp

/-! ## Lines and receipts -/

/-- The characters `str.strip` takes off. -/
def isSpace (c : Char) : Bool :=
  (0x09 ≤ c.toNat ∧ c.toNat ≤ 0x0D) ∨ (0x1C ≤ c.toNat ∧ c.toNat ≤ 0x20) ∨ (0x2000 ≤ c.toNat ∧ c.toNat ≤ 0x200A) ∨
    c.toNat ∈ [0x85, 0xA0, 0x1680, 0x2028, 0x2029, 0x202F, 0x205F, 0x3000]

/-- `str.strip` -/
def strip (text : String) : String :=
  String.ofList ((text.toList.dropWhile isSpace).reverse.dropWhile isSpace).reverse

/-- A line of a document, as far as receipts tell it. -/
structure GoodsLine extends IdLine where
  sku : Option String := none
  name : Option String := none
  quantity : ℚ := 0
  quantityReceived : Option ℚ := none
  deriving DecidableEq

/-- An entry of `received_items`. -/
structure ReceiptEntry where
  quantityReceived : ℚ
  sourceLineId : Option String := none
  poLineIndex : ℤ := -1
  itemId : Option String := none
  sku : Option String := none
  name : Option String := none
  receiveAs : Option String := none
  deriving DecidableEq

/-- An entry of `returned_items`. -/
structure ReturnEntry where
  quantityReturned : ℚ
  returnKey : Option String := none
  deriving DecidableEq

/-- A text neither missing nor blank. -/
def nonblank (text : Option String) : Option String := text.filter (· ≠ "")

/-- `_holds_receipt`: the line holds the goods a receipt entry names. -/
def holdsReceipt (line : GoodsLine) (entry : ReceiptEntry) (inPlace : Bool) : Bool :=
  let sku := strip (entry.sku.getD "")
  let lineSku := strip (line.sku.getD "")
  if (nonblank entry.itemId).isSome ∨ sku ≠ "" then
    ((nonblank entry.itemId).isSome ∧ line.lineItemId = nonblank entry.itemId) ∨ (sku ≠ "" ∧ lineSku = sku)
  else if line.lineItemId.isSome ∨ lineSku ≠ "" then false
  else
    let name := strip (entry.name.getD "")
    inPlace ∨ (name ≠ "" ∧ strip (((nonblank line.name).or line.description).getD "") = name)

/-- The place of the only line with a property. -/
def onlyIndex (p : GoodsLine → Bool) (lines : List GoodsLine) : Option ℕ :=
  match lines.zipIdx.filter (fun l => p l.1) with
  | [l] => some l.2
  | _ => none

/-- `received_line_index`: an entry with its line's id names that line; an older one names
    its line by position, trusted while the line there holds its goods, otherwise the one
    line holding them. -/
def receivedLineIndex (lines : List GoodsLine) (entry : ReceiptEntry) : Option ℕ :=
  match nonblank entry.sourceLineId with
  | some id => onlyIndex (fun line => line.lineId = .text id) lines
  | none =>
    if 0 ≤ entry.poLineIndex ∧ (lines[entry.poLineIndex.toNat]?).any (holdsReceipt · entry true) then
      some entry.poLineIndex.toNat
    else onlyIndex (holdsReceipt · entry false) lines

/-- What the entries received on the line at a place. -/
def receivedOn (lines : List GoodsLine) (entries : List ReceiptEntry) (i : ℕ) : ℚ :=
  ((entries.filter fun entry => receivedLineIndex lines entry = some i).map (·.quantityReceived)).sum

/-! ## State -/

/-- A document's state, with what its events read and write beside its payments. -/
structure DocumentState extends Document where
  finalized : Bool := false
  fulfillmentStatus : Option String := none
  voidReason : Option String := none
  preVoidStatus : Option DocStatus := none
  preVoidFulfillment : Option String := none
  preReceiptStatus : Option DocStatus := none
  lineItems : List GoodsLine := []
  receivedItems : List ReceiptEntry := []
  receivedItemIds : List String := []
  returnedItems : List ReturnEntry := []
  /-- `amount_outstanding` is set, as it is from the creation on -/
  owing : Bool := false
  deriving DecidableEq

/-- The state before the first event. -/
def DocumentState.empty : DocumentState where
  status := none
  docType := none
  currency := none
  total := 0
  returnedCredit := 0
  supplierCredit := 0
  credited := 0
  amountPaid := 0
  amountOutstanding := 0
  payments := []

/-- The fields of a document an event's data names, each with its value. -/
structure DocumentFields where
  status : Option DocStatus := none
  docType : Option DocType := none
  currency : Option String := none
  total : Option ℚ := none
  returnedCredit : Option ℚ := none
  supplierCredit : Option ℚ := none
  credited : Option ℚ := none
  amountPaid : Option ℚ := none
  amountOutstanding : Option ℚ := none
  payments : Option (List Payment) := none
  finalized : Option Bool := none
  fulfillmentStatus : Option String := none
  voidReason : Option String := none
  preVoidStatus : Option DocStatus := none
  preVoidFulfillment : Option String := none
  preReceiptStatus : Option DocStatus := none
  lineItems : Option (List GoodsLine) := none
  receivedItems : Option (List ReceiptEntry) := none
  receivedItemIds : Option (List String) := none
  returnedItems : Option (List ReturnEntry) := none
  deriving DecidableEq

/-- The data of a `doc.voided` event. -/
structure VoidData where
  reason : Option String := none
  preVoidStatus : Option DocStatus := none
  preVoidFulfillment : Option String := none
  deriving DecidableEq

/-- The data of a `doc.items_returned` event. -/
structure ReturnData where
  items : List ReturnEntry := []
  payableCredit : ℚ := 0
  supplierCredit : ℚ := 0
  allReturned : Option Bool := none
  deriving DecidableEq

/-- The events of a document. -/
inductive DocumentEvent where
  | created (data : DocumentFields)
  | updated (fieldsChanged : DocumentFields)
  | renumbered (fieldsChanged : DocumentFields)
  | sent
  | finalized (skipReceiving : Bool)
  | convertedToBill (docType : Option DocType)
  | voided (data : VoidData)
  | revertedToDraft (docType : Option DocType)
  | unvoided (restoredStatus : Option DocStatus)
  | closed
  | reopened (restoredStatus : Option DocStatus)
  | payment (e : PaymentEvent)
  | converted
  | received (items : List ReceiptEntry) (createdItemIds : List String)
  | itemsReturned (data : ReturnData)
  | supplierReturnUndone (returnKey : Option String) (payableCredit supplierCredit : ℚ)
  | receiveUndone
  | sharedImport (data : DocumentFields)
  | fulfilled
  | partiallyFulfilled
  | partiallyReverted
  | fulfillmentReversed
  | patched (data : DocumentFields)
  /-- an event that writes none of these fields -/
  | noted (name : String)

/-! ## The branches -/

namespace DocumentState
variable (s : DocumentState)

/-- `current.update(data)` -/
def update (data : DocumentFields) : DocumentState where
  status := data.status.or s.status
  docType := data.docType.or s.docType
  currency := data.currency.or s.currency
  total := data.total.getD s.total
  returnedCredit := data.returnedCredit.getD s.returnedCredit
  supplierCredit := data.supplierCredit.getD s.supplierCredit
  credited := data.credited.getD s.credited
  amountPaid := data.amountPaid.getD s.amountPaid
  amountOutstanding := data.amountOutstanding.getD s.amountOutstanding
  payments := data.payments.getD s.payments
  finalized := data.finalized.getD s.finalized
  fulfillmentStatus := data.fulfillmentStatus.or s.fulfillmentStatus
  voidReason := data.voidReason.or s.voidReason
  preVoidStatus := data.preVoidStatus.or s.preVoidStatus
  preVoidFulfillment := data.preVoidFulfillment.or s.preVoidFulfillment
  preReceiptStatus := data.preReceiptStatus.or s.preReceiptStatus
  lineItems := data.lineItems.getD s.lineItems
  receivedItems := data.receivedItems.getD s.receivedItems
  receivedItemIds := data.receivedItemIds.getD s.receivedItemIds
  returnedItems := data.returnedItems.getD s.returnedItems
  owing := s.owing || data.amountOutstanding.isSome

/-- The status its payments make a document (`payment_status` at what it is paid). -/
def statusPaid : DocStatus :=
  let b := s.paymentBalances s.amountPaid
  s.paymentStatus b.1 b.2

/-- What is outstanding, worked out anew. -/
def owe : DocumentState := { s with amountOutstanding := (s.paymentBalances s.amountPaid).2 }

/-- `doc.created`.  An older import could store a draft or void document as paid; no payment
    was ever recorded on it, so it holds none. -/
def create (data : DocumentFields) : DocumentState :=
  let s := s.update data
  let s : DocumentState :=
    { s with
      status := s.status.or (some .draft)
      amountOutstanding := if s.owing then s.amountOutstanding else s.total
      owing := true }
  if (∃ t ∈ UNISSUED_STATUSES, s.status = some t) ∧ (s.amountPaid ≠ 0 ∨ s.payments ≠ []) then
    { s with
      amountPaid := 0
      payments := []
      amountOutstanding := if s.status = some .void then 0 else (s.paymentBalances 0).2 }
  else s

/-- The edits of a template, and those that settle a credit note, may write the status. -/
def writesStatus (fieldsChanged : DocumentFields) : Bool :=
  s.docType = some .subscriptionInvoice ∨ s.docType = some .subscriptionPo ∨ fieldsChanged.credited.isSome

/-- The changes an edit makes (`_PATCH_PROTECTED`): another one leaves the status as it is. -/
def changes (fieldsChanged : DocumentFields) : DocumentFields :=
  if s.writesStatus fieldsChanged then fieldsChanged else { fieldsChanged with status := none }

/-- `doc.updated` -/
def edit (fieldsChanged : DocumentFields) : DocumentState :=
  let t := s.update (s.changes fieldsChanged)
  if fieldsChanged.total.isSome ∨ fieldsChanged.lineItems.isSome then t.owe
  else if fieldsChanged.credited.isSome ∧ ¬∃ type ∈ CREDITED_DOC_TYPES, t.docType = some type then
    if ∃ status ∈ [DocStatus.final, .partPaid, .paid], t.status = some status then
      { t.owe with status := some t.statusPaid }
    else t.owe
  else t

/-- `doc.voided`: a void of a document already void changes nothing. -/
def markVoid (data : VoidData) : DocumentState :=
  if s.status = some .void then s
  else
    { s with
      status := some .void
      amountOutstanding := 0
      voidReason := (nonblank data.reason).or s.voidReason
      preVoidStatus := (data.preVoidStatus.filter (· ≠ .other "")).or s.preVoidStatus
      preVoidFulfillment := (nonblank data.preVoidFulfillment).or s.preVoidFulfillment }

/-- `doc.unvoided` -/
def unvoid (restoredStatus : Option DocStatus) : DocumentState :=
  { s.owe with
    status := some (restoredStatus.getD .final)
    voidReason := none
    preVoidStatus := none }

/-- `_status_without_receipts`: still a draft when the goods came in before it was issued,
    otherwise what its payments make it. -/
def statusWithoutReceipts : DocStatus :=
  if s.preReceiptStatus = some .draft ∧ s.finalized = false then .draft
  else if s.statusPaid = .final ∧ s.preReceiptStatus = some .awaitingPayment then .awaitingPayment
  else s.statusPaid

/-- `_receipt_status`: received once every line has all it ordered, partly received
    otherwise. -/
def receiptStatus : DocStatus :=
  let got := s.lineItems.zipIdx.map fun l => (receivedOn s.lineItems s.receivedItems l.2, l.1.quantity)
  if got ≠ [] ∧ ∀ g ∈ got, ¬g.1 + 1 / 10 ^ 9 < g.2 then .received
  else if ∃ g ∈ got, 0 < g.1 then .partReceived
  else s.statusWithoutReceipts

/-- The status a document holding receipts reads as, with each line's received quantity
    written onto it. -/
def readReceipts : DocumentState :=
  { s with
    status := some s.receiptStatus
    lineItems := s.lineItems.zipIdx.map fun l =>
      { l.1 with quantityReceived := some (receivedOn s.lineItems s.receivedItems l.2) } }

/-- `_is_inbound_doc` -/
def inbound : Bool := s.docType = some .bill ∨ s.docType = some .consignmentIn

/-- What a revert clears on an inbound document, so that it can be received again. -/
def clearReceipts : DocumentState :=
  let t : DocumentState :=
    { s with
      fulfillmentStatus := none
      receivedItems := []
      receivedItemIds := []
      returnedItems := []
      supplierCredit := 0
      returnedCredit := 0
      lineItems := s.lineItems.map fun line => { line with entityId := none, quantityReceived := none } }
  if s.returnedCredit ≠ 0 then t.owe else t

/-- `doc.reverted_to_draft`.  A bill going back to its purchase order keeps the order's
    receipts. -/
def revertToDraft (docType : Option DocType) : DocumentState :=
  let t : DocumentState := { s with status := some .draft, finalized := false, docType := docType.or s.docType }
  if t.inbound then t.clearReceipts
  else if t.receivedItems ≠ [] then
    if t.returnedItems ≠ [] then { t with status := some .partReturned } else t.readReceipts
  else t

/-- The id the goods of a receipt entry take, and the ids left: that of the next new parcel,
    or, on an outbound document, of the item it names. -/
def parcelOf (inbound : Bool) (ids : List String) (recv : ReceiptEntry) : Option String × List String :=
  if inbound = false ∧ (nonblank recv.itemId).isSome then (recv.itemId, ids)
  else if (nonblank recv.receiveAs).getD "stock" = "stock" then (nonblank ids.head?, ids.tail)
  else (none, ids)

/-- A receipt entry writes the id of its goods back onto its line, where that has none. -/
def assignParcel (inbound : Bool) (acc : List GoodsLine × List String) (recv : ReceiptEntry) :
    List GoodsLine × List String :=
  let parcel := parcelOf inbound acc.2 recv
  match parcel.1, receivedLineIndex acc.1 recv with
  | some id, some i => (acc.1.modify i fun line => { line with entityId := line.entityId.or (some id) }, parcel.2)
  | _, _ => (acc.1, parcel.2)

/-- `doc.received` -/
def receiveItems (items : List ReceiptEntry) (createdItemIds : List String) : DocumentState :=
  let t : DocumentState :=
    { s with
      preReceiptStatus := s.preReceiptStatus.or s.status
      receivedItems := s.receivedItems ++ items
      receivedItemIds := s.receivedItemIds ++ createdItemIds
      lineItems := (items.foldl (assignParcel s.inbound) (s.lineItems, createdItemIds)).1 }
  t.readReceipts

/-- What came in, and what went back. -/
def totalReceived : ℚ := (s.receivedItems.map (·.quantityReceived)).sum
def totalReturned : ℚ := (s.returnedItems.map (·.quantityReturned)).sum

/-- The return is set down, and what it takes off the bill. -/
def takeReturn (data : ReturnData) : DocumentState :=
  let t : DocumentState := { s with returnedItems := s.returnedItems ++ data.items }
  if data.payableCredit ≠ 0 then
    { t with
      returnedCredit := t.returnedCredit + data.payableCredit
      supplierCredit := t.supplierCredit + data.supplierCredit : DocumentState }.owe
  else t

/-- `doc.items_returned`.  Returns recorded before the event said whether all went back
    compare the quantities. -/
def returnItems (data : ReturnData) : DocumentState :=
  let t := s.takeReturn data
  match data.allReturned with
  | some true => { t with status := some .returned }
  | some false => { t with status := some .partReturned }
  | none =>
    if 0 < t.totalReceived ∧ t.totalReceived ≤ t.totalReturned + 1 / 10 ^ 9 then { t with status := some .returned }
    else if 0 < t.totalReturned then { t with status := some .partReturned }
    else t

/-- `doc.supplier_return_undone` -/
def undoSupplierReturn (returnKey : Option String) (payableCredit supplierCredit : ℚ) : DocumentState :=
  let t : DocumentState :=
    { s with
      returnedItems := s.returnedItems.filter (·.returnKey ≠ returnKey)
      returnedCredit := s.returnedCredit - payableCredit
      supplierCredit := s.supplierCredit - supplierCredit : DocumentState }.owe
  if t.returnedItems ≠ [] then { t with status := some .partReturned }
  else if 0 < (t.paymentBalances t.amountPaid).1 then { t with status := some t.statusPaid }
  else t.readReceipts

/-- `doc.receive_undone` -/
def undoReceive : DocumentState :=
  { s with
    receivedItems := []
    receivedItemIds := []
    returnedItems := []
    status := some s.statusWithoutReceipts
    preReceiptStatus := none
    lineItems := s.lineItems.map fun line =>
      { line with
        entityId := line.entityId.filter (· ∉ s.receivedItemIds)
        quantityReceived := line.quantityReceived.map fun _ => 0 } }

/-- `doc.shared_import` -/
def importShared (data : DocumentFields) : DocumentState :=
  let t := s.update data
  { t with
    status := some .received
    amountOutstanding := if t.owing then t.amountOutstanding else t.total
    owing := true }

end DocumentState

/-- `apply_documents_event` on the events of a document. -/
def applyDocumentsEvent (s : DocumentState) : DocumentEvent → DocumentState
  | .created data => s.create data
  | .updated fieldsChanged => s.edit fieldsChanged
  | .renumbered fieldsChanged => s.update fieldsChanged
  | .sent => { s with status := some .sent }
  | .finalized skipReceiving =>
    { s with status := some (if skipReceiving then .awaitingPayment else .final), finalized := true }
  | .convertedToBill docType =>
    { s with status := some .awaitingPayment, finalized := true, docType := docType.or s.docType }
  | .voided data => s.markVoid data
  | .revertedToDraft docType => s.revertToDraft docType
  | .unvoided restoredStatus => s.unvoid restoredStatus
  | .closed => { s with status := some .closed }
  | .reopened restoredStatus =>
    { s with status := some ((restoredStatus.filter (· ≠ .other "")).getD .final) }
  | .payment e => { s with toDocument := applyPayment s.toDocument e }
  | .converted => { s with status := some .converted }
  | .received items createdItemIds => s.receiveItems items createdItemIds
  | .itemsReturned data => s.returnItems data
  | .supplierReturnUndone returnKey payableCredit supplierCredit =>
    s.undoSupplierReturn returnKey payableCredit supplierCredit
  | .receiveUndone => s.undoReceive
  | .sharedImport data => s.importShared data
  | .fulfilled => { s with fulfillmentStatus := some "fulfilled" }
  | .partiallyFulfilled => { s with fulfillmentStatus := some "partial" }
  | .partiallyReverted => { s with fulfillmentStatus := some "partial" }
  | .fulfillmentReversed => { s with fulfillmentStatus := none }
  | .patched data => s.update data
  | .noted _ => s

end Celerp
