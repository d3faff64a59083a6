/-
  The payments of a document (`celerp_docs/doc_projections.py`): the part of a
  document's state its payment events read and write, and the payment branches
  of `apply_documents_event`.

  * `paymentBalances` is `_payment_balances`, `paymentStatus` is
    `payment_status`;
  * `Document.settle` are the three writes the branches share: what is paid, what
    is outstanding, and the status the two make;
  * `applyPayment` is `apply_documents_event` on the `doc.payment.*` events.
-/
import Celerp.Money

namespace Celerp

/-! ## State -/

/-- The statuses a document stands in. -/
inductive DocStatus where
  | draft | final | sent | awaitingPayment | partPaid | paid
  | received | partReceived | returned | partReturned
  | closed | converted | void
  | other (name : String)
  deriving DecidableEq, Repr

/-- `UNISSUED_STATUSES`: a document in one of these was never issued, or no longer
    stands. -/
def UNISSUED_STATUSES : List DocStatus := [.draft, .void]

inductive DocType where
  | invoice | proforma | quotation | creditNote | debitNote | memo | bill | purchaseOrder
  | consignmentIn | subscriptionInvoice | subscriptionPo
  deriving DecidableEq, Repr

/-- `CREDITED_DOC_TYPES`: only a credit note and the invoice it credits settle each
    other. -/
def CREDITED_DOC_TYPES : List DocType := [.invoice, .creditNote]

inductive PaymentState where
  | active | voided | deleted
  | other (name : String)
  deriving DecidableEq, Repr

/-- The books a payment was posted on (`PaymentBooks`). -/
structure PaymentBooks where
  bankAccount : String
  baseCurrency : String
  docRate : ℚ
  settlementRate : ℚ
  deriving DecidableEq, Repr

/-- A payment on record.  Its `index`, not its place in the list, is its identity. -/
structure Payment where
  index : ℤ
  amount : ℚ
  currency : Option String := none
  method : Option String := none
  reference : Option String := none
  paymentDate : Option String := none
  bankAccount : Option String := none
  conversionRate : Option ℚ := none
  sourceDocId : Option String := none
  targetDocId : Option String := none
  pairedIndex : Option ℤ := none
  chargedAmount : Option ℚ := none
  books : Option PaymentBooks := none
  status : PaymentState := .active
  voidReason : Option String := none
  refundDate : Option String := none
  refunded : ℚ := 0
  refundCount : ℕ := 0
  stripeReleasedAt : Option String := none
  deriving DecidableEq, Repr

/-- A document, as far as its payments go. -/
structure Document where
  status : Option DocStatus
  docType : Option DocType
  currency : Option String
  total : ℚ
  returnedCredit : ℚ
  supplierCredit : ℚ
  credited : ℚ
  amountPaid : ℚ
  amountOutstanding : ℚ
  payments : List Payment
  deriving DecidableEq, Repr

/-- The data of a `doc.payment.received` event. -/
structure ReceivedData where
  amount : ℚ
  index : Option ℤ := none
  currency : Option String := none
  method : Option String := none
  reference : Option String := none
  paymentDate : Option String := none
  bankAccount : Option String := none
  conversionRate : Option ℚ := none
  sourceDocId : Option String := none
  targetDocId : Option String := none
  pairedIndex : Option ℤ := none
  chargedAmount : Option ℚ := none
  books : Option PaymentBooks := none

/-- The `doc.payment.*` events. -/
inductive PaymentEvent where
  | received (data : ReceivedData)
  | voided (paymentIndex : ℤ) (voidReason refundDate : Option String)
  | deleted (paymentIndex : ℤ) (tombstone : Bool)
  | refunded (amount : ℚ) (paymentIndex : Option ℤ)
  | refundReversed (amount : ℚ) (paymentIndex : ℤ)
  | stripeReleased (paymentIndex : ℤ) (releasedAt : String)

/-! ## Balances -/

namespace Document

/-- `str(state.get("currency") or "USD")` -/
def currencyOf (d : Document) : String :=
  match d.currency with
  | some c => if c = "" then "USD" else c
  | none => "USD"

/-- `_credited`: a `credited` an older release wrote on a bill takes nothing off
    what it owes. -/
def creditedOf (d : Document) : ℚ :=
  if ∃ t ∈ CREDITED_DOC_TYPES, d.docType = some t then d.credited else 0

/-- What the document's total, its supplier returns and the supplier credit they
    raised leave to be owed. -/
def owed (d : Document) : ℚ :=
  roundMoney (d.total - d.returnedCredit + d.supplierCredit) d.currencyOf

/-- `_payment_balances`: what is paid and what is outstanding. -/
def paymentBalances (d : Document) (paid : ℚ) : ℚ × ℚ :=
  let paidD := roundMoney (max 0 paid) d.currencyOf
  let credited := roundMoney d.creditedOf d.currencyOf
  (paidD, roundMoney (max 0 (d.owed - paidD - credited)) d.currencyOf)

/-- `payment_status`: paid once nothing is owed, partly paid while a payment or a
    credit note has settled part of it, otherwise final. -/
def paymentStatus (d : Document) (paid outstanding : ℚ) : DocStatus :=
  if outstanding = 0 then .paid
  else if 0 < paid ∨ 0 < d.creditedOf then .partPaid
  else .final

/-- The writes the payment branches share: the balances of `paid`, and the status
    they make. -/
def settle (d : Document) (paid : ℚ) : Document :=
  let b := d.paymentBalances paid
  { d with amountPaid := b.1, amountOutstanding := b.2, status := d.paymentStatus b.1 b.2 }

end Document

/-- `_left_of`: what a payment still holds of what is paid. -/
def Payment.leftOf (p : Payment) : ℚ := p.amount - p.refunded

/-! ## Payments by index -/

/-- The first payment with an index. -/
def paymentAt (idx : ℤ) (ps : List Payment) : Option Payment := ps.find? (·.index = idx)

/-- Update the first payment with an index in place. -/
def onPayment (idx : ℤ) (f : Payment → Payment) : List Payment → List Payment
  | [] => []
  | p :: ps => if p.index = idx then f p :: ps else p :: onPayment idx f ps

/-- Number the payments by their place. -/
def reindex (ps : List Payment) : List Payment :=
  ps.zipIdx.map fun p => { p.1 with index := p.2 }

/-! ## The payment events -/

namespace Document

/-- The payment a `doc.payment.received` event puts on record. -/
def recordOf (d : Document) (data : ReceivedData) : Payment where
  index := data.index.getD d.payments.length
  amount := data.amount
  currency := data.currency
  method := data.method
  reference := data.reference
  paymentDate := data.paymentDate
  bankAccount := data.bankAccount
  conversionRate := data.conversionRate
  sourceDocId := data.sourceDocId
  targetDocId := data.targetDocId
  pairedIndex := data.pairedIndex
  chargedAmount := data.chargedAmount
  books := data.books

/-- `doc.payment.received`.  A draft or void document keeps its own status, and a
    void one owes nothing. -/
def receive (d : Document) (data : ReceivedData) : Document :=
  let b := d.paymentBalances (d.amountPaid + data.amount)
  let paid : Document :=
    if d.status.getD .draft ∉ UNISSUED_STATUSES then d.settle (d.amountPaid + data.amount)
    else if d.status = some .draft then { d with amountPaid := b.1, amountOutstanding := b.2 }
    else { d with amountPaid := b.1 }
  { paid with payments := d.payments ++ [d.recordOf data] }

/-- `doc.payment.voided`: what is left of the payment comes off what is paid. -/
def voidPayment (d : Document) (idx : ℤ) (reason refundDate : Option String) : Document :=
  match paymentAt idx d.payments with
  | none => d
  | some p =>
    let void (p : Payment) : Payment :=
      { p with status := .voided, voidReason := reason, refundDate := refundDate }
    { d with payments := onPayment idx void d.payments }.settle (d.amountPaid - p.leftOf)

/-- `doc.payment.deleted` with a tombstone: an active payment is marked in place. -/
def tombstone (d : Document) (idx : ℤ) : Document :=
  match paymentAt idx d.payments with
  | none => d
  | some p =>
    if p.status = .active then
      { d with payments := onPayment idx ({ · with status := .deleted }) d.payments }.settle
        (d.amountPaid - p.leftOf)
    else d

/-- `doc.payment.deleted` from before the tombstone flag: the payment in that place
    goes, and the others are numbered anew. -/
def compact (d : Document) (idx : ℤ) : Document :=
  if 0 ≤ idx ∧ idx < d.payments.length then
    let left := match d.payments[idx.toNat]? with
      | some p => if p.status = .active then p.leftOf else 0
      | none => 0
    { d with payments := reindex (d.payments.eraseIdx idx.toNat) }.settle (d.amountPaid - left)
  else d

/-- `doc.payment.refunded` -/
def refund (d : Document) (amount : ℚ) (idx : Option ℤ) : Document :=
  let give (p : Payment) : Payment :=
    { p with refunded := p.refunded + amount, refundCount := p.refundCount + 1 }
  let ps := match idx with
    | some i => onPayment i give d.payments
    | none => d.payments
  { d with payments := ps }.settle (d.amountPaid - amount)

/-- `doc.payment.refund_reversed` -/
def reverseRefund (d : Document) (amount : ℚ) (idx : ℤ) : Document :=
  let restore (p : Payment) : Payment := { p with refunded := max 0 (p.refunded - amount) }
  { d with payments := onPayment idx restore d.payments }.settle (d.amountPaid + amount)

/-- `doc.payment.stripe_released` -/
def stripeRelease (d : Document) (idx : ℤ) (releasedAt : String) : Document :=
  { d with payments := onPayment idx ({ · with stripeReleasedAt := releasedAt }) d.payments }

end Document

/-- `apply_documents_event` on the payment events. -/
def applyPayment (d : Document) : PaymentEvent → Document
  | .received data => d.receive data
  | .voided idx reason refundDate => d.voidPayment idx reason refundDate
  | .deleted idx true => d.tombstone idx
  | .deleted idx false => d.compact idx
  | .refunded amount idx => d.refund amount idx
  | .refundReversed amount idx => d.reverseRefund amount idx
  | .stripeReleased idx releasedAt => d.stripeRelease idx releasedAt

/-! ## What the branches write -/

section
variable (d : Document) (paid : ℚ)

@[simp] theorem settle_payments : (d.settle paid).payments = d.payments := rfl

@[simp] theorem settle_amountPaid :
    (d.settle paid).amountPaid = roundMoney (max 0 paid) d.currencyOf := rfl

/-- What its payments make a document is never a draft nor void. -/
theorem paymentStatus_issued (outstanding : ℚ) :
    d.paymentStatus paid outstanding ∉ UNISSUED_STATUSES := by
  unfold Document.paymentStatus
  split_ifs <;> decide

end

section
variable {idx : ℤ} {f : Payment → Payment} {p : Payment}

theorem onPayment_of_none : ∀ {ps : List Payment}, paymentAt idx ps = none → onPayment idx f ps = ps
  | [], _ => rfl
  | q :: ps, h => by
    have hq : q.index ≠ idx := fun hq => by simp [paymentAt, hq] at h
    have hps : paymentAt idx ps = none := by simpa [paymentAt, hq] using h
    rw [onPayment, if_neg hq, onPayment_of_none hps]

theorem mem_of_paymentAt {ps : List Payment} (h : paymentAt idx ps = some p) : p ∈ ps :=
  List.mem_of_find?_eq_some h

theorem forall_onPayment {P : Payment → Prop} : ∀ {ps : List Payment},
    (∀ p, paymentAt idx ps = some p → P (f p)) → (∀ p ∈ ps, P p) → ∀ p ∈ onPayment idx f ps, P p
  | [], _, _ => by simp [onPayment]
  | q :: ps, hf, hps => by
    rw [List.forall_mem_cons] at hps
    by_cases hq : q.index = idx
    · rw [onPayment, if_pos hq]
      exact List.forall_mem_cons.2 ⟨hf q (by simp [paymentAt, hq]), hps.2⟩
    · rw [onPayment, if_neg hq]
      refine List.forall_mem_cons.2 ⟨hps.1, forall_onPayment (fun p hp => hf p ?_) hps.2⟩
      simpa [paymentAt, hq] using hp

theorem sum_onPayment (g : Payment → ℚ) : ∀ {ps : List Payment}, paymentAt idx ps = some p →
    ((onPayment idx f ps).map g).sum = (ps.map g).sum - g p + g (f p)
  | [], h => by simp [paymentAt] at h
  | q :: ps, h => by
    by_cases hq : q.index = idx
    · obtain rfl : q = p := by simpa [paymentAt, hq] using h
      simp only [onPayment, if_pos hq, List.map_cons, List.sum_cons]
      ring
    · have hps : paymentAt idx ps = some p := by simpa [paymentAt, hq] using h
      have ih := sum_onPayment g hps
      simp only [onPayment, if_neg hq, List.map_cons, List.sum_cons, ih]
      ring

end

end Celerp
