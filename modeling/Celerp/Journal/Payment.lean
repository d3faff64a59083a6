/-
  The journal entries of a document payment (`celerp/services/auto_je.py`): the
  entry a payment posts, and the entries that give it back in pieces or restore a
  piece given back.

  A payment clears the receivable or payable at the rate the document raised it at,
  and moves the bank at the rate the cash converted at; a difference between the two
  goes to an exchange gain or loss account.

  * `paymentEntry` is what `create_for_doc_payment` posts, `paymentReturnEntries`
    the lines of `payment_return_entries`;
  * `giveBack` posts a sequence of refunds (`void_for_doc_payment`) and of refunds
    reversed (`reverse_payment_refund`, which swaps the lines).
-/
import Celerp.Docs.Document
import Celerp.Journal.Entry

namespace Celerp

/-- The accounts a payment moves: the document's receivable or payable, the bank, and
    the exchange gain and loss accounts. -/
structure PaymentAccounts where
  control : String
  bank : String
  gain : String
  loss : String
  deriving DecidableEq, Repr

/-- What the entries of a payment are built from. -/
structure PaymentOnBooks where
  docType : DocType
  /-- the currency of the document -/
  currency : String
  base : String
  docRate : ExchangeRate
  settlementRate : ExchangeRate
  accounts : PaymentAccounts
  /-- the currencies of the bank accounts not kept in the books' currency -/
  bankCurrency : String → Option String

/-- `_PURCHASE_TYPES` -/
def PURCHASE_TYPES : List DocType := [.bill, .purchaseOrder]

namespace PaymentOnBooks
variable (P : PaymentOnBooks)

/-- Whether the payment moves money out of the bank: that of a bill, or the cash
    refund of a credit note. -/
def outflow : Bool := P.docType ∈ PURCHASE_TYPES ∨ P.docType = .creditNote

/-- `payment_amounts`: what `amount` of the payment moves on its receivable or payable
    and on its bank, after `already` of it was given back: what the running total
    converts to, less what was given back converts to. -/
def ledgerAmount (amount already : ℚ) : ℚ :=
  toBase (already + amount) P.docRate.value P.base - toBase already P.docRate.value P.base

@[inherit_doc ledgerAmount]
def bankAmount (amount already : ℚ) : ℚ :=
  toBase (already + amount) P.settlementRate.value P.base -
    toBase already P.settlementRate.value P.base

/-- `payment_bank_fx` with `bank_fx_fields`: what the bank line moves in the currency
    of its account, where that is the document's and not the books'. -/
def bankFx (amount : ℚ) (outflow : Bool) (account : String) : Option FxAmount :=
  let v := roundMoney amount P.currency
  if P.currency.toUpper ≠ P.base.toUpper ∧ P.bankCurrency account = some P.currency.toUpper then
    some ⟨P.currency.toUpper, P.settlementRate.value, if outflow then 0 else v,
      if outflow then v else 0⟩
  else none

/-- `payment_lines`: the two lines a payment posts, or that give it back. -/
def paymentLines (control bank : String) (ledger moved amount : ℚ) (returning : Bool) : List Line :=
  let out := P.outflow != returning
  if out then [.debitOf control ledger, { Line.creditOf bank moved with fx := P.bankFx amount out bank }]
  else [{ Line.debitOf bank moved with fx := P.bankFx amount out bank }, .creditOf control ledger]

/-- The lines of `create_for_doc_payment`. -/
def paymentEntryLines (amount : ℚ) : List Line :=
  withFxDifference
    (P.paymentLines P.accounts.control P.accounts.bank (P.ledgerAmount amount 0)
      (P.bankAmount amount 0) amount false)
    P.accounts.gain P.accounts.loss

/-- `create_for_doc_payment`: the entry a payment posts. -/
def paymentEntry (amount : ℚ) : Option (List Line) :=
  emitAutoPosted P.base (P.paymentEntryLines amount)

/-- The accounts a payment is given back on: of its control line, of its bank line, and
    of its exchange difference.  They are read off the payment's own entry, which is
    control and bank for an outflow and bank and control for a receipt, then the
    difference, if any; a payment without such an entry is given back on the
    document's own. -/
def returnAccounts (posted : List Line) : String × String × Option String :=
  match posted with
  | first :: second :: rest =>
    if P.outflow then (first.account, second.account, rest.head?.map (·.account))
    else (second.account, first.account, rest.head?.map (·.account))
  | _ => (P.accounts.control, P.accounts.bank, none)

/-- The lines that give back a piece on these accounts. -/
def returnLines (accounts : String × String × Option String) (amount already : ℚ) : List Line :=
  let lines := P.paymentLines accounts.1 accounts.2.1 (P.ledgerAmount amount already)
    (P.bankAmount amount already) amount true
  match accounts.2.2 with
  | some difference => balancedWithFxDifference lines difference
  | none => withFxDifference lines P.accounts.gain P.accounts.loss

/-- `payment_return_entries`: the lines that give back `amount` of the payment after
    `already` of it was given back. -/
def paymentReturnEntries (posted : List Line) (amount already : ℚ) : List Line :=
  P.returnLines (P.returnAccounts posted) amount already

end PaymentOnBooks

/-! ## Giving a payment back -/

/-- A piece of a payment given back, or the refund of a piece reversed. -/
inductive GiveBack where
  | refund (amount : ℚ)
  | restore (amount : ℚ)
  deriving DecidableEq, Repr

/-- The moves take what is given back from `given` to the whole `amount`, each piece
    positive. -/
def GivesBack (amount : ℚ) : ℚ → List GiveBack → Prop
  | given, [] => given = amount
  | given, .refund a :: moves => 0 < a ∧ given + a ≤ amount ∧ GivesBack amount (given + a) moves
  | given, .restore a :: moves => 0 < a ∧ a ≤ given ∧ GivesBack amount (given - a) moves

namespace PaymentOnBooks

/-- The entries a sequence of moves posts, with `given` given back so far.  A piece
    restored posts the lines that gave it back, swapped. -/
def giveBack (P : PaymentOnBooks) (posted : List Line) : ℚ → List GiveBack → Option (List Line)
  | _, [] => some []
  | given, .refund a :: moves => do
    let entry ← emitAutoPosted P.base (P.paymentReturnEntries posted a given)
    let rest ← giveBack P posted (given + a) moves
    pure (entry ++ rest)
  | given, .restore a :: moves => do
    let entry ← emitAutoPosted P.base ((P.paymentReturnEntries posted a (given - a)).map .swap)
    let rest ← giveBack P posted (given - a) moves
    pure (entry ++ rest)

end PaymentOnBooks

end Celerp
