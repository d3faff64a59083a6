/-
  Payment events on a document that was never issued, or no longer stands.

  A draft or void document is to keep its status whatever is paid on it, and a
  void one owes nothing.  `receive` looks at the status before it writes one; the
  void, delete, refund and refund-reversal branches write the status their
  balances make.  `LeavesUnissued` are the events that touch no status on an
  unissued document; a run of payment events keeps a draft a draft and a void
  document void exactly when each of its events is one.
-/
import Celerp.Docs.Document
import Celerp.Lib.Runs

namespace Celerp

open Runs

/-- A document that is a draft or void. -/
def Unissued (d : Document) : Prop := ∃ s ∈ UNISSUED_STATUSES, d.status = some s

/-- The payment events that write no status on an unissued document: a payment and
    a Stripe release always, a void that names no payment on record, a deletion
    that names no active one (in the old form: no place in the list), and never a
    refund or its reversal. -/
def LeavesUnissued (d : Document) : PaymentEvent → Prop
  | .received _ => True
  | .voided idx _ _ => paymentAt idx d.payments = none
  | .deleted idx true => ∀ p, paymentAt idx d.payments = some p → p.status ≠ .active
  | .deleted idx false => ¬(0 ≤ idx ∧ idx < d.payments.length)
  | .refunded _ _ => False
  | .refundReversed _ _ => False
  | .stripeReleased _ _ => True

/-- The document still has the status `s`, and owes nothing where that is void. -/
def StillUnissued (s : DocStatus) (d : Document) : Prop :=
  d.status = some s ∧ (s = .void → d.amountOutstanding = 0)

theorem settle_status_ne {d e : Document} {paid : ℚ} (hd : Unissued d) :
    (e.settle paid).status ≠ d.status := by
  obtain ⟨s, hs, hds⟩ := hd
  intro h
  have hpaid : e.paymentStatus (e.paymentBalances paid).1 (e.paymentBalances paid).2 = s :=
    Option.some.inj (h.trans hds)
  exact paymentStatus_issued e _ _ (hpaid ▸ hs)

theorem receive_of_unissued {d : Document} {s : DocStatus} {data : ReceivedData}
    (hs : s ∈ UNISSUED_STATUSES) (hd : StillUnissued s d) :
    StillUnissued s (d.receive data) := by
  obtain ⟨hstatus, howes⟩ := hd
  have hunissued : ¬d.status.getD .draft ∉ UNISSUED_STATUSES := by simpa [hstatus] using hs
  unfold Document.receive
  simp only [if_neg hunissued]
  split_ifs with hdraft
  · obtain rfl : s = .draft := Option.some.inj (hstatus.symm.trans hdraft)
    exact ⟨hstatus, nofun⟩
  · exact ⟨hstatus, howes⟩

/-- An event keeps the status of an unissued document exactly when it is one that
    writes none. -/
theorem applyPayment_status_iff {d : Document} (hd : Unissued d) (e : PaymentEvent) :
    (applyPayment d e).status = d.status ↔ LeavesUnissued d e := by
  cases e with
  | received data =>
    obtain ⟨s, hs, hds⟩ := hd
    have hunissued : ¬d.status.getD .draft ∉ UNISSUED_STATUSES := by simpa [hds] using hs
    simp only [applyPayment, Document.receive, if_neg hunissued, LeavesUnissued, iff_true]
    split_ifs <;> rfl
  | voided idx reason refundDate =>
    simp only [applyPayment, Document.voidPayment, LeavesUnissued]
    cases h : paymentAt idx d.payments with
    | none => simp
    | some p => simpa using settle_status_ne hd
  | deleted idx old =>
    cases old with
    | true =>
      simp only [applyPayment, Document.tombstone, LeavesUnissued]
      cases h : paymentAt idx d.payments with
      | none => simp
      | some p =>
        by_cases hp : p.status = .active
        · simpa [hp] using settle_status_ne hd
        · simp [hp]
    | false =>
      simp only [applyPayment, Document.compact, LeavesUnissued]
      by_cases hidx : 0 ≤ idx ∧ idx < d.payments.length
      · simpa [hidx] using settle_status_ne hd
      · simp [hidx]
  | refunded amount idx => simpa [applyPayment, Document.refund, LeavesUnissued] using settle_status_ne hd
  | refundReversed amount idx =>
    simpa [applyPayment, Document.reverseRefund, LeavesUnissued] using settle_status_ne hd
  | stripeReleased idx releasedAt => simp [applyPayment, Document.stripeRelease, LeavesUnissued]

/-- Events that write no status write no outstanding amount on a void document. -/
theorem stillUnissued_of_leaves {d : Document} {s : DocStatus} {e : PaymentEvent}
    (hs : s ∈ UNISSUED_STATUSES) (hd : StillUnissued s d) (he : LeavesUnissued d e) :
    StillUnissued s (applyPayment d e) := by
  cases e with
  | received data => exact receive_of_unissued hs hd
  | voided idx reason refundDate =>
    have hnone : paymentAt idx d.payments = none := he
    simpa only [applyPayment, Document.voidPayment, hnone] using hd
  | deleted idx old =>
    cases old with
    | true =>
      simp only [applyPayment, Document.tombstone]
      cases h : paymentAt idx d.payments with
      | none => exact hd
      | some p => simpa only [if_neg (he p h)] using hd
    | false => simpa only [applyPayment, Document.compact, if_neg he] using hd
  | refunded => exact he.elim
  | refundReversed => exact he.elim
  | stripeReleased => exact hd

theorem stillUnissued_step_iff {s : DocStatus} (hs : s ∈ UNISSUED_STATUSES) (d : Document)
    (e : PaymentEvent) (hd : StillUnissued s d) :
    StillUnissued s (applyPayment d e) ↔ LeavesUnissued d e := by
  refine ⟨fun h => ?_, stillUnissued_of_leaves hs hd⟩
  exact (applyPayment_status_iff ⟨s, hs, hd.1⟩ e).1 (h.1.trans hd.1.symm)

/-- **Payment events and unissued documents.**  An event keeps the status of a
    draft or void document exactly when it is one that writes none; and a run of
    payment events leaves a draft a draft and a void document void, owing nothing,
    in every state it reaches exactly when each of its events is such a one. -/
theorem unissued_kept_iff (s : DocStatus) (hs : s ∈ UNISSUED_STATUSES) (d : Document)
    (hd : d.status = some s) :
    (∀ e, (applyPayment d e).status = some s ↔ LeavesUnissued d e) ∧
      ∀ es, (s = .void → d.amountOutstanding = 0) →
        (EveryAfter applyPayment (StillUnissued s) d es ↔
          EveryStep applyPayment LeavesUnissued d es) := by
  constructor
  · intro e
    rw [← hd]
    exact applyPayment_status_iff ⟨s, hs, hd⟩ e
  · intro es howes
    refine everyAfter_iff (P := fun _ _ => True) (I := StillUnissued s) ?_ ?_ ⟨hd, howes⟩
      (everyStep_of_forall fun _ _ => trivial)
    · exact fun d e hd _ => stillUnissued_step_iff hs d e hd
    · exact fun d e hd _ he => stillUnissued_of_leaves hs hd he

/-- A void bill that was paid before it was voided: the payment is still on record. -/
def voidPaidBill : Document where
  status := some .void
  docType := some .bill
  currency := some "USD"
  total := 100
  returnedCredit := 0
  supplierCredit := 0
  credited := 0
  amountPaid := 100
  amountOutstanding := 0
  payments := [{ index := 0, amount := 100 }]

/-- A payment on a void bill is kept on record and writes no status. -/
theorem unissued_kept_voidPaidBill :
    EveryAfter applyPayment (StillUnissued .void) voidPaidBill [.received { amount := 5 }] :=
  ((unissued_kept_iff .void (by decide) voidPaidBill rfl).2 _ fun _ => rfl).2 ⟨trivial, trivial⟩

/-- Voiding its payment makes the void bill final, owing its total. -/
theorem voidPaidBill_revived :
    StillUnissued .void voidPaidBill ∧
      (applyPayment voidPaidBill (.voided 0 none none)).status = some .final ∧
      (applyPayment voidPaidBill (.voided 0 none none)).amountOutstanding = 100 := by
  refine ⟨⟨rfl, fun _ => rfl⟩, ?_, ?_⟩ <;> decide +kernel

end Celerp
