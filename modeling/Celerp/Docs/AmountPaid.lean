/-
  What a document was paid, against what its live payments hold.

  `amount_paid` is adjusted event by event.  `PaidIsHeld` says that it is what the
  active payments hold, each its amount less its refunds, and that an issued
  document still owes the rest.  The events the recorder writes (`Recorded`) keep
  this exactly when they are `Live`: a void takes money off once only, and a
  refund comes back only to a payment that still counts (`paidIsHeld_iff`).
-/
import Celerp.Docs.Document
import Celerp.Lib.Runs

namespace Celerp

open Runs

/-! ## What the payments hold -/

/-- What a payment adds to what is paid: what is left of it while it is active. -/
def Payment.held (p : Payment) : ℚ := if p.status = .active then p.leftOf else 0

/-- What the active payments of a document hold. -/
def Document.held (d : Document) : ℚ := (d.payments.map Payment.held).sum

/-- A payment refunded by no more than its amount, in whole minor units. -/
structure Payment.Valid (c : String) (p : Payment) : Prop where
  refunded_nonneg : 0 ≤ p.refunded
  refunded_le : p.refunded ≤ p.amount
  amount_whole : IsWhole c p.amount
  refunded_whole : IsWhole c p.refunded

/-- What is paid is what the active payments hold, rounded at the document's
    currency, and an issued document owes what that leaves. -/
def PaidIsHeld (d : Document) : Prop :=
  d.amountPaid = roundMoney d.held d.currencyOf ∧
    (d.status.getD .draft ∉ UNISSUED_STATUSES → d.amountOutstanding =
      max 0 (d.owed - d.amountPaid - roundMoney d.creditedOf d.currencyOf))

/-- The payment events a recorder writes on a document: a payment is positive, a
    void or deletion names a payment on record, a refund an active one with at
    least that much left, and the reversal of a refund one with at least that much
    refunded. -/
def Recorded (d : Document) : PaymentEvent → Prop
  | .received data => 0 < data.amount
  | .voided idx _ _ => paymentAt idx d.payments ≠ none
  | .deleted idx old => old = true ∧ paymentAt idx d.payments ≠ none
  | .refunded amount idx => ∃ i p, idx = some i ∧ paymentAt i d.payments = some p ∧
      p.status = .active ∧ 0 ≤ amount ∧ amount ≤ p.leftOf
  | .refundReversed amount idx => ∃ p, paymentAt idx d.payments = some p ∧
      0 ≤ amount ∧ amount ≤ p.refunded
  | .stripeReleased _ _ => False

/-- The event's amount is money at the document's currency, as every recorder
    rounds it. -/
def InWholeUnits (d : Document) : PaymentEvent → Prop
  | .received data => IsWhole d.currencyOf data.amount
  | .refunded amount _ => IsWhole d.currencyOf amount
  | .refundReversed amount _ => IsWhole d.currencyOf amount
  | _ => True

/-- The events that count no money twice: a void of a payment that is active (or
    holds nothing, or where nothing is paid), and the reversal of a refund of an
    active payment (or of nothing). -/
def Live (d : Document) : PaymentEvent → Prop
  | .voided idx _ _ => ∀ p, paymentAt idx d.payments = some p →
      p.status = .active ∨ p.leftOf = 0 ∨ d.amountPaid = 0
  | .refundReversed amount idx => ∀ p, paymentAt idx d.payments = some p →
      p.status = .active ∨ amount = 0
  | _ => True

/-- The invariant of a run: the payments are valid, what is paid is what they hold,
    and once a payment is on record an issued document owes the rest. -/
structure Kept (d : Document) : Prop where
  valid : ∀ p ∈ d.payments, p.Valid d.currencyOf
  paid : d.amountPaid = d.held
  owes : d.payments ≠ [] → PaidIsHeld d

theorem Payment.held_of_active {p : Payment} (h : p.status = .active) : p.held = p.leftOf := if_pos h

theorem Payment.held_of_inactive {p : Payment} (h : p.status ≠ .active) : p.held = 0 := if_neg h

namespace Payment.Valid
variable {c : String} {p : Payment}

theorem leftOf_nonneg (hp : p.Valid c) : 0 ≤ p.leftOf := sub_nonneg.2 hp.refunded_le

theorem leftOf_whole (hp : p.Valid c) : IsWhole c p.leftOf := hp.amount_whole.sub hp.refunded_whole

theorem held_nonneg (hp : p.Valid c) : 0 ≤ p.held := by
  unfold Payment.held
  split_ifs
  · exact hp.leftOf_nonneg
  · exact le_rfl

theorem held_whole (hp : p.Valid c) : IsWhole c p.held := by
  unfold Payment.held
  split_ifs
  · exact hp.leftOf_whole
  · exact isWhole_zero c

end Payment.Valid

section
variable {d : Document}

theorem Document.held_nonneg (hd : ∀ p ∈ d.payments, p.Valid d.currencyOf) : 0 ≤ d.held :=
  List.sum_nonneg fun x hx => by
    obtain ⟨p, hp, rfl⟩ := List.mem_map.1 hx
    exact (hd p hp).held_nonneg

theorem Document.held_whole (hd : ∀ p ∈ d.payments, p.Valid d.currencyOf) :
    IsWhole d.currencyOf d.held :=
  IsWhole.sum fun x hx => by
    obtain ⟨p, hp, rfl⟩ := List.mem_map.1 hx
    exact (hd p hp).held_whole

/-! ## Settling -/

theorem isWhole_max {c : String} {v w : ℚ} (hv : IsWhole c v) (hw : IsWhole c w) :
    IsWhole c (max v w) := by
  rcases max_choice v w with h | h <;> rw [h]
  · exact hv
  · exact hw

/-- What `settle` leaves outstanding is what the document still owes. -/
theorem settle_outstanding (d : Document) (paid : ℚ) :
    (d.settle paid).amountOutstanding =
      max 0 (d.owed - (d.settle paid).amountPaid - roundMoney d.creditedOf d.currencyOf) := by
  have howed : IsWhole d.currencyOf d.owed := isWhole_roundMoney _ _
  have hrest := (howed.sub (isWhole_roundMoney (max 0 paid) d.currencyOf)).sub
    (isWhole_roundMoney d.creditedOf d.currencyOf)
  exact roundMoney_of_isWhole (isWhole_max (isWhole_zero _) hrest)

theorem settle_paidIsHeld_iff {paid : ℚ} (hd : ∀ p ∈ d.payments, p.Valid d.currencyOf)
    (hpaid : IsWhole d.currencyOf paid) : PaidIsHeld (d.settle paid) ↔ max 0 paid = d.held := by
  have hround : (d.settle paid).amountPaid = max 0 paid :=
    roundMoney_of_isWhole (isWhole_max (isWhole_zero _) hpaid)
  have hheld : roundMoney d.held d.currencyOf = d.held := roundMoney_of_isWhole (d.held_whole hd)
  constructor
  · rintro ⟨h, -⟩
    rw [← hround, h]
    exact hheld
  · intro h
    refine ⟨?_, fun _ => settle_outstanding d paid⟩
    rw [hround, h]
    exact hheld.symm

theorem PaidIsHeld.kept (hd : ∀ p ∈ d.payments, p.Valid d.currencyOf) (h : PaidIsHeld d) :
    Kept d where
  valid := hd
  paid := h.1.trans (roundMoney_of_isWhole (d.held_whole hd))
  owes := fun _ => h

end

/-! ## One event -/

section
variable {d : Document} {idx : ℤ} {p : Payment} {amount : ℚ}

theorem held_onPayment (f : Payment → Payment) (h : paymentAt idx d.payments = some p) :
    { d with payments := onPayment idx f d.payments }.held = d.held - p.held + (f p).held :=
  sum_onPayment Payment.held h

theorem held_onPayment_inactive {f : Payment → Payment} (h : paymentAt idx d.payments = some p)
    (hf : (f p).status ≠ .active) :
    { d with payments := onPayment idx f d.payments }.held = d.held - p.held := by
  rw [held_onPayment f h, Payment.held_of_inactive hf, add_zero]

theorem valid_onPayment {f : Payment → Payment} (hd : ∀ p ∈ d.payments, p.Valid d.currencyOf)
    (hf : ∀ p, paymentAt idx d.payments = some p → (f p).Valid d.currencyOf) :
    ∀ p ∈ onPayment idx f d.payments, p.Valid d.currencyOf :=
  forall_onPayment hf hd

theorem held_le (hd : ∀ p ∈ d.payments, p.Valid d.currencyOf)
    (h : paymentAt idx d.payments = some p) : p.held ≤ d.held :=
  List.single_le_sum (fun x hx => by
    obtain ⟨q, hq, rfl⟩ := List.mem_map.1 hx
    exact (hd q hq).held_nonneg) _ (List.mem_map_of_mem (mem_of_paymentAt h))

/-- What a step has to give: it ends with what is paid held by the payments exactly
    when `L`, and with valid payments. -/
def StepKeeps (d' : Document) (L : Prop) : Prop :=
  (PaidIsHeld d' ↔ L) ∧ ∀ p ∈ d'.payments, p.Valid d'.currencyOf

theorem stepKeeps_settle {paid : ℚ} {L : Prop} (hd : ∀ p ∈ d.payments, p.Valid d.currencyOf)
    (hpaid : IsWhole d.currencyOf paid) (hL : max 0 paid = d.held ↔ L) :
    StepKeeps (d.settle paid) L :=
  ⟨(settle_paidIsHeld_iff hd hpaid).trans hL, hd⟩

theorem stepKeeps_receive {data : ReceivedData} (hd : Kept d) (hpos : 0 < data.amount)
    (hwhole : IsWhole d.currencyOf data.amount) : StepKeeps (d.receive data) True := by
  let d' : Document := { d with payments := d.payments ++ [d.recordOf data] }
  have hvalid : ∀ p ∈ d'.payments, p.Valid d.currencyOf := by
    intro p hp
    rcases List.mem_append.1 hp with hp | hp
    · exact hd.valid p hp
    · obtain rfl := List.mem_singleton.1 hp
      exact ⟨le_rfl, hpos.le, hwhole, isWhole_zero _⟩
  have hheld : d'.held = d.held + data.amount := by
    simp [d', Document.held, Payment.held, Document.recordOf, Payment.leftOf]
  have hpaid : max 0 (d.amountPaid + data.amount) = d'.held := by
    rw [hheld, hd.paid, max_eq_right]
    linarith [d.held_nonneg hd.valid]
  by_cases hstatus : d.status.getD .draft ∉ UNISSUED_STATUSES
  · have heq : d.receive data = d'.settle (d.amountPaid + data.amount) := by
      simp only [Document.receive, if_pos hstatus]
      rfl
    rw [heq]
    refine stepKeeps_settle hvalid ?_ (iff_true_intro hpaid)
    rw [hd.paid]
    exact (d.held_whole hd.valid).add hwhole
  · -- a draft or void document keeps its status: only what is paid is to be shown
    have hshape : ∃ owes, d.receive data = { d' with
        amountPaid := roundMoney (max 0 (d.amountPaid + data.amount)) d.currencyOf
        amountOutstanding := owes } := by
      simp only [Document.receive, if_neg hstatus]
      split_ifs
      · exact ⟨_, rfl⟩
      · exact ⟨d.amountOutstanding, rfl⟩
    obtain ⟨owes, heq⟩ := hshape
    rw [heq]
    exact ⟨iff_true_intro ⟨congrArg (roundMoney · d.currencyOf) hpaid, fun h => absurd h hstatus⟩,
      hvalid⟩

theorem stepKeeps_void {reason refundDate : Option String} (hd : Kept d)
    (h : paymentAt idx d.payments = some p) :
    StepKeeps (d.voidPayment idx reason refundDate)
      (p.status = .active ∨ p.leftOf = 0 ∨ d.amountPaid = 0) := by
  have hp := hd.valid p (mem_of_paymentAt h)
  have hH := d.held_nonneg hd.valid
  simp only [Document.voidPayment, h]
  refine stepKeeps_settle (valid_onPayment hd.valid fun q hq => ?_) ?_ ?_
  · have hq := hd.valid q (mem_of_paymentAt hq)
    exact ⟨hq.1, hq.2, hq.3, hq.4⟩
  · rw [hd.paid]
    exact (d.held_whole hd.valid).sub hp.leftOf_whole
  rw [held_onPayment_inactive h (by simp), hd.paid]
  by_cases hact : p.status = .active
  · have hle := held_le hd.valid h
    rw [Payment.held_of_active hact] at hle ⊢
    simp only [hact, true_or, iff_true]
    exact max_eq_right (sub_nonneg.2 hle)
  · have hL := hp.leftOf_nonneg
    simp only [Payment.held_of_inactive hact, hact, false_or, sub_zero]
    constructor
    · intro hmax
      rcases max_choice 0 (d.held - p.leftOf) with h0 | h0 <;> rw [h0] at hmax
      · exact Or.inr hmax.symm
      · exact Or.inl (by linarith)
    · rintro (h0 | h0)
      · rw [h0, sub_zero, max_eq_right hH]
      · rw [h0, max_eq_left (by linarith)]

theorem stepKeeps_tombstone (hd : Kept d) (h : paymentAt idx d.payments = some p) :
    StepKeeps (d.tombstone idx) True := by
  simp only [Document.tombstone, h]
  by_cases hact : p.status = .active
  · have hp := hd.valid p (mem_of_paymentAt h)
    rw [if_pos hact]
    refine stepKeeps_settle (valid_onPayment hd.valid fun q hq => ?_) ?_ ?_
    · have hq := hd.valid q (mem_of_paymentAt hq)
      exact ⟨hq.1, hq.2, hq.3, hq.4⟩
    · rw [hd.paid]
      exact (d.held_whole hd.valid).sub hp.leftOf_whole
    have hle := held_le hd.valid h
    rw [Payment.held_of_active hact] at hle
    rw [held_onPayment_inactive h (by simp), hd.paid, Payment.held_of_active hact, iff_true]
    exact max_eq_right (sub_nonneg.2 hle)
  · rw [if_neg hact]
    have hne : d.payments ≠ [] := fun hnil => by simp [paymentAt, hnil] at h
    exact ⟨iff_true_intro (hd.owes hne), hd.valid⟩

theorem stepKeeps_refund (hd : Kept d) (h : paymentAt idx d.payments = some p)
    (hact : p.status = .active) (hnn : 0 ≤ amount) (hle : amount ≤ p.leftOf)
    (hwhole : IsWhole d.currencyOf amount) : StepKeeps (d.refund amount (some idx)) True := by
  have hpH := held_le hd.valid h
  rw [Payment.held_of_active hact] at hpH
  refine stepKeeps_settle (valid_onPayment hd.valid fun q hq => ?_) ?_ ?_
  · obtain rfl : p = q := Option.some.inj (h.symm.trans hq)
    have hp := hd.valid p (mem_of_paymentAt h)
    refine ⟨add_nonneg hp.refunded_nonneg hnn, ?_, hp.amount_whole, hp.refunded_whole.add hwhole⟩
    simp only [Payment.leftOf] at hle
    linarith
  · rw [hd.paid]
    exact (d.held_whole hd.valid).sub hwhole
  · rw [held_onPayment _ h, hd.paid, iff_true]
    simp only [Payment.held, Payment.leftOf, hact, if_true] at hpH hle ⊢
    rw [max_eq_right (by linarith)]
    ring

theorem stepKeeps_reverse (hd : Kept d) (h : paymentAt idx d.payments = some p)
    (hnn : 0 ≤ amount) (hle : amount ≤ p.refunded) (hwhole : IsWhole d.currencyOf amount) :
    StepKeeps (d.reverseRefund amount idx) (p.status = .active ∨ amount = 0) := by
  have hH := d.held_nonneg hd.valid
  have hmax : max 0 (p.refunded - amount) = p.refunded - amount := max_eq_right (by linarith)
  refine stepKeeps_settle (valid_onPayment hd.valid fun q hq => ?_) ?_ ?_
  · obtain rfl : p = q := Option.some.inj (h.symm.trans hq)
    have hp := hd.valid p (mem_of_paymentAt h)
    refine ⟨le_max_left _ _, ?_, hp.amount_whole, ?_⟩
    · simp only [hmax]
      linarith [hp.refunded_le]
    · simp only [hmax]
      exact hp.refunded_whole.sub hwhole
  · rw [hd.paid]
    exact (d.held_whole hd.valid).add hwhole
  · rw [held_onPayment _ h, hd.paid, max_eq_right (by linarith)]
    by_cases hact : p.status = .active
    · simp only [Payment.held, Payment.leftOf, hact, hmax, true_or, iff_true, if_true]
      ring
    · simp only [Payment.held, hact, if_false, false_or]
      constructor <;> intro h0 <;> linarith

/-- **One event.**  It keeps what is paid to what the payments hold exactly when it
    counts no money twice. -/
theorem paidIsHeld_step (hd : Kept d) {e : PaymentEvent} (he : Recorded d e)
    (hwhole : InWholeUnits d e) : StepKeeps (applyPayment d e) (Live d e) := by
  cases e with
  | received data => exact stepKeeps_receive hd he hwhole
  | voided idx reason refundDate =>
    obtain ⟨p, hp⟩ := Option.ne_none_iff_exists'.1 he
    have hlive : Live d (.voided idx reason refundDate) ↔
        p.status = .active ∨ p.leftOf = 0 ∨ d.amountPaid = 0 := by simp [Live, hp]
    rw [hlive]
    exact stepKeeps_void hd hp
  | deleted idx old =>
    obtain ⟨rfl, hne⟩ := he
    obtain ⟨p, hp⟩ := Option.ne_none_iff_exists'.1 hne
    exact stepKeeps_tombstone hd hp
  | refunded amount idx =>
    obtain ⟨i, p, rfl, hp, hact, hnn, hle⟩ := he
    exact stepKeeps_refund hd hp hact hnn hle hwhole
  | refundReversed amount idx =>
    obtain ⟨p, hp, hnn, hle⟩ := he
    have hlive : Live d (.refundReversed amount idx) ↔ p.status = .active ∨ amount = 0 := by
      simp [Live, hp]
    rw [hlive]
    exact stepKeeps_reverse hd hp hnn hle hwhole
  | stripeReleased => exact he.elim

end

/-! ## A run -/

/-- **What a document was paid is what its live payments hold.**  On a document
    created with no payments and over any recorded payment events in whole minor
    units, what is paid is what the active payments hold, and an issued document
    owes what that leaves, after every event exactly when no event counts money
    twice. -/
theorem amountPaid_held_iff (d : Document) (hnew : d.payments = []) (hpaid : d.amountPaid = 0)
    (es : List PaymentEvent) (hes : EveryStep applyPayment Recorded d es)
    (hwhole : EveryStep applyPayment InWholeUnits d es) :
    EveryAfter applyPayment PaidIsHeld d es ↔ EveryStep applyPayment Live d es := by
  have hkept : Kept d := by
    refine ⟨by simp [hnew], ?_, fun hne => absurd hnew hne⟩
    simp [hpaid, Document.held, hnew]
  refine everyAfter_iff ?_ ?_ hkept (hes.and hwhole)
  · exact fun d e hd he => (paidIsHeld_step hd he.1 he.2).1
  · intro d e hd he hlive
    obtain ⟨hiff, hvalid⟩ := paidIsHeld_step hd he.1 he.2
    exact (hiff.2 hlive).kept hvalid

/-- An issued invoice of 100 with no payments. -/
def newInvoice : Document where
  status := some .final
  docType := some .invoice
  currency := some "USD"
  total := 100
  returnedCredit := 0
  supplierCredit := 0
  credited := 0
  amountPaid := 0
  amountOutstanding := 100
  payments := []

theorem isWhole_ten : IsWhole "USD" 10 := ⟨1000, by decide +kernel⟩

/-- Paying ten, giving it back, and taking the refund back. -/
theorem amountPaid_held_newInvoice :
    EveryAfter applyPayment PaidIsHeld newInvoice
      [.received { amount := 10 }, .refunded 10 (some 0), .refundReversed 10 0] := by
  refine (amountPaid_held_iff newInvoice rfl rfl _ ?_ ?_).2 ?_
  · refine ⟨by norm_num [Recorded], ?_, ?_, trivial⟩
    · exact ⟨0, _, rfl, rfl, rfl, by norm_num, by decide +kernel⟩
    · exact ⟨_, rfl, by norm_num, by decide +kernel⟩
  · exact ⟨isWhole_ten, isWhole_ten, isWhole_ten, trivial⟩
  · refine ⟨trivial, trivial, ?_, trivial⟩
    intro p hp
    left
    revert p
    decide +kernel

/-- Two payments of ten, the first of them voided twice. -/
def voidedTwice : List PaymentEvent :=
  [.received { amount := 10 }, .received { amount := 10 }, .voided 0 none none, .voided 0 none none]

/-- The second void takes off what the other payment holds: it is still active, and
    the invoice reads as unpaid. -/
theorem voidedTwice_unpaid :
    EveryStep applyPayment Recorded newInvoice voidedTwice ∧
      (voidedTwice.foldl applyPayment newInvoice).amountPaid = 0 ∧
      (voidedTwice.foldl applyPayment newInvoice).held = 10 ∧
      ¬PaidIsHeld (voidedTwice.foldl applyPayment newInvoice) := by
  refine ⟨⟨?_, ?_, ?_, ?_, trivial⟩, by decide +kernel, by decide +kernel, fun h => ?_⟩
  · norm_num [Recorded]
  · norm_num [Recorded]
  · exact Option.ne_none_iff_exists'.2 ⟨_, rfl⟩
  · exact Option.ne_none_iff_exists'.2 ⟨_, rfl⟩
  · exact absurd h.1 (by decide +kernel)

end Celerp
