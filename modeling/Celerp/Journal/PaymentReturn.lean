/-
  Giving a payment back undoes its entry.

  What the pieces move adds up to what the payment moved (`pieces_telescope`), so the
  receivable or payable and the bank come back to zero whenever the pieces are given
  back on the payment's own accounts.  The exchange differences of the pieces do when
  they go where the payment's own difference went.  `Undone` is the exact condition:
  the payment's own entry has both its lines, and with them its own exchange difference
  or pieces whose differences cancel.
-/
import Celerp.Journal.Payment

namespace Celerp

namespace PaymentOnBooks

/-! ## Sums over the pieces -/

/-- The sum of `f` over the pieces of a sequence of moves, each given by where what is
    given back stands below and above it; a restored piece counts against it. -/
def overPieces (f : ℚ → ℚ → ℚ) : ℚ → List GiveBack → ℚ
  | _, [] => 0
  | given, .refund a :: moves => f given (given + a) + overPieces f (given + a) moves
  | given, .restore a :: moves => -f (given - a) given + overPieces f (given - a) moves

section
variable {f g : ℚ → ℚ → ℚ} {F : ℚ → ℚ} {amount : ℚ}

theorem overPieces_congr (h : ∀ lo hi, 0 ≤ lo → lo ≤ hi → hi ≤ amount → f lo hi = g lo hi) :
    ∀ {given : ℚ} {moves : List GiveBack}, 0 ≤ given → given ≤ amount →
      GivesBack amount given moves → overPieces f given moves = overPieces g given moves
  | _, [], _, _, _ => rfl
  | given, .refund a :: moves, h0, _, ⟨ha, hle, hmoves⟩ => by
    rw [overPieces, overPieces, h _ _ h0 (by linarith) hle,
      overPieces_congr h (by linarith) hle hmoves]
  | given, .restore a :: moves, _, hA, ⟨ha, hle, hmoves⟩ => by
    rw [overPieces, overPieces, h _ _ (by linarith) (by linarith) hA,
      overPieces_congr h (by linarith) (by linarith) hmoves]

theorem overPieces_add : ∀ {given : ℚ} {moves : List GiveBack},
    overPieces (fun lo hi => f lo hi + g lo hi) given moves =
      overPieces f given moves + overPieces g given moves
  | _, [] => (add_zero 0).symm
  | given, .refund a :: moves => by
    rw [overPieces, overPieces, overPieces, overPieces_add]
    ring
  | given, .restore a :: moves => by
    rw [overPieces, overPieces, overPieces, overPieces_add]
    ring

theorem overPieces_mul (c : ℚ) : ∀ {given : ℚ} {moves : List GiveBack},
    overPieces (fun lo hi => c * f lo hi) given moves = c * overPieces f given moves
  | _, [] => (mul_zero c).symm
  | given, .refund a :: moves => by
    rw [overPieces, overPieces, overPieces_mul]
    ring
  | given, .restore a :: moves => by
    rw [overPieces, overPieces, overPieces_mul]
    ring

/-- Pieces of what a running total comes to add up to what the whole does. -/
theorem pieces_telescope : ∀ {given : ℚ} {moves : List GiveBack}, GivesBack amount given moves →
    overPieces (fun lo hi => F hi - F lo) given moves = F amount - F given
  | _, [], h => by
    rw [overPieces, show _ = amount from h, sub_self]
  | given, .refund a :: moves, ⟨_, _, hmoves⟩ => by
    rw [overPieces, pieces_telescope hmoves]
    ring
  | given, .restore a :: moves, ⟨_, _, hmoves⟩ => by
    rw [overPieces, pieces_telescope hmoves]
    ring

end

/-! ## What the entries move -/

/-- The sign of what a payment moves on its receivable or payable. -/
def side (P : PaymentOnBooks) : ℚ := if P.outflow then 1 else -1

/-- The account of the exchange difference of a piece: that of the payment's own, else
    the gain or loss account by the side it is on. -/
def differenceAccount (P : PaymentOnBooks) (own : Option String) (gap : ℚ) : String :=
  own.getD (if 0 < gap then P.accounts.gain else P.accounts.loss)

/-- 1 where a line on `account` is one on `a`. -/
def hit (account a : String) : ℚ := if account = a then 1 else 0

section
variable (P : PaymentOnBooks) {a control bank : String} {ledger moved amount already given : ℚ}
  {accounts : String × String × Option String} {posted : List Line} {moves : List GiveBack}

theorem net_paymentLines (returning : Bool) :
    net a (P.paymentLines control bank ledger moved amount returning) =
      (if returning then -P.side else P.side) * (hit control a * ledger - hit bank a * moved) := by
  unfold paymentLines side hit
  cases P.outflow <;> cases returning <;>
    simp only [net_cons, net_nil, Line.debitOf, Line.creditOf, bne_self_eq_false, Bool.bne_true,
      Bool.bne_false, Bool.not_false, Bool.false_eq_true, if_true, if_false] <;>
    split_ifs <;> ring

theorem exchangeGap_paymentLines (returning : Bool) :
    exchangeGap (P.paymentLines control bank ledger moved amount returning) =
      (if returning then -P.side else P.side) * (ledger - moved) := by
  unfold paymentLines side
  cases P.outflow <;> cases returning <;>
    simp only [exchangeGap_cons, exchangeGap_nil, Line.debitOf, Line.creditOf, bne_self_eq_false,
      Bool.bne_true, Bool.bne_false, Bool.not_false, Bool.false_eq_true, if_true, if_false] <;>
    ring

theorem returnLines_eq : P.returnLines accounts amount already =
    balancedWithFxDifference
      (P.paymentLines accounts.1 accounts.2.1 (P.ledgerAmount amount already)
        (P.bankAmount amount already) amount true)
      (P.differenceAccount accounts.2.2
        (-P.side * (P.ledgerAmount amount already - P.bankAmount amount already))) := by
  unfold returnLines differenceAccount withFxDifference
  cases accounts.2.2 <;> simp [exchangeGap_paymentLines]

/-- What a piece given back moves on an account. -/
theorem net_returnLines : net a (P.returnLines accounts amount already) =
    -P.side * (hit accounts.1 a * P.ledgerAmount amount already -
      hit accounts.2.1 a * P.bankAmount amount already) +
    hit (P.differenceAccount accounts.2.2
        (-P.side * (P.ledgerAmount amount already - P.bankAmount amount already))) a *
      (P.side * (P.ledgerAmount amount already - P.bankAmount amount already)) := by
  rw [returnLines_eq, net_balancedWithFxDifference, net_paymentLines, exchangeGap_paymentLines]
  simp only [if_true, hit]
  split_ifs <;> ring

theorem whole_paymentLines (returning : Bool) (hl : IsWhole P.base ledger)
    (hm : IsWhole P.base moved) :
    ∀ l ∈ P.paymentLines control bank ledger moved amount returning, l.Whole P.base := by
  intro l hmem
  unfold paymentLines at hmem
  dsimp only at hmem
  split_ifs at hmem <;> rcases List.mem_pair.1 hmem with rfl | rfl <;>
    first
      | exact ⟨hl, isWhole_zero _⟩
      | exact ⟨hm, isWhole_zero _⟩
      | exact ⟨isWhole_zero _, hl⟩
      | exact ⟨isWhole_zero _, hm⟩

theorem isWhole_ledgerAmount : IsWhole P.base (P.ledgerAmount amount already) :=
  (isWhole_toBase _ _ _).sub (isWhole_toBase _ _ _)

theorem isWhole_bankAmount : IsWhole P.base (P.bankAmount amount already) :=
  (isWhole_toBase _ _ _).sub (isWhole_toBase _ _ _)

theorem whole_returnEntries (posted : List Line) :
    ∀ l ∈ P.paymentReturnEntries posted amount already, l.Whole P.base := by
  rw [paymentReturnEntries, returnLines_eq]
  exact whole_balancedWithFxDifference
    (P.whole_paymentLines true P.isWhole_ledgerAmount P.isWhole_bankAmount)

theorem exchangeGap_returnEntries (posted : List Line) :
    exchangeGap (P.paymentReturnEntries posted amount already) = 0 := by
  rw [paymentReturnEntries, returnLines_eq]
  exact exchangeGap_balancedWithFxDifference

/-- The entries that give a payment back are posted, and move on each account what the
    pieces do. -/
theorem giveBack_posts (posted : List Line) : ∀ (given : ℚ) (moves : List GiveBack),
    ∃ returned, P.giveBack posted given moves = some returned ∧ ∀ a, net a returned =
      overPieces (fun lo hi => net a (P.paymentReturnEntries posted (hi - lo) lo)) given moves
  | _, [] => ⟨[], rfl, fun _ => rfl⟩
  | given, .refund v :: moves => by
    obtain ⟨rest, hrest, hnet⟩ := giveBack_posts posted (given + v) moves
    have hwhole : ∀ l ∈ P.paymentReturnEntries posted v given, l.Whole P.base :=
      P.whole_returnEntries posted
    have hpost := emitAutoPosted_of_whole hwhole (P.exchangeGap_returnEntries posted)
    refine ⟨_, by simp only [giveBack, hpost, hrest]; rfl, fun a => ?_⟩
    rw [net_append, net_filter_moves, hnet, overPieces, add_sub_cancel_left]
  | given, .restore v :: moves => by
    obtain ⟨rest, hrest, hnet⟩ := giveBack_posts posted (given - v) moves
    have hwhole : ∀ l ∈ (P.paymentReturnEntries posted v (given - v)).map Line.swap,
        l.Whole P.base := by
      intro l hl
      obtain ⟨l, hmem, rfl⟩ := List.mem_map.1 hl
      exact And.symm (P.whole_returnEntries posted l hmem)
    have hgap : exchangeGap ((P.paymentReturnEntries posted v (given - v)).map Line.swap) = 0 := by
      rw [exchangeGap_swap, exchangeGap_returnEntries, neg_zero]
    refine ⟨_, by simp only [giveBack, emitAutoPosted_of_whole hwhole hgap, hrest]; rfl,
      fun a => ?_⟩
    rw [net_append, net_filter_moves, net_swap, hnet, overPieces, sub_sub_cancel]

end

/-! ## What the pieces come to -/

section
variable (P : PaymentOnBooks) {a : String} {amount : ℚ} {moves : List GiveBack}

/-- The document's amount in the books' currency at the document's rate. -/
def ledgerOf (v : ℚ) : ℚ := toBase v P.docRate.value P.base

/-- The document's amount in the books' currency at the settlement rate. -/
def bankOf (v : ℚ) : ℚ := toBase v P.settlementRate.value P.base

theorem ledgerAmount_piece (lo hi : ℚ) : P.ledgerAmount (hi - lo) lo = P.ledgerOf hi - P.ledgerOf lo := by
  rw [ledgerAmount, add_sub_cancel]
  rfl

theorem bankAmount_piece (lo hi : ℚ) : P.bankAmount (hi - lo) lo = P.bankOf hi - P.bankOf lo := by
  rw [bankAmount, add_sub_cancel]
  rfl

theorem ledgerAmount_whole (v : ℚ) : P.ledgerAmount v 0 = P.ledgerOf v := by
  simp [ledgerAmount, ledgerOf]

theorem bankAmount_whole (v : ℚ) : P.bankAmount v 0 = P.bankOf v := by
  simp [bankAmount, bankOf]

theorem ledgerOf_zero : P.ledgerOf 0 = 0 := toBase_zero _ _

theorem bankOf_zero : P.bankOf 0 = 0 := toBase_zero _ _

theorem ledgerOf_mono {v w : ℚ} (h : v ≤ w) : P.ledgerOf v ≤ P.ledgerOf w :=
  toBase_mono P.docRate.pos.le h

theorem bankOf_mono {v w : ℚ} (h : v ≤ w) : P.bankOf v ≤ P.bankOf w :=
  toBase_mono P.settlementRate.pos.le h

/-- What the pieces move on the receivable or payable, less what they move on the
    bank, on the side of an exchange loss. -/
def pieceLoss (lo hi : ℚ) : ℚ :=
  max 0 (P.side * (P.ledgerOf hi - P.ledgerOf lo - (P.bankOf hi - P.bankOf lo)))

/-- The exchange losses of the pieces given back, less those of the pieces restored. -/
def drift (moves : List GiveBack) : ℚ := overPieces P.pieceLoss 0 moves

theorem over_ledger (h : GivesBack amount 0 moves) :
    overPieces (fun lo hi => P.ledgerOf hi - P.ledgerOf lo) 0 moves = P.ledgerOf amount := by
  rw [pieces_telescope h, ledgerOf_zero, sub_zero]

theorem over_bank (h : GivesBack amount 0 moves) :
    overPieces (fun lo hi => P.bankOf hi - P.bankOf lo) 0 moves = P.bankOf amount := by
  rw [pieces_telescope h, bankOf_zero, sub_zero]

/-- The differences of the pieces, where the payment's own has an account. -/
theorem over_returns_some (control bank difference : String) (h : GivesBack amount 0 moves) :
    overPieces (fun lo hi => net a (P.returnLines (control, bank, some difference) (hi - lo) lo)) 0
        moves =
      -P.side * (hit control a * P.ledgerOf amount - hit bank a * P.bankOf amount) +
        hit difference a * (P.side * (P.ledgerOf amount - P.bankOf amount)) := by
  have hpiece : (fun lo hi => net a (P.returnLines (control, bank, some difference) (hi - lo) lo)) =
      fun lo hi => (-P.side * hit control a + hit difference a * P.side) *
          (P.ledgerOf hi - P.ledgerOf lo) +
        (P.side * hit bank a - hit difference a * P.side) * (P.bankOf hi - P.bankOf lo) := by
    funext lo hi
    rw [net_returnLines, ledgerAmount_piece, bankAmount_piece, differenceAccount, Option.getD_some]
    ring
  rw [hpiece, overPieces_add, overPieces_mul, overPieces_mul, over_ledger P h, over_bank P h]
  ring

/-- The differences of the pieces, where the payment's own has none: each goes to the
    gain or loss account by its side. -/
theorem over_returns_none (control bank : String) (h : GivesBack amount 0 moves) :
    overPieces (fun lo hi => net a (P.returnLines (control, bank, none) (hi - lo) lo)) 0 moves =
      -P.side * (hit control a * P.ledgerOf amount - hit bank a * P.bankOf amount) +
        hit P.accounts.gain a * (P.side * (P.ledgerOf amount - P.bankOf amount) - P.drift moves) +
        hit P.accounts.loss a * P.drift moves := by
  have hpiece : (fun lo hi => net a (P.returnLines (control, bank, none) (hi - lo) lo)) =
      fun lo hi => ((-P.side * hit control a + hit P.accounts.gain a * P.side) *
          (P.ledgerOf hi - P.ledgerOf lo) +
        (P.side * hit bank a - hit P.accounts.gain a * P.side) * (P.bankOf hi - P.bankOf lo)) +
        (hit P.accounts.loss a - hit P.accounts.gain a) * P.pieceLoss lo hi := by
    funext lo hi
    rw [net_returnLines, ledgerAmount_piece, bankAmount_piece, differenceAccount, Option.getD_none,
      pieceLoss]
    generalize P.ledgerOf hi - P.ledgerOf lo = l
    generalize P.bankOf hi - P.bankOf lo = b
    by_cases hgain : 0 < -P.side * (l - b)
    · rw [if_pos hgain, max_eq_left (by linarith)]
      ring
    · rw [if_neg hgain, max_eq_right (by linarith)]
      ring
  rw [hpiece, overPieces_add, overPieces_add, overPieces_mul, overPieces_mul, overPieces_mul,
    over_ledger P h, over_bank P h]
  simp only [drift]
  ring

end

/-! ## The payment's own entry -/

section
variable (P : PaymentOnBooks) {a : String} {amount : ℚ} {moves : List GiveBack}

/-- The bank line of the payment's own entry moves something: in the books' currency,
    or in that of the bank account. -/
def BankMoves (amount : ℚ) : Prop :=
  P.bankOf amount ≠ 0 ∨
    P.bankFx amount P.outflow P.accounts.bank ≠ none ∧ roundMoney amount P.currency ≠ 0

instance (amount : ℚ) : Decidable (P.BankMoves amount) :=
  inferInstanceAs (Decidable (_ ∨ _ ∧ _))

/-- The account of the exchange difference of the payment's own entry. -/
def ownDifference (amount : ℚ) : String :=
  P.differenceAccount none (P.side * (P.ledgerOf amount - P.bankOf amount))

theorem entryLines_eq (amount : ℚ) : P.paymentEntryLines amount =
    balancedWithFxDifference
      (P.paymentLines P.accounts.control P.accounts.bank (P.ledgerOf amount) (P.bankOf amount)
        amount false) (P.ownDifference amount) := by
  unfold paymentEntryLines withFxDifference ownDifference differenceAccount
  rw [ledgerAmount_whole, bankAmount_whole, exchangeGap_paymentLines]
  rfl

theorem net_entryLines (a : String) (amount : ℚ) : net a (P.paymentEntryLines amount) =
    P.side * (hit P.accounts.control a * P.ledgerOf amount -
      hit P.accounts.bank a * P.bankOf amount) -
    hit (P.ownDifference amount) a * (P.side * (P.ledgerOf amount - P.bankOf amount)) := by
  rw [entryLines_eq, net_balancedWithFxDifference, net_paymentLines, exchangeGap_paymentLines]
  simp only [Bool.false_eq_true, if_false, hit]
  split_ifs <;> ring

/-- The lines the payment's own entry posts. -/
def posted (amount : ℚ) : List Line := (P.paymentEntryLines amount).filter (·.moves)

theorem paymentEntry_eq (amount : ℚ) : P.paymentEntry amount = some (P.posted amount) := by
  have hl : IsWhole P.base (P.ledgerOf amount) := isWhole_toBase _ _ _
  have hb : IsWhole P.base (P.bankOf amount) := isWhole_toBase _ _ _
  rw [paymentEntry, entryLines_eq, posted, entryLines_eq]
  exact emitAutoPosted_of_whole
    (whole_balancedWithFxDifference (P.whole_paymentLines false hl hb))
    exchangeGap_balancedWithFxDifference

/-- The receivable or payable line of the payment's own entry. -/
def controlLine (amount : ℚ) : Line :=
  if P.outflow then .debitOf P.accounts.control (P.ledgerOf amount)
  else .creditOf P.accounts.control (P.ledgerOf amount)

/-- The bank line of the payment's own entry. -/
def bankLine (amount : ℚ) : Line :=
  { (if P.outflow then Line.creditOf P.accounts.bank (P.bankOf amount)
      else Line.debitOf P.accounts.bank (P.bankOf amount)) with
    fx := P.bankFx amount P.outflow P.accounts.bank }

/-- The exchange difference of the payment's own entry, if any. -/
def ownDifferenceLines (amount : ℚ) : List Line :=
  if P.ledgerOf amount = P.bankOf amount then []
  else [differenceLine (P.ownDifference amount) (P.side * (P.ledgerOf amount - P.bankOf amount))]

theorem side_ne_zero : P.side ≠ 0 := by
  unfold side
  split_ifs <;> norm_num

theorem entryLines_shape (amount : ℚ) : P.paymentEntryLines amount =
    (if P.outflow then [P.controlLine amount, P.bankLine amount]
      else [P.bankLine amount, P.controlLine amount]) ++ P.ownDifferenceLines amount := by
  have hgap : P.side * (P.ledgerOf amount - P.bankOf amount) = 0 ↔
      P.ledgerOf amount = P.bankOf amount := by
    rw [mul_eq_zero, or_iff_right P.side_ne_zero, sub_eq_zero]
  rw [entryLines_eq, balancedWithFxDifference, exchangeGap_paymentLines, ownDifferenceLines]
  simp only [Bool.false_eq_true, if_false, hgap]
  unfold paymentLines controlLine bankLine
  cases P.outflow <;> split_ifs <;> simp_all

theorem controlLine_account (amount : ℚ) : (P.controlLine amount).account = P.accounts.control := by
  unfold controlLine
  split_ifs <;> rfl

theorem bankLine_account (amount : ℚ) : (P.bankLine amount).account = P.accounts.bank := by
  unfold bankLine
  split_ifs <;> rfl

theorem controlLine_moves (amount : ℚ) : (P.controlLine amount).moves ↔ P.ledgerOf amount ≠ 0 := by
  unfold controlLine
  split_ifs <;> simp [Line.moves, Line.creditOf, Line.debitOf]

theorem bankLine_moves (amount : ℚ) : (P.bankLine amount).moves ↔ P.BankMoves amount := by
  unfold BankMoves bankLine bankFx
  cases P.outflow <;> dsimp only <;> split_ifs <;>
    simp [Line.moves, Line.creditOf, Line.debitOf]

theorem filter_ownDifferenceLines (amount : ℚ) :
    (P.ownDifferenceLines amount).filter (·.moves) = P.ownDifferenceLines amount := by
  unfold ownDifferenceLines
  split_ifs with heq
  · rfl
  · have hgap : P.side * (P.ledgerOf amount - P.bankOf amount) ≠ 0 :=
      mul_ne_zero P.side_ne_zero (sub_ne_zero.2 heq)
    refine List.filter_eq_self.2 fun l hl => ?_
    obtain rfl := List.mem_singleton.1 hl
    exact differenceLine_moves_of_ne hgap

theorem bankOf_eq_zero {amount : ℚ} (h : ¬P.BankMoves amount) : P.bankOf amount = 0 :=
  by_contra fun hne => h (Or.inl hne)

/-- The accounts a payment is given back on, by the lines its own entry has. -/
theorem returnAccounts_posted (amount : ℚ) : P.returnAccounts (P.posted amount) =
    if P.ledgerOf amount ≠ 0 ∧ P.BankMoves amount then
      (P.accounts.control, P.accounts.bank,
        if P.ledgerOf amount = P.bankOf amount then none else some (P.ownDifference amount))
    else if P.ledgerOf amount = 0 ∧ P.bankOf amount = 0 then
      (P.accounts.control, P.accounts.bank, none)
    else if P.ledgerOf amount = 0 then
      if P.outflow then (P.accounts.bank, P.ownDifference amount, none)
      else (P.ownDifference amount, P.accounts.bank, none)
    else
      if P.outflow then (P.accounts.control, P.ownDifference amount, none)
      else (P.ownDifference amount, P.accounts.control, none) := by
  have hcontrol := P.controlLine_moves amount
  have hbank := P.bankLine_moves amount
  rw [posted, entryLines_shape, List.filter_append, filter_ownDifferenceLines]
  unfold returnAccounts ownDifferenceLines
  by_cases hL : P.ledgerOf amount = 0 <;> by_cases hB : P.BankMoves amount
  · -- the control line is dropped
    have hc : (P.controlLine amount).moves = false := by simpa [hL] using hcontrol
    have hb : (P.bankLine amount).moves = true := hbank.2 hB
    by_cases hBank : P.bankOf amount = 0
    · cases P.outflow <;> simp [hc, hb, hL, hBank]
    · cases P.outflow <;>
        simp [hc, hb, hL, hBank, Ne.symm hBank, bankLine_account]
  · -- both lines are dropped
    have hc : (P.controlLine amount).moves = false := by simpa [hL] using hcontrol
    have hb : (P.bankLine amount).moves = false := by simpa [hB] using hbank
    have hBank := P.bankOf_eq_zero hB
    cases P.outflow <;> simp [hc, hb, hL, hBank]
  · -- both lines are there
    have hc : (P.controlLine amount).moves = true := hcontrol.2 hL
    have hb : (P.bankLine amount).moves = true := hbank.2 hB
    rw [if_pos (show P.ledgerOf amount ≠ 0 ∧ P.BankMoves amount from ⟨hL, hB⟩)]
    by_cases heq : P.ledgerOf amount = P.bankOf amount <;> cases P.outflow <;>
      simp [hc, hb, heq, bankLine_account, controlLine_account]
  · -- the bank line is dropped
    have hc : (P.controlLine amount).moves = true := hcontrol.2 hL
    have hb : (P.bankLine amount).moves = false := by simpa [hB] using hbank
    have hBank := P.bankOf_eq_zero hB
    cases P.outflow <;>
      simp [hc, hb, hL, hB, hBank, controlLine_account]

end

/-! ## Whether the payment is undone -/

section
variable (P : PaymentOnBooks)

/-- The pieces undo the payment's entry.  Its own entry has both its lines, and with
    them a difference of its own, or pieces whose losses cancel; or the payment moves
    nothing.  An entry short of a line, where the difference stands in its place, is
    undone only if the gain and loss accounts are one and the line it is short of is
    the control line of a receipt or the bank line of an outflow. -/
def Undone (amount : ℚ) (moves : List GiveBack) : Prop :=
  if P.ledgerOf amount ≠ 0 ∧ P.BankMoves amount then
    P.ledgerOf amount ≠ P.bankOf amount ∨ P.accounts.gain = P.accounts.loss ∨ P.drift moves = 0
  else P.ledgerOf amount = 0 ∧ P.bankOf amount = 0 ∨
    P.accounts.gain = P.accounts.loss ∧ (P.outflow ↔ P.ledgerOf amount ≠ 0)

/-- The exchange gain and loss accounts are none of the payment's other accounts. -/
structure AccountsApart : Prop where
  control_gain : P.accounts.control ≠ P.accounts.gain
  control_loss : P.accounts.control ≠ P.accounts.loss
  bank_gain : P.accounts.bank ≠ P.accounts.gain
  bank_loss : P.accounts.bank ≠ P.accounts.loss

variable {P} {a : String} {amount : ℚ} {moves : List GiveBack}

@[simp] theorem hit_self (a : String) : hit a a = 1 := if_pos rfl

theorem hit_of_ne {x a : String} (h : x ≠ a) : hit x a = 0 := if_neg h

/-- What is left on each account of the gain and the loss account, by `v`, is nothing
    exactly where they are one or `v` is. -/
theorem hit_loss_gain_iff {gain loss : String} {v : ℚ} :
    (∀ a, (hit loss a - hit gain a) * v = 0) ↔ gain = loss ∨ v = 0 := by
  constructor
  · intro h
    by_contra hne
    obtain ⟨hgl, hv⟩ := not_or.1 hne
    have hgain := h gain
    rw [hit_self, hit_of_ne (Ne.symm hgl)] at hgain
    exact hv (by linarith)
  · rintro (rfl | rfl) a
    · ring
    · ring

/-- What is left on an account when the payment is given back. -/
theorem net_all (returned : List Line)
    (h : net a returned = overPieces
      (fun lo hi => net a (P.paymentReturnEntries (P.posted amount) (hi - lo) lo)) 0 moves) :
    net a (P.posted amount ++ returned) =
      P.side * (hit P.accounts.control a * P.ledgerOf amount -
        hit P.accounts.bank a * P.bankOf amount) -
      hit (P.ownDifference amount) a * (P.side * (P.ledgerOf amount - P.bankOf amount)) +
      overPieces (fun lo hi => net a (P.returnLines (P.returnAccounts (P.posted amount)) (hi - lo) lo))
        0 moves := by
  rw [net_append, h, posted, net_filter_moves, net_entryLines]
  rfl

/-- Where nothing moves on the receivable or payable in all, no piece does. -/
theorem ledger_piece_zero (hL : P.ledgerOf amount = 0) {v : ℚ} (h0 : 0 ≤ v) (hv : v ≤ amount) :
    P.ledgerOf v = 0 := by
  refine le_antisymm (hL ▸ P.ledgerOf_mono hv) ?_
  rw [← P.ledgerOf_zero]
  exact P.ledgerOf_mono h0

theorem bank_piece_zero (hB : P.bankOf amount = 0) {v : ℚ} (h0 : 0 ≤ v) (hv : v ≤ amount) :
    P.bankOf v = 0 := by
  refine le_antisymm (hB ▸ P.bankOf_mono hv) ?_
  rw [← P.bankOf_zero]
  exact P.bankOf_mono h0

/-- The losses of the pieces where only the bank moves: all of it for a receipt, none for
    an outflow. -/
theorem drift_of_bank (h : GivesBack amount 0 moves) (hA : 0 ≤ amount) (hL : P.ledgerOf amount = 0) :
    P.drift moves = if P.outflow then 0 else P.bankOf amount := by
  have hpiece : ∀ lo hi, 0 ≤ lo → lo ≤ hi → hi ≤ amount →
      P.pieceLoss lo hi = (if P.outflow then 0 else 1) * (P.bankOf hi - P.bankOf lo) := by
    intro lo hi h0 hle hhi
    have hmono := P.bankOf_mono hle
    rw [pieceLoss, ledger_piece_zero hL h0 (hle.trans hhi), ledger_piece_zero hL (h0.trans hle) hhi,
      side]
    split_ifs
    · rw [max_eq_left (by linarith), zero_mul]
    · rw [max_eq_right (by linarith)]
      ring
  rw [drift, overPieces_congr hpiece le_rfl hA h, overPieces_mul, over_bank P h]
  split_ifs <;> ring

/-- The losses of the pieces where only the receivable or payable moves. -/
theorem drift_of_ledger (h : GivesBack amount 0 moves) (hA : 0 ≤ amount) (hB : P.bankOf amount = 0) :
    P.drift moves = if P.outflow then P.ledgerOf amount else 0 := by
  have hpiece : ∀ lo hi, 0 ≤ lo → lo ≤ hi → hi ≤ amount →
      P.pieceLoss lo hi = (if P.outflow then 1 else 0) * (P.ledgerOf hi - P.ledgerOf lo) := by
    intro lo hi h0 hle hhi
    have hmono := P.ledgerOf_mono hle
    rw [pieceLoss, bank_piece_zero hB h0 (hle.trans hhi), bank_piece_zero hB (h0.trans hle) hhi,
      side]
    split_ifs
    · rw [max_eq_right (by linarith)]
      ring
    · rw [max_eq_left (by linarith), zero_mul]
  rw [drift, overPieces_congr hpiece le_rfl hA h, overPieces_mul, over_ledger P h]
  split_ifs <;> ring

/-- What is left with both lines in the payment's own entry. -/
theorem undone_of_both (h : GivesBack amount 0 moves) (hboth : P.ledgerOf amount ≠ 0 ∧ P.BankMoves amount)
    {returned : List Line} (hnet : ∀ a, net a returned = overPieces
      (fun lo hi => net a (P.paymentReturnEntries (P.posted amount) (hi - lo) lo)) 0 moves) :
    (∀ a, net a (P.posted amount ++ returned) = 0) ↔ P.Undone amount moves := by
  rw [Undone, if_pos hboth]
  by_cases heq : P.ledgerOf amount = P.bankOf amount
  · have hleft : ∀ a, net a (P.posted amount ++ returned) =
        (hit P.accounts.loss a - hit P.accounts.gain a) * P.drift moves := by
      intro a
      rw [net_all returned (hnet a), returnAccounts_posted, if_pos hboth, if_pos heq,
        over_returns_none P _ _ h, heq]
      ring
    simp only [hleft, heq, ne_eq, not_true_eq_false, false_or]
    exact hit_loss_gain_iff
  · simp only [ne_eq, heq, not_false_eq_true, true_or, iff_true]
    intro a
    rw [net_all returned (hnet a), returnAccounts_posted, if_pos hboth, if_neg heq,
      over_returns_some P _ _ _ h]
    ring

/-- What is left of a payment that moves nothing. -/
theorem undone_of_none (h : GivesBack amount 0 moves) (hA : 0 ≤ amount) (hL : P.ledgerOf amount = 0)
    (hB : P.bankOf amount = 0) {returned : List Line} (hnet : ∀ a, net a returned = overPieces
      (fun lo hi => net a (P.paymentReturnEntries (P.posted amount) (hi - lo) lo)) 0 moves) (a : String) :
    net a (P.posted amount ++ returned) = 0 := by
  have hdrift : P.drift moves = 0 := by simp [drift_of_bank h hA hL, hB]
  rw [net_all returned (hnet a), returnAccounts_posted, if_neg (by simp [hL]), if_pos ⟨hL, hB⟩,
    over_returns_none P _ _ h, hL, hB, hdrift]
  ring

/-- What is left where the control line is missing: the difference stands in its place
    in the entry of a receipt, in that of the bank in one of an outflow. -/
theorem undone_of_bank (hP : P.AccountsApart) (h : GivesBack amount 0 moves) (hA : 0 ≤ amount)
    (hL : P.ledgerOf amount = 0) (hB : P.bankOf amount ≠ 0) {returned : List Line}
    (hnet : ∀ a, net a returned = overPieces
      (fun lo hi => net a (P.paymentReturnEntries (P.posted amount) (hi - lo) lo)) 0 moves) :
    (∀ a, net a (P.posted amount ++ returned) = 0) ↔ P.Undone amount moves := by
  have hboth : ¬(P.ledgerOf amount ≠ 0 ∧ P.BankMoves amount) := by simp [hL]
  have hnone : ¬(P.ledgerOf amount = 0 ∧ P.bankOf amount = 0) := by simp [hB]
  have hpos : 0 < P.bankOf amount :=
    lt_of_le_of_ne (P.bankOf_zero ▸ P.bankOf_mono hA) (Ne.symm hB)
  rw [Undone, if_neg hboth, or_iff_right hnone]
  cases hout : P.outflow with
  | false =>
    have hside : P.side = -1 := by simp [side, hout]
    have hown : P.ownDifference amount = P.accounts.gain := by
      simp [ownDifference, differenceAccount, hside, hL, hpos]
    have hleft : ∀ a, net a (P.posted amount ++ returned) =
        (hit P.accounts.loss a - hit P.accounts.gain a) * P.bankOf amount := by
      intro a
      rw [net_all returned (hnet a), returnAccounts_posted, if_neg hboth, if_neg hnone, if_pos hL,
        hout, if_neg (by simp), over_returns_none P _ _ h, drift_of_bank h hA hL, hout, hown, hside,
        hL, if_neg (by simp)]
      ring
    simp only [hleft, hit_loss_gain_iff, hB, or_false, Bool.false_eq_true, hL, ne_eq,
      not_true_eq_false, and_true]
  | true =>
    have hside : P.side = 1 := by simp [side, hout]
    have hown : P.ownDifference amount = P.accounts.loss := by
      simp [ownDifference, differenceAccount, hside, hL, hpos.le]
    have hleft : ∀ a, net a (P.posted amount ++ returned) =
        (2 * hit P.accounts.loss a - hit P.accounts.gain a - hit P.accounts.bank a) *
          P.bankOf amount := by
      intro a
      rw [net_all returned (hnet a), returnAccounts_posted, if_neg hboth, if_neg hnone, if_pos hL,
        hout, if_pos rfl, over_returns_none P _ _ h, drift_of_bank h hA hL, hout, hown, hside,
        hL, if_pos rfl]
      ring
    simp only [hL, ne_eq, not_true_eq_false, iff_false, and_false]
    intro hall
    have hbank := hall P.accounts.bank
    rw [hleft, hit_self, hit_of_ne (Ne.symm hP.bank_gain), hit_of_ne (Ne.symm hP.bank_loss)] at hbank
    linarith

/-- What is left where the bank line is missing. -/
theorem undone_of_ledger (hP : P.AccountsApart) (h : GivesBack amount 0 moves) (hA : 0 ≤ amount)
    (hL : P.ledgerOf amount ≠ 0) (hmoves : ¬P.BankMoves amount) {returned : List Line}
    (hnet : ∀ a, net a returned = overPieces
      (fun lo hi => net a (P.paymentReturnEntries (P.posted amount) (hi - lo) lo)) 0 moves) :
    (∀ a, net a (P.posted amount ++ returned) = 0) ↔ P.Undone amount moves := by
  have hB := P.bankOf_eq_zero hmoves
  have hboth : ¬(P.ledgerOf amount ≠ 0 ∧ P.BankMoves amount) := fun h => hmoves h.2
  have hnone : ¬(P.ledgerOf amount = 0 ∧ P.bankOf amount = 0) := fun h => hL h.1
  have hpos : 0 < P.ledgerOf amount :=
    lt_of_le_of_ne (P.ledgerOf_zero ▸ P.ledgerOf_mono hA) (Ne.symm hL)
  rw [Undone, if_neg hboth, or_iff_right hnone]
  cases hout : P.outflow with
  | true =>
    have hside : P.side = 1 := by simp [side, hout]
    have hown : P.ownDifference amount = P.accounts.gain := by
      simp [ownDifference, differenceAccount, hside, hB, hpos]
    have hleft : ∀ a, net a (P.posted amount ++ returned) =
        (hit P.accounts.loss a - hit P.accounts.gain a) * P.ledgerOf amount := by
      intro a
      rw [net_all returned (hnet a), returnAccounts_posted, if_neg hboth, if_neg hnone, if_neg hL,
        hout, if_pos rfl, over_returns_none P _ _ h, drift_of_ledger h hA hB, hout, hown, hside,
        hB, if_pos rfl]
      ring
    simp only [hleft, hit_loss_gain_iff, hL, or_false, ne_eq, not_false_eq_true, and_true]
  | false =>
    have hside : P.side = -1 := by simp [side, hout]
    have hown : P.ownDifference amount = P.accounts.loss := by
      simp [ownDifference, differenceAccount, hside, hB, hpos.le]
    have hleft : ∀ a, net a (P.posted amount ++ returned) =
        (2 * hit P.accounts.loss a - hit P.accounts.gain a - hit P.accounts.control a) *
          P.ledgerOf amount := by
      intro a
      rw [net_all returned (hnet a), returnAccounts_posted, if_neg hboth, if_neg hnone, if_neg hL,
        hout, if_neg (by simp), over_returns_none P _ _ h, drift_of_ledger h hA hB, hout, hown,
        hside, hB, if_neg (by simp)]
      ring
    simp only [hL, ne_eq, not_false_eq_true, iff_true, Bool.false_eq_true, and_false]
    simp only [iff_false]
    intro hall
    have hcontrol := hall P.accounts.control
    rw [hleft, hit_self, hit_of_ne (Ne.symm hP.control_gain), hit_of_ne (Ne.symm hP.control_loss)]
      at hcontrol
    linarith

/-- **Giving a payment back undoes its entry on every account** exactly where `Undone`
    holds, over every sequence of pieces given back and restored that gives the whole
    payment back; the entries are all posted. -/
theorem payment_undone_iff (P : PaymentOnBooks) (hP : P.AccountsApart) (amount : ℚ)
    (hpos : 0 < amount) (moves : List GiveBack) (h : GivesBack amount 0 moves) :
    ∃ posted returned, P.paymentEntry amount = some posted ∧
      P.giveBack posted 0 moves = some returned ∧
      ((∀ a, net a (posted ++ returned) = 0) ↔ P.Undone amount moves) := by
  obtain ⟨returned, hreturned, hnet⟩ := P.giveBack_posts (P.posted amount) 0 moves
  refine ⟨P.posted amount, returned, P.paymentEntry_eq amount, hreturned, ?_⟩
  by_cases hboth : P.ledgerOf amount ≠ 0 ∧ P.BankMoves amount
  · exact undone_of_both h hboth hnet
  by_cases hL : P.ledgerOf amount = 0
  · by_cases hB : P.bankOf amount = 0
    · have hundone : P.Undone amount moves := by
        rw [Undone, if_neg hboth]
        exact Or.inl ⟨hL, hB⟩
      exact iff_of_true (undone_of_none h hpos.le hL hB hnet) hundone
    · exact undone_of_bank hP h hpos.le hL hB hnet
  · exact undone_of_ledger hP h hpos.le hL (fun hB => hboth ⟨hL, hB⟩) hnet

end

/-- An invoice in baht, on books in yen, collected at a rate above its own. -/
def bahtInvoice : PaymentOnBooks where
  docType := .invoice
  currency := "THB"
  base := "JPY"
  docRate := ⟨21 / 5, ⟨4200000000000, by norm_num [EXCHANGE_RATE_DP]⟩, by norm_num⟩
  settlementRate := ⟨17 / 4, ⟨4250000000000, by norm_num [EXCHANGE_RATE_DP]⟩, by norm_num⟩
  accounts := ⟨"1100", "1000", "4900", "6900"⟩
  bankCurrency := fun _ => none

/-- Three baht collected move 13 yen at either rate; the first two given back are 8 and
    9, the third 5 and 4: one piece loses what the other gains. -/
theorem bahtInvoice_left_on_gain :
    ∃ posted returned, bahtInvoice.paymentEntry 3 = some posted ∧
      GivesBack 3 0 [.refund 2, .refund 1] ∧
      bahtInvoice.giveBack posted 0 [.refund 2, .refund 1] = some returned ∧
      net bahtInvoice.accounts.gain (posted ++ returned) ≠ 0 := by
  refine ⟨[.debitOf "1000" 13, .creditOf "1100" 13],
    [.debitOf "1100" 8, .creditOf "1000" 9, .debitOf "6900" 1,
      .debitOf "1100" 5, .creditOf "1000" 4, .creditOf "4900" 1], ?_, ?_, ?_, ?_⟩
  · decide +kernel
  · simp only [GivesBack]
    norm_num
  · decide +kernel
  · decide +kernel

theorem payment_undone_bahtInvoice :
    ∃ posted returned, bahtInvoice.paymentEntry 10 = some posted ∧
      bahtInvoice.giveBack posted 0 [.refund 6, .restore 2, .refund 6] = some returned ∧
      ((∀ a, net a (posted ++ returned) = 0) ↔
        bahtInvoice.Undone 10 [.refund 6, .restore 2, .refund 6]) :=
  payment_undone_iff bahtInvoice ⟨by decide, by decide, by decide, by decide⟩ 10 (by norm_num)
    [.refund 6, .restore 2, .refund 6] (by simp only [GivesBack]; norm_num)

end PaymentOnBooks

end Celerp
