/-
  Journal entries (`celerp/services/auto_je.py`): their lines, the exchange
  difference that balances one, and the posting of an automatic entry.

  * `net account lines` is what the lines move on an account, debits less credits;
  * `exchangeGap` is what an entry's debits exceed its credits by, and a line of
    that amount on the short side balances it
    (`exchangeGap_balancedWithFxDifference`);
  * `emitAutoPosted` rounds the lines, drops those that move nothing and refuses an
    entry that does not balance (`emitAutoPosted_of_whole`).
-/
import Celerp.Money

namespace Celerp

/-! ## Lines -/

/-- The amounts a line moves in the currency of its account. -/
structure FxAmount where
  currency : String
  rate : ℚ
  debit : ℚ
  credit : ℚ
  deriving DecidableEq, Repr

/-- A journal line. -/
structure Line where
  account : String
  debit : ℚ
  credit : ℚ
  fx : Option FxAmount
  deriving DecidableEq, Repr

namespace Line

/-- A line of the books' currency alone. -/
def debitOf (account : String) (amount : ℚ) : Line := ⟨account, amount, 0, none⟩

def creditOf (account : String) (amount : ℚ) : Line := ⟨account, 0, amount, none⟩

/-- The line with its sides swapped. -/
def swap (l : Line) : Line := { l with debit := l.credit, credit := l.debit }

/-- `line_moves`: a line is empty only when its amounts are all zero. -/
def moves (l : Line) : Bool :=
  l.debit ≠ 0 ∨ l.credit ≠ 0 ∨ ∃ f ∈ l.fx, f.debit ≠ 0 ∨ f.credit ≠ 0

/-- The line with its amounts rounded to the books' currency. -/
def round (currency : String) (l : Line) : Line :=
  { l with debit := roundMoney l.debit currency, credit := roundMoney l.credit currency }

/-- The line's amounts are whole minor units. -/
def Whole (currency : String) (l : Line) : Prop := IsWhole currency l.debit ∧ IsWhole currency l.credit

end Line

/-- What the lines move on an account. -/
def net (account : String) (lines : List Line) : ℚ :=
  (lines.map fun l => if l.account = account then l.debit - l.credit else 0).sum

/-- `_exchange_gap`: the debits less the credits. -/
def exchangeGap (lines : List Line) : ℚ := (lines.map (·.debit)).sum - (lines.map (·.credit)).sum

section
variable (account : String) (l : Line) (lines more : List Line)

@[simp] theorem net_nil : net account [] = 0 := rfl

@[simp] theorem net_cons :
    net account (l :: lines) =
      (if l.account = account then l.debit - l.credit else 0) + net account lines := by
  simp [net]

@[simp] theorem net_append : net account (lines ++ more) = net account lines + net account more := by
  simp [net]

@[simp] theorem exchangeGap_nil : exchangeGap [] = 0 := by simp [exchangeGap]

@[simp] theorem exchangeGap_cons :
    exchangeGap (l :: lines) = l.debit - l.credit + exchangeGap lines := by
  simp only [exchangeGap, List.map_cons, List.sum_cons]
  ring

theorem exchangeGap_append : exchangeGap (lines ++ more) = exchangeGap lines + exchangeGap more := by
  simp only [exchangeGap, List.map_append, List.sum_append]
  ring

theorem net_swap : net account (lines.map .swap) = -net account lines := by
  induction lines with
  | nil => simp
  | cons l lines ih =>
    have haccount : l.swap.account = l.account := rfl
    rw [List.map_cons, net_cons, net_cons, ih, haccount]
    simp only [Line.swap]
    split_ifs <;> ring

theorem exchangeGap_swap : exchangeGap (lines.map .swap) = -exchangeGap lines := by
  induction lines with
  | nil => simp
  | cons l lines ih =>
    rw [List.map_cons, exchangeGap_cons, exchangeGap_cons, ih]
    simp only [Line.swap]
    ring

end

/-! ## The exchange difference -/

/-- The line that takes up a gap, on the short side. -/
def differenceLine (account : String) (gap : ℚ) : Line :=
  if 0 < gap then .creditOf account |gap| else .debitOf account |gap|

/-- `_balanced_with_fx_difference`: the entry, plus the line on `account` that makes
    it balance. -/
def balancedWithFxDifference (lines : List Line) (account : String) : List Line :=
  if exchangeGap lines = 0 then lines
  else lines ++ [differenceLine account (exchangeGap lines)]

/-- `_with_fx_difference`: the difference on the exchange gain account when the credit
    side is short, on the exchange loss account when the debit side is. -/
def withFxDifference (lines : List Line) (gain loss : String) : List Line :=
  balancedWithFxDifference lines (if 0 < exchangeGap lines then gain else loss)

section
variable {c a account : String} {gap : ℚ} {lines : List Line}

@[simp] theorem differenceLine_account : (differenceLine account gap).account = account := by
  unfold differenceLine
  split_ifs <;> rfl

theorem differenceLine_delta : (differenceLine account gap).debit - (differenceLine account gap).credit
    = -gap := by
  unfold differenceLine
  split_ifs with hgap
  · simp [Line.creditOf, abs_of_pos hgap]
  · simp [Line.debitOf, abs_of_nonpos (not_lt.1 hgap)]

theorem differenceLine_moves_of_ne (h : gap ≠ 0) : (differenceLine account gap).moves := by
  unfold differenceLine
  split_ifs <;> simp [Line.moves, Line.creditOf, Line.debitOf, h]

theorem differenceLine_whole (h : IsWhole c gap) : (differenceLine account gap).Whole c := by
  have habs : IsWhole c |gap| := by
    rcases abs_choice gap with hgap | hgap <;> rw [hgap]
    · exact h
    · simpa using (isWhole_zero c).sub h
  unfold differenceLine
  split_ifs
  · exact ⟨isWhole_zero c, habs⟩
  · exact ⟨habs, isWhole_zero c⟩

theorem isWhole_exchangeGap (h : ∀ l ∈ lines, l.Whole c) : IsWhole c (exchangeGap lines) :=
  (IsWhole.sum fun v hv => by obtain ⟨l, hl, rfl⟩ := List.mem_map.1 hv; exact (h l hl).1).sub
    (IsWhole.sum fun v hv => by obtain ⟨l, hl, rfl⟩ := List.mem_map.1 hv; exact (h l hl).2)

theorem whole_balancedWithFxDifference (h : ∀ l ∈ lines, l.Whole c) :
    ∀ l ∈ balancedWithFxDifference lines account, l.Whole c := by
  unfold balancedWithFxDifference
  split_ifs
  · exact h
  · intro l hl
    rcases List.mem_append.1 hl with hl | hl
    · exact h l hl
    · obtain rfl := List.mem_singleton.1 hl
      exact differenceLine_whole (isWhole_exchangeGap h)

theorem net_balancedWithFxDifference :
    net a (balancedWithFxDifference lines account) =
      net a lines - if account = a then exchangeGap lines else 0 := by
  unfold balancedWithFxDifference
  split_ifs with hgap hacc hacc
  · rw [hgap, sub_zero]
  · rw [sub_zero]
  · simp only [net_append, net_cons, net_nil, differenceLine_account, if_pos hacc,
      differenceLine_delta]
    ring
  · simp [hacc]

/-- The difference line balances the entry. -/
theorem exchangeGap_balancedWithFxDifference :
    exchangeGap (balancedWithFxDifference lines account) = 0 := by
  unfold balancedWithFxDifference
  split_ifs with hgap
  · exact hgap
  · rw [exchangeGap_append, exchangeGap_cons, differenceLine_delta, exchangeGap_nil]
    ring

end

/-! ## Posting -/

/-- `_emit_auto_posted_je`: the lines an automatic entry posts, each rounded to the
    books' currency and those that move nothing dropped; none where they do not
    balance, which is refused. -/
def emitAutoPosted (currency : String) (lines : List Line) : Option (List Line) :=
  let posted := (lines.map (·.round currency)).filter (·.moves)
  if exchangeGap posted = 0 then some posted else none

section
variable {c a : String} {l : Line} {lines : List Line}

theorem Line.Whole.round_eq (h : l.Whole c) : l.round c = l := by
  cases l
  simp only [Line.round, Line.Whole] at h ⊢
  rw [roundMoney_of_isWhole h.1, roundMoney_of_isWhole h.2]

theorem map_round_of_whole (h : ∀ l ∈ lines, l.Whole c) : lines.map (·.round c) = lines := by
  refine (List.map_congr_left fun l hl => (h l hl).round_eq).trans (List.map_id' lines)

theorem Line.eq_zero_of_not_moves (h : ¬l.moves) : l.debit = 0 ∧ l.credit = 0 := by
  simp only [Line.moves, decide_eq_true_eq, not_or, not_not] at h
  exact ⟨h.1, h.2.1⟩

theorem net_filter_moves (a : String) (lines : List Line) :
    net a (lines.filter (·.moves)) = net a lines := by
  induction lines with
  | nil => rfl
  | cons l lines ih =>
    by_cases hl : l.moves
    · rw [List.filter_cons_of_pos hl, net_cons, net_cons, ih]
    · have hzero := Line.eq_zero_of_not_moves hl
      rw [List.filter_cons_of_neg hl, net_cons, ih, hzero.1, hzero.2]
      simp

theorem exchangeGap_filter_moves (lines : List Line) :
    exchangeGap (lines.filter (·.moves)) = exchangeGap lines := by
  induction lines with
  | nil => rfl
  | cons l lines ih =>
    by_cases hl : l.moves
    · rw [List.filter_cons_of_pos hl, exchangeGap_cons, exchangeGap_cons, ih]
    · have hzero := Line.eq_zero_of_not_moves hl
      rw [List.filter_cons_of_neg hl, exchangeGap_cons, ih, hzero.1, hzero.2]
      simp

/-- Whole lines that balance are posted, less those that move nothing. -/
theorem emitAutoPosted_of_whole (hwhole : ∀ l ∈ lines, l.Whole c) (hgap : exchangeGap lines = 0) :
    emitAutoPosted c lines = some (lines.filter (·.moves)) := by
  unfold emitAutoPosted
  simp only [map_round_of_whole hwhole]
  rw [if_pos ((exchangeGap_filter_moves lines).trans hgap)]

end

end Celerp
