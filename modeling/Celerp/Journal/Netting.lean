/-
  The entry of a finalized bill, less what its receipts booked
  (`celerp/services/auto_je.py`).

  A line nets against lines on its account posted for the same roles (`netKey`), then
  against other lines of its group (`netGroup`): opening and purchased inventory are
  one.  `fillSlots` gives a line what the receipts booked in its group, slot by slot;
  `createForBillConversion` posts the bill's lines on the accounts they filled, less
  all that was booked.
-/
import Mathlib.Data.List.Sort
import Celerp.Journal.Entry
import Celerp.Lib.Amounts

namespace Celerp

/-! ## Lines and what they net against -/

/-- A journal line with the roles it was posted for, if it recorded them. -/
structure RoleLine extends Line where
  accountRoles : Option (List String)
  deriving DecidableEq, Repr

/-- What a line moves: its debit less its credit. -/
def RoleLine.amount (l : RoleLine) : ℚ := l.debit - l.credit

/-- `line_roles`: the roles a line recorded, or for a line from before they were, those
    whose scope includes its account. -/
def lineRoles (rolesForAccount : String → List String) (l : RoleLine) : List String :=
  match l.accountRoles with
  | some roles => roles
  | none => if l.account = "" then [] else rolesForAccount l.account

/-- An account and the roles a line on it was posted for, in order. -/
abbrev NetKey := String × List String

/-- `_net_key` -/
def netKey (rolesForAccount : String → List String) (l : RoleLine) : NetKey :=
  (l.account, (lineRoles rolesForAccount l).insertionSort (· ≤ ·))

/-- `_LOT_ROLES` -/
def LOT_ROLES : List String := ["inventory_opening", "inventory_purchased"]

/-- `_net_group`: a lot's value is one thing whether its account holds opening or
    purchased inventory. -/
def netGroup (roles : List String) : List String :=
  if roles ≠ [] ∧ ∀ role ∈ roles, role ∈ LOT_ROLES then LOT_ROLES else roles

/-- `_doc_receipt_booked`, with what the opening balances carry of an imported document
    among the entries: the net debit of each account and its roles. -/
def docReceiptBooked (rolesForAccount : String → List String) (booked : List (List RoleLine)) :
    List (NetKey × ℚ) :=
  Amounts.ofList (booked.flatten.map fun l => (netKey rolesForAccount l, l.amount))

/-! ## Filling -/

/-- What is left of a line, what each slot of the entry takes, and what the receipts
    booked that no line has taken up. -/
structure Filling where
  left : ℚ
  net : List (NetKey × ℚ)
  unfilled : List (NetKey × ℚ)

/-- The order a line fills slots in: its own first, then the largest, then by account. -/
def SlotBefore (key : NetKey) (unfilled : List (NetKey × ℚ)) (a b : NetKey) : Prop :=
  (a = key ∧ b ≠ key) ∨ ((a = key ↔ b = key) ∧
    (|Amounts.get b unfilled| < |Amounts.get a unfilled| ∨
      |Amounts.get a unfilled| = |Amounts.get b unfilled| ∧ a.1 ≤ b.1))

instance instDecidableSlotBefore (key : NetKey) (unfilled : List (NetKey × ℚ)) :
    DecidableRel (SlotBefore key unfilled) := fun a b =>
  inferInstanceAs (Decidable ((a = key ∧ b ≠ key) ∨ ((a = key ↔ b = key) ∧
    (|Amounts.get b unfilled| < |Amounts.get a unfilled| ∨
      |Amounts.get a unfilled| = |Amounts.get b unfilled| ∧ a.1 ≤ b.1))))

/-- The slots of a line's group, in that order. -/
def slotsOf (key : NetKey) (unfilled : List (NetKey × ℚ)) : List NetKey :=
  ((unfilled.map Prod.fst).filter fun k => k.2 ≠ [] ∧ netGroup k.2 = netGroup key.2).insertionSort
    (SlotBefore key unfilled)

/-- One slot takes what is left of the line, as far as it is unfilled on its side. -/
def Filling.fillSlot (st : Filling) (slot : NetKey) : Filling :=
  let open_ := Amounts.get slot st.unfilled
  if st.left ≠ 0 ∧ open_ ≠ 0 ∧ (0 < open_ ↔ 0 < st.left) then
    let take := min |st.left| |open_| * (if 0 < st.left then 1 else -1)
    { left := st.left - take
      net := Amounts.add slot take st.net
      unfilled := Amounts.add slot (-take) st.unfilled }
  else st

/-- The loop over the slots of one line. -/
def Filling.fillSlots (st : Filling) (slots : List NetKey) : Filling :=
  slots.foldl Filling.fillSlot st

/-- One line of the bill: the slots of its group, then its own account. -/
def fillLine (rolesForAccount : String → List String) (st : Filling) (l : RoleLine) : Filling :=
  let key := netKey rolesForAccount l
  let filled := Filling.fillSlots { st with left := l.amount } (slotsOf key st.unfilled)
  if filled.left ≠ 0 then { filled with net := Amounts.add key filled.left filled.net } else filled

/-- What the bill's entry moves on each account, less what was booked. -/
def netAgainst (rolesForAccount : String → List String) (bill : List RoleLine)
    (booked : List (NetKey × ℚ)) : List (NetKey × ℚ) :=
  let filled := bill.foldl (fillLine rolesForAccount) ⟨0, [], booked⟩
  booked.foldl (fun net e => Amounts.add e.1 (-e.2) net) filled.net

/-- The line of an amount on an account for its roles, on the side of its sign. -/
def netLine (e : NetKey × ℚ) : RoleLine where
  account := e.1.1
  debit := max e.2 0
  credit := max (-e.2) 0
  fx := none
  accountRoles := some e.1.2

/-! ## Posting -/

/-- The lines of an entry `_emit_auto_posted_je` posts, none where they do not balance. -/
def emitRoleLines (currency : String) (lines : List RoleLine) : Option (List RoleLine) :=
  let posted := (lines.map fun l => { l with toLine := l.toLine.round currency }).filter (·.moves)
  if exchangeGap (posted.map (·.toLine)) = 0 then some posted else none

/-- `create_for_bill_conversion`: the lines posted for a bill that books `bill`, the
    entries `booked` being those of its receipts, and what the opening balances carry of
    an imported bill. -/
def createForBillConversion (rolesForAccount : String → List String) (currency : String)
    (bill : List RoleLine) (booked : List (List RoleLine)) : Option (List RoleLine) :=
  let net := docReceiptBooked rolesForAccount booked
  if net = [] then emitRoleLines currency bill
  else
    match (netAgainst rolesForAccount bill net).filter (·.2 ≠ 0) with
    | [] => some []
    | entries => emitRoleLines currency (entries.map netLine)

end Celerp
