/-
  What finalized invoices hold of goods still on hand (`unshipped_claims` in
  `celerp/services/auto_je.py`).

  An open invoice recognised the cost of the lots its lines were allocated.  What a
  line has not shipped it claims on those lots, in allocation order, wherever their
  goods went (`Items.heldWhere`), each lot up to what it still holds less what earlier
  claims took of it.

  * `recognizedByAccount` is `_recognized_by_account`: the lines still held, with the
    quantity not shipped and the cost recognised for it, by account;
  * `claimMembers` takes from the lots that hold the goods of one allocated lot,
    `claimLots` and `claimLine` a line's claims, `claimInvoices` the loop in finalize
    order, `unshippedClaims` the claims of open invoices.
-/
import Celerp.Inventory.Lineage
import Celerp.Lib.Grouping
import Celerp.Sales.LineCost

namespace Celerp

open Grouping

/-! ## Open invoices -/

/-- A lot shipped for an invoice, or returned, with the line its shipment recorded. -/
structure Shipment where
  lot : ItemRow
  sourceLineId : Option String
  recorded : Option ℕ

/-- A finalized invoice not shipped in full: its lines, the cost it recognised by line
    (`RecognizedCogs`), the cost corrections since, and its shipments and returns. -/
structure OpenInvoice where
  docId : String
  lines : List DocLine
  seq : ℕ
  allocations : List (ℕ × Allocation)
  nodup : (allocations.map Prod.fst).Nodup
  repriced : ℕ → ℚ
  shipped : List Shipment
  back : List (Shipment × ℚ)

/-- `_open_invoices`: one entry for each invoice. -/
structure OpenInvoices where
  list : List OpenInvoice
  nodup : (list.map (·.docId)).Nodup

/-- What reading claims needs (`_Books`). -/
structure ClaimBooks where
  items : Items
  /-- states read in place of the lots' own -/
  states : List (String × LotState)
  currency : String
  consignorOf : String → Option String
  payableCodes : List String
  /-- the account an older invoice's finalize entry took its cost from -/
  relieved : String → Option String
  /-- goods awaiting placement read under `UNPLACED` -/
  pending : Bool
  /-- whether claims carry accounts and amounts -/
  costed : Bool

/-- Goods on hand an invoice costed and has not shipped. -/
structure UnshippedClaim where
  docId : String
  line : ℕ
  lotId : String
  qty : ℚ
  key : Option String
  amount : ℚ
  onHand : ℚ
  deriving DecidableEq, Repr

/-! ## What an invoice recognises -/

/-- `line_of_lot`: the line a shipped lot belongs to: the line recorded by its id, the
    line recorded by position while it still binds the lot or is of its SKU, the only
    line that binds it, the only line of its SKU. -/
def lineOfLot (lines : List DocLine) (s : Shipment) : Option ℕ :=
  let binds (li : DocLine) : Bool := li.itemId = some s.lot.entityId
  let sameSku (li : DocLine) : Bool := s.lot.state.sku ≠ "" ∧ li.sku = s.lot.state.sku
  let at_ (p : DocLine → Bool) : List ℕ := (lines.zipIdx.filter fun l => p l.1).map Prod.snd
  let byId := s.sourceLineId.bind fun id => (at_ fun li => li.lineId = some id).head?
  let byPosition := s.recorded.filter fun i => lines[i]?.any fun li => binds li || sameSku li
  match byId.or byPosition with
  | some i => some i
  | none => match at_ binds with
    | [i] => some i
    | _ :: _ => none
    | [] => match at_ sameSku with
      | [i] => some i
      | _ => none

/-- A line's quantity as it was recognised: what it was allocated and what no lot
    covered. -/
def Allocation.quantity (a : Allocation) : ℚ := (a.lots.map (·.qty)).sum + a.provisionalQty

namespace OpenInvoice
variable (inv : OpenInvoice)

/-- What a line shipped. -/
def shippedQty (i : ℕ) : ℚ :=
  ((inv.shipped.filter fun s => lineOfLot inv.lines s = some i).map (·.lot.state.quantity)).sum

/-- What a line got back. -/
def backQty (i : ℕ) : ℚ :=
  ((inv.back.filter fun b => lineOfLot inv.lines b.1 = some i).map Prod.snd).sum

/-- Whether a line shipped anything. -/
def ships (i : ℕ) : Bool := inv.shipped.any fun s => lineOfLot inv.lines s = some i

/-- Whether a line got anything back. -/
def returns (i : ℕ) : Bool := inv.back.any fun b => lineOfLot inv.lines b.1 = some i

/-- What a line has not shipped of its recognised quantity. -/
def unshippedQty (i : ℕ) (a : Allocation) : ℚ := a.quantity - inv.shippedQty i - inv.backQty i

end OpenInvoice

/-- A line still held: its allocation, the cost recognised for what it has not shipped,
    by account, and that quantity. -/
structure HeldLine where
  index : ℕ
  alloc : Allocation
  byKey : List (String × ℚ)
  unshipped : ℚ

/-- `lot_cost_of_sale`: what a lot costs when it leaves on a sale. -/
def lotCostOfSale (s : LotState) : ℚ := s.costTotal.getD (s.costPrice.getD 0 * s.quantity)

/-- `UNPLACED` -/
def UNPLACED : String := ""

namespace ClaimBooks
variable (B : ClaimBooks)

/-- `_sold_key`: the posting key of the account a lot's cost leaves. -/
def soldKey (lot : String) (s : LotState) : Except CogsError String :=
  if B.pending ∧ ¬s.consignedIn ∧ s.inventoryAccount = none then .ok UNPLACED
  else (soldLotAccount s).map fun code =>
    if s.consignedIn then partyKey code (B.consignorOf lot) else code

/-- The state a lot that is gone is read as. -/
def goneState : LotState where
  quantity := 0
  costBase := none
  costTotal := none
  costPrice := none
  landedCosts := []
  goodsCostUnknown := false
  sku := ""

/-- `_allocated_lot_key`: the account an allocated lot is costed against. -/
def allocatedLotKey (docId : String) (lot : AllocatedLot) : Except CogsError String :=
  let s := (B.items.get? lot.lotEntityId).elim goneState (·.state)
  match lot.account, B.relieved docId with
  | some code, _ => if code ∉ B.payableCodes then .ok code else B.soldKey lot.lotEntityId s
  | none, some code => if s.consignedIn then B.soldKey lot.lotEntityId s else .ok code
  | none, none => B.soldKey lot.lotEntityId s

/-- `_allocation_by_account`: an amount of a line's allocation over the accounts its lots
    are costed against. -/
def allocationByAccount (docId : String) (a : Allocation) (amount : ℚ) :
    Except CogsError (List (String × ℚ)) :=
  if amount = 0 ∨ a.lots = [] then .ok []
  else do
    let parts ← a.lots.foldlM (fun parts lot => do
      let code ← B.allocatedLotKey docId lot
      pure (addTo parts code (lot.qty * lot.unitCost))) []
    pure ((shares parts amount B.currency).getD [])

/-- The line as it is held: whole where it neither shipped nor got back anything, else
    what it has not shipped, if any. -/
def heldLine (inv : OpenInvoice) (i : ℕ) (a : Allocation) : Except CogsError (Option HeldLine) :=
  if !inv.ships i ∧ !inv.returns i then do
    let byKey ← B.allocationByAccount inv.docId a (a.amount + inv.repriced i)
    pure (some ⟨i, a, byKey, a.quantity⟩)
  else
    let amount := if inv.ships i then a.amount else a.amount + inv.repriced i
    let unshipped := inv.unshippedQty i a
    if 0 < a.quantity ∧ EPS < unshipped then do
      let byKey ← B.allocationByAccount inv.docId a (amount * unshipped / a.quantity)
      pure (some ⟨i, a, byKey, unshipped⟩)
    else pure none

/-- `_recognized_by_account`: the cost of the lots an invoice shipped, by account, and
    the lines it still holds.  A lot shipped or returned on no line is refused. -/
def recognizedByAccount (inv : OpenInvoice) :
    Except CogsError (List (String × ℚ) × List HeldLine) := do
  let shipped ← inv.shipped.foldlM (fun by_ s =>
    if lineOfLot inv.lines s = none then .error .lineUnknown
    else if lotCostOfSale s.lot.state = 0 then .ok by_
    else (B.soldKey s.lot.entityId s.lot.state).map fun key =>
      addTo by_ key (lotCostOfSale s.lot.state)) []
  inv.back.forM fun b =>
    if lineOfLot inv.lines b.1 = none then .error .lineUnknown else .ok ()
  let held ← inv.allocations.mapM fun a => B.heldLine inv a.1 a.2
  pure (shipped, held.reduceOption)

/-! ## Claims -/

/-- `_on_hand_value`: the value of the goods a lot holds in stock, if it holds any. -/
def onHandValue (row : ItemRow) : Option ℚ :=
  (heldValue row).or
    (if row.state.consignedIn ∧ row.state.inStock ∧ row.state.isStockType then
      some row.state.recordedValue
    else none)

/-- `_hold_order`: a part reserved for the invoice first, one reserved for another
    last. -/
def holdOrder (docId : String) (s : LotState) : ℕ :=
  if s.status ≠ "reserved" ∨ s.statusDocId = none then 1
  else if s.statusDocId = some docId then 0 else 2

/-- A row as it is read. -/
def reading (row : ItemRow) : ItemRow :=
  { row with state := (B.states.lookup row.entityId).getD row.state }

/-- What a lot has on hand for claims to take. -/
def holds (lot : String) : ℚ :=
  match (B.items.get? lot).map B.reading with
  | some row => if (onHandValue row).isSome then max 0 row.state.quantity else 0
  | none => 0

/-- Some units of a lot taken for a line. -/
structure Taken where
  lotId : String
  qty : ℚ
  key : Option String
  weight : ℚ
  onHand : ℚ
  deriving DecidableEq, Repr

/-- What earlier claims took, by lot. -/
abbrev Used := String → ℚ

/-- Take what is wanted from the lots that hold an allocated lot's goods, each up to
    what it still holds less what is used of it. -/
def claimMembers (unitCost : ℚ) : List ItemRow → ℚ → Used → List Taken × Used
  | [], _, used => ([], used)
  | m :: members, want, used =>
    let qty := min want (m.state.quantity - used m.entityId)
    match onHandValue m with
    | none => claimMembers unitCost members want used
    | some value =>
      if qty ≤ EPS then claimMembers unitCost members want used
      else
        let t := claimMembers unitCost members (want - qty)
          (Function.update used m.entityId (used m.entityId + qty))
        (⟨m.entityId, qty, none, qty * unitCost, value⟩ :: t.1, t.2)

/-- The lots that hold an allocated lot's goods, in the order an invoice looks into
    them. -/
def membersOf (heldWhere : String → List ItemRow) (docId lot : String) : List ItemRow :=
  ((heldWhere lot).map B.reading).insertionSort fun a b =>
    holdOrder docId a.state ≤ holdOrder docId b.state

/-- What a line takes for one allocated lot, with the account it is costed against. -/
def claimLot (heldWhere : String → List ItemRow) (docId : String) (lot : AllocatedLot) (want : ℚ)
    (used : Used) : Except CogsError (List Taken × Used) := do
  let t := claimMembers lot.unitCost (B.membersOf heldWhere docId lot.lotEntityId) want used
  if B.costed ∧ t.1 ≠ [] then
    let key ← B.allocatedLotKey docId lot
    pure (t.1.map fun taken => { taken with key := some key }, t.2)
  else pure t

/-- What a line takes for its allocated lots, in allocation order: up to what was
    allocated of each, and no more than is left. -/
def claimLots (heldWhere : String → List ItemRow) (docId : String) :
    List AllocatedLot → ℚ → Used → Except CogsError (List Taken × Used)
  | [], _, used => pure ([], used)
  | lot :: lots, left, used => do
    let t ← B.claimLot heldWhere docId lot (min lot.qty left) used
    let rest ← claimLots heldWhere docId lots (left - (t.1.map (·.qty)).sum) t.2
    pure (t.1 ++ rest.1, rest.2)

/-- The weights of what was taken, by lot (a dict: a lot taken again keeps its place and
    takes the new weight). -/
def weights (taken : List Taken) : List (String × ℚ) :=
  taken.foldl (fun parts t =>
    if t.lotId ∈ parts.map Prod.fst then
      parts.map fun p => if p.1 = t.lotId then (p.1, t.weight) else p
    else parts ++ [(t.lotId, t.weight)]) []

/-- The claims of a line: what it takes, by account, with the cost recognised on the
    account shared over the lots by their allocated cost. -/
def claimLine (heldWhere : String → List ItemRow) (docId : String) (held : HeldLine) (used : Used) :
    Except CogsError (List UnshippedClaim × Used) := do
  let t ← B.claimLots heldWhere docId held.alloc.lots held.unshipped used
  let share (key : Option String) : List (String × ℚ) :=
    (shares (weights (t.1.filter (·.key = key)))
      ((key.bind fun k => held.byKey.lookup k).getD 0) B.currency).getD []
  pure ((grouped (·.key) t.1).map fun taken =>
    ⟨docId, held.index, taken.lotId, taken.qty, taken.key,
      ((share taken.key).lookup taken.lotId).getD 0, taken.onHand⟩, t.2)

/-- The claims of an invoice's lines, by line. -/
def claimLines (heldWhere : String → List ItemRow) (docId : String) :
    List HeldLine → Used → Except CogsError (List UnshippedClaim × Used)
  | [], used => pure ([], used)
  | held :: lines, used => do
    let c ← B.claimLine heldWhere docId held used
    let rest ← claimLines heldWhere docId lines c.2
    pure (c.1 ++ rest.1, rest.2)

/-- The claims of invoices, one after another, around what earlier claims took. -/
def claimInvoices (heldWhere : String → List ItemRow) :
    List OpenInvoice → Used → Except CogsError (List UnshippedClaim × Used)
  | [], used => pure ([], used)
  | inv :: invoices, used => do
    let recognized ← B.recognizedByAccount inv
    let c ← B.claimLines heldWhere inv.docId
      (recognized.2.insertionSort fun a b => a.index ≤ b.index) used
    let rest ← claimInvoices heldWhere invoices c.2
    pure (c.1 ++ rest.1, rest.2)

/-- The order invoices were finalized in. -/
def FinalizedBy (a b : OpenInvoice) : Prop := a.seq < b.seq ∨ a.seq = b.seq ∧ a.docId ≤ b.docId

instance (a b : OpenInvoice) : Decidable (FinalizedBy a b) := inferInstanceAs (Decidable (_ ∨ _))

/-- The lots the invoices were allocated. -/
def allocatedLots (invoices : List OpenInvoice) : List String :=
  (invoices.flatMap fun inv => inv.allocations.flatMap fun a => a.2.lots.map (·.lotEntityId)).dedup

/-- `unshipped_claims`: every claim of the open invoices, in finalize order. -/
def unshippedClaims (invoices : OpenInvoices) : Except CogsError (List UnshippedClaim) := do
  let heldWhere := B.items.heldWhere (allocatedLots invoices.list)
  let c ← B.claimInvoices heldWhere (invoices.list.insertionSort FinalizedBy) fun _ => 0
  pure c.1

end ClaimBooks

end Celerp
