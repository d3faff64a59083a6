/-
  The cost of a document's stock lines, lot by lot, when it is finalized
  (`compute_doc_cogs` in `celerp/services/auto_je.py`).

  A line prices at the lots it draws.  With `spanLots` a line within the free units
  of the lot it is bound to prices there; one beyond them draws the lots of its
  product with the line planner, around one tally of what the lots have left, where
  its lot may be split, and what is free of its lot where not.  What other invoices hold
  is read twice: of the lots the lines name, and of every lot with the pool, which the
  first line that spans lots reads.

  * `lineCost` is what one line draws and costs, `postLine` the accounts its cost
    leaves, `costLines` the loop over the lines and `computeDocCogs` the result;
  * `drawLines` are the draws of the loop alone, and `computeDocCogs_draws`: a result
    records exactly these.
-/
import Celerp.Lib.Outcome
import Celerp.Sales.Pick

namespace Celerp

open Tally Outcome

/-! ## Allocations -/

/-- A lot a line is allocated, and the account its cost leaves. -/
structure AllocatedLot where
  lotEntityId : String
  qty : ℚ
  unitCost : ℚ
  account : Option String
  deriving DecidableEq, Repr

/-- The lots a line is allocated, the quantity no lot covers and the line's cost. -/
structure Allocation where
  lots : List AllocatedLot
  provisionalQty : ℚ
  amount : ℚ
  deriving DecidableEq, Repr

/-- What a line's allocation takes of each lot. -/
def Allocation.takes (a : Allocation) : List (String × ℚ) := a.lots.map fun l => (l.lotEntityId, l.qty)

/-- `_shares`: the amount split over the parts that carry weight, or all on the first
    part; there is no share without a part. -/
def shares (parts : List (String × ℚ)) (amount : ℚ) (currency : String) :
    Option (List (String × ℚ)) :=
  match parts.filter (0 < ·.2) with
  | [] => parts.head?.map fun p => [(p.1, roundMoney amount currency)]
  | weighted => some ((weighted.map Prod.fst).zip (allocateProRata amount (weighted.map Prod.snd) currency))

/-- An amount added to the key's. -/
def addTo (amounts : List (String × ℚ)) (key : String) (v : ℚ) : List (String × ℚ) :=
  if key ∈ amounts.map Prod.fst then amounts.map fun p => if p.1 = key then (key, p.2 + v) else p
  else amounts ++ [(key, v)]

/-- The consignor payable a lot's first sale is costed against and whom it is owed to. -/
structure LotPayable where
  lotEntityId : String
  account : String
  consignor : String
  deriving DecidableEq, Repr

/-- `CogsResult` -/
structure CogsResult where
  total : ℚ := 0
  /-- by the line's index -/
  allocations : List (ℕ × Allocation) := []
  byAccount : List (String × ℚ) := []
  ambiguous : Bool := false
  payables : List LotPayable := []
  deriving DecidableEq, Repr

/-- The quantity the result allocates from a lot, over all lines. -/
def CogsResult.allocatedFrom (result : CogsResult) (lot : String) : ℚ :=
  Tally.total lot (result.allocations.flatMap fun a => a.2.takes)

/-! ## What costing a document reads -/

structure CogsDoc where
  items : Items
  lines : List DocLine
  docId : Option String
  /-- what other unshipped invoices hold (`unshipped_claims`): a lot and a quantity each -/
  claims : List (String × ℚ)
  /-- the same as read from the invoices that may hold the lots the lines name -/
  namedClaims : List (String × ℚ)
  /-- the company's `inventory_method` -/
  inventoryMethod : Option String
  currency : String
  /-- `consignor_of` a lot -/
  consignorOf : String → Option String
  /-- the account of the consignor payable role -/
  consignorPayable : Except CogsError String

namespace CogsDoc
variable (D : CogsDoc)

/-- What other invoices hold of a lot. -/
def claimed (lot : String) : ℚ := total lot D.claims

/-- What a lot has on hand. -/
def quantityOf (lot : String) : ℚ := (D.items.get? lot).elim 0 (·.state.quantity)

/-- The claims the loop goes by, before and after the pool is read. -/
def claimsRead (pooled : Bool) : List (String × ℚ) := if pooled then D.claims else D.namedClaims

/-- A lot's units no other invoice holds, by the claims read. -/
def free (pooled : Bool) (lot : String) : ℚ :=
  max 0 (D.quantityOf lot - total lot (D.claimsRead pooled))

/-- The lot of a row, with the demand claim of the document: goods out with the customer
    on it are its own. -/
def asLot (row : ItemRow) : Lot where
  entityId := row.entityId
  createdAt := row.createdAt
  state := row.state
  claim :=
    if D.docId.isSome ∧ row.state.status ∈ ["memo_out", "sold"] ∧ row.state.statusDocId = D.docId then
      some .reserved
    else row.state.demandClaim D.docId

/-- `doc_lot_pool`: every lot the lines may draw from. -/
def docLotPool : List Lot := D.items.rows.map D.asLot

/-- What is recorded as remaining before the first draw: the units no other invoice
    holds of each lot that one holds any of. -/
def remaining : Remaining := fun lot =>
  if lot ∈ D.claims.map Prod.fst then
    (D.items.get? lot).map fun row => max 0 (row.state.quantity - D.claimed lot)
  else none

/-- What the lots have left when a line is costed: the tally, once the pool is read. -/
def left (pool : Option Remaining) : Remaining := pool.getD D.remaining

/-- Whether another line of the document holds the lot. -/
def heldElsewhere (i : ℕ) (lot : String) : Bool :=
  (D.docLotPool.filter fun l => l.entityId = lot ∧ l.claim = some .reserved).any fun l =>
    match attributeHold D.lines l with
    | .line j => j ≠ i
    | _ => false

/-- The lots a spanning line may draw from: those of `line_draw_sources`, and first the
    lot it names, whatever its status, where no other line holds it. -/
def spanSources (i : ℕ) (li : DocLine) (row : ItemRow) : DrawSources :=
  let sources := lineDrawSources D.lines i li D.docLotPool
    (resolvePickMethod row.state D.inventoryMethod)
  if sources.primary = none ∧ row.entityId ∉ sources.own.map (·.entityId) ∧
      ¬D.heldElsewhere i row.entityId then
    { sources with primary := some ((D.docLotPool.find? (·.entityId = row.entityId)).getD
        ⟨row.entityId, row.createdAt, row.state, none⟩) }
  else sources

/-- `_span_line_lots`: the draws of a spanning line. -/
def spanLineLots (i : ℕ) (li : DocLine) (row : ItemRow) (r : Remaining) : Drawn :=
  planLineDraws li.quantity (D.spanSources i li row)
    (resolvePickMethod row.state D.inventoryMethod) r

/-! ## One line -/

/-- A lot a line draws. -/
structure LotTake where
  lotEntityId : String
  qty : ℚ
  unitCost : ℚ
  state : LotState
  deriving DecidableEq, Repr

/-- What a line draws, and its cost before rounding. -/
structure LineCost where
  lots : List LotTake
  provisionalQty : ℚ
  amount : ℚ
  deriving DecidableEq, Repr

def LineCost.takes (c : LineCost) : List (String × ℚ) := c.lots.map fun l => (l.lotEntityId, l.qty)

/-- The row a line costs at: a line with a quantity, that names an item of stock. -/
def stockRow (li : DocLine) : Option ItemRow :=
  if li.quantity ≤ 0 then none
  else ((li.itemId.bind D.items.get?).filter fun row =>
    !isNonStockLine row.state.inventoryType row.state.sellBy)

/-- Whether the line is beyond the free units of the lot it is bound to. -/
def beyond (pooled : Bool) (li : DocLine) (row : ItemRow) : Bool :=
  D.free pooled row.entityId + EPS < li.quantity

/-- The draw of one line, by one of three routes: over the lots of its product, of what
    is free of a lot that may not be split, or whole from the lot it is bound to.  The
    tally is there once the pool is read, by the first line of the first route. -/
def lineCost (spanLots : Bool) (i : ℕ) (li : DocLine) (row : ItemRow) (pool : Option Remaining) :
    LineCost × Option Remaining :=
  let unitCost := row.state.lotUnitCost
  let free := D.free pool.isSome row.entityId
  if spanLots ∧ D.beyond pool.isSome li row ∧ row.state.splittingAllowed then
    let d := D.spanLineLots i li row (D.left pool)
    let lots : List LotTake :=
      d.draws.map fun w => ⟨w.lot.entityId, w.take, w.lot.state.lotUnitCost, w.lot.state⟩
    (⟨lots, d.short, (lots.map fun l => l.qty * l.unitCost).sum⟩, some d.remaining)
  else if spanLots ∧ D.beyond pool.isSome li row then
    (⟨if EPS < free then [⟨row.entityId, free, unitCost, row.state⟩] else [], li.quantity - free,
      unitCost * free⟩, pool)
  else (⟨[⟨row.entityId, li.quantity, unitCost, row.state⟩], 0, unitCost * li.quantity⟩, pool)

/-- The consignor payable recorded for a consigned lot sold for the first time. -/
def newPayable (lot : String) (s : LotState) : Except CogsError (Option LotPayable) :=
  if s.consignedIn ∧ s.consignorPayable = none then
    match D.consignorOf lot with
    | none => .error (.consignorUnknown s.sku)
    | some consignor => D.consignorPayable.map fun code => some ⟨lot, code, consignor⟩
  else .ok none

/-- `sold_account`: the account a lot's cost leaves. -/
def soldAccount (lot : String) (s : LotState) : Except CogsError String := do
  match ← D.newPayable lot s with
  | some p => pure p.account
  | none => soldLotAccount s

/-- A drawn lot with the account its cost leaves, where the line costs anything. -/
def allocateLot (amount : ℚ) (l : LotTake) : Except CogsError AllocatedLot :=
  if 0 < amount then
    (D.soldAccount l.lotEntityId l.state).map fun code => ⟨l.lotEntityId, l.qty, l.unitCost, some code⟩
  else .ok ⟨l.lotEntityId, l.qty, l.unitCost, none⟩

/-- The states a line's cost is read from: those of the lots it draws and of its own. -/
def LineCost.states (c : LineCost) (row : ItemRow) : List (String × LotState) :=
  let drawn := c.lots.map fun l => (l.lotEntityId, l.state)
  if row.entityId ∈ drawn.map Prod.fst then drawn else drawn ++ [(row.entityId, row.state)]

/-- The postings of a line's cost: its allocation, what it moves by account, and the
    payables it records.  Consigned goods without a cost are refused. -/
def postLine (row : ItemRow) (c : LineCost) :
    Except CogsError (Allocation × List (String × ℚ) × List LotPayable) := do
  let amount := roundMoney (max 0 c.amount) D.currency
  let states := c.states row
  states.forM fun p =>
    if p.2.consignedIn ∧ p.2.costTotal = none then .error (.consignmentNoCost p.2.sku) else .ok ()
  let lots ← c.lots.mapM (D.allocateLot amount)
  if 0 < amount then
    match shares (c.lots.map fun l => (l.lotEntityId, l.qty * l.unitCost)) amount D.currency with
    | none => .error .noPart
    | some parts =>
      let moved ← parts.mapM fun p => do
        let s := ((states.lookup p.1).getD row.state)
        let code ← D.soldAccount p.1 s
        pure (if s.consignedIn then partyKey code (D.consignorOf p.1) else code, p.2)
      let payables ← c.lots.mapM fun l => D.newPayable l.lotEntityId l.state
      pure (⟨lots, c.provisionalQty, amount⟩, moved, payables.filterMap id)
  else pure (⟨lots, c.provisionalQty, amount⟩, [], [])

/-! ## The document -/

/-- A costed line added to the result. -/
def CogsResult.add (result : CogsResult) (i : ℕ) (ambiguous : Bool)
    (posted : Allocation × List (String × ℚ) × List LotPayable) : CogsResult where
  total := result.total + posted.1.amount
  allocations := result.allocations ++ [(i, posted.1)]
  byAccount := posted.2.1.foldl (fun by_ p => addTo by_ p.1 p.2) result.byAccount
  ambiguous := result.ambiguous || ambiguous
  payables := result.payables ++ posted.2.2.filter (· ∉ result.payables)

/-- The loop over the lines, in document order, around what the lots have left. -/
def costLines (spanLots : Bool) :
    ℕ → List DocLine → Option Remaining → CogsResult → Except CogsError CogsResult
  | _, [], _, result => pure result
  | i, li :: lines, pool, result =>
    match D.stockRow li with
    | none => costLines spanLots (i + 1) lines pool result
    | some row => do
      let c := D.lineCost spanLots i li row pool
      let posted ← D.postLine row c.1
      let ambiguous := row.state.quantity + EPS < li.quantity ∧ row.state.splittingAllowed
      costLines spanLots (i + 1) lines c.2 (CogsResult.add result i ambiguous posted)

/-- `compute_doc_cogs`: the cost of a document with its allocation by line. -/
def computeDocCogs (spanLots : Bool) : Except CogsError CogsResult :=
  D.costLines spanLots 0 D.lines none {}

/-! ## The draws of the loop -/

/-- What the lines draw, in document order. -/
def drawLines (spanLots : Bool) : ℕ → List DocLine → Option Remaining → List (ℕ × LineCost)
  | _, [], _ => []
  | i, li :: lines, pool =>
    match D.stockRow li with
    | none => drawLines spanLots (i + 1) lines pool
    | some row =>
      let c := D.lineCost spanLots i li row pool
      (i, c.1) :: drawLines spanLots (i + 1) lines c.2

section
variable {D} {spanLots : Bool}

theorem allocateLot_take {amount : ℚ} {l : LotTake} {out : AllocatedLot}
    (h : D.allocateLot amount l = .ok out) : (out.lotEntityId, out.qty) = (l.lotEntityId, l.qty) := by
  unfold allocateLot at h
  split_ifs at h
  · cases hcode : D.soldAccount l.lotEntityId l.state with
    | error e => simp [hcode, Except.map] at h
    | ok code =>
      rw [hcode] at h
      obtain rfl := Except.ok.inj h
      rfl
  · obtain rfl := Except.ok.inj h
    rfl

/-- A line's allocation is what it drew. -/
theorem postLine_draws {row : ItemRow} {c : LineCost}
    {posted : Allocation × List (String × ℚ) × List LotPayable} (h : D.postLine row c = .ok posted) :
    posted.1.takes = c.takes ∧ posted.1.provisionalQty = c.provisionalQty := by
  unfold postLine at h
  obtain ⟨-, -, h⟩ := bind_eq_ok.1 h
  obtain ⟨lots, hlots, h⟩ := bind_eq_ok.1 h
  have htakes : lots.map (fun l => (l.lotEntityId, l.qty)) = c.takes :=
    map_of_mapM_eq_ok (fun _ _ _ => allocateLot_take) hlots
  dsimp only at h
  split_ifs at h
  · split at h
    · exact absurd h nofun
    · obtain ⟨moved, -, h⟩ := bind_eq_ok.1 h
      obtain ⟨payables, -, h⟩ := bind_eq_ok.1 h
      obtain rfl := Except.ok.inj h
      exact ⟨htakes, rfl⟩
  · obtain rfl := Except.ok.inj h
    exact ⟨htakes, rfl⟩

theorem costLines_draws : ∀ {i : ℕ} {lines : List DocLine} {pool : Option Remaining}
    {result result' : CogsResult}, D.costLines spanLots i lines pool result = .ok result' →
    result'.allocations.map (fun a => (a.1, a.2.takes, a.2.provisionalQty)) =
      result.allocations.map (fun a => (a.1, a.2.takes, a.2.provisionalQty)) ++
        (D.drawLines spanLots i lines pool).map fun c => (c.1, c.2.takes, c.2.provisionalQty)
  | _, [], _, result, result', h => by
    obtain rfl := Except.ok.inj h
    simp [drawLines]
  | i, li :: lines, pool, result, result', h => by
    unfold costLines at h
    unfold drawLines
    cases hrow : D.stockRow li with
    | none =>
      rw [hrow] at h
      exact costLines_draws h
    | some row =>
      rw [hrow] at h
      obtain ⟨posted, hposted, h⟩ := bind_eq_ok.1 h
      obtain ⟨htakes, hprovisional⟩ := postLine_draws hposted
      rw [costLines_draws h]
      simp [CogsResult.add, htakes, hprovisional]

/-- **A result records the draws of the loop.** -/
theorem computeDocCogs_draws {result : CogsResult} (h : D.computeDocCogs spanLots = .ok result) :
    result.allocations.map (fun a => (a.1, a.2.takes, a.2.provisionalQty)) =
      (D.drawLines spanLots 0 D.lines none).map fun c => (c.1, c.2.takes, c.2.provisionalQty) := by
  simpa using costLines_draws h

end

end CogsDoc

end Celerp
