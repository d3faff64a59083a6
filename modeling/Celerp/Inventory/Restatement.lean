/-
  Correcting the goods cost of a lot (`celerp_inventory/services.py`).

  A change of a lot's goods cost follows it into the merge results it went into.
  `restatement` is `_restatement`, which works a change out without writing anything:

  * `carry` is its walk along the merged lots: the change carried into each result, and
    whether its goods cost is known, read from the parts while its cost is the merge's own
    (`mergeParts`);
  * `adjustLot` is what the invoices and write-offs that took the lots' cost change by.

  `restateItemCost` writes the change and what it carries.
-/
import Celerp.Inventory.Item
import Celerp.Lib.Amounts
import Celerp.Lib.Pointers
import Celerp.Sales.Claims

namespace Celerp

/-! ## Lots and their history -/

/-- An event of a lot, with what its metadata and the rest of its data say. -/
structure HistoryRow where
  event : ItemEvent
  /-- an `item.snapshot`, not an `item.created` -/
  snapshot : Bool := false
  reason : Option String := none
  sourceListId : Option String := none
  restatedFrom : Option String := none
  /-- a merge's own write -/
  fromMerge : Bool := false
  mergedFrom : List String := []

/-- A lot and its history. -/
structure CostedLot where
  state : ItemState
  name : String := ""
  /-- it records `children` or `transformed_into` -/
  dispersed : Bool := false
  history : List HistoryRow

/-- A lot's last fulfilment, or the last status set on it. -/
structure SaleEntry where
  id : ℕ
  /-- an `item.fulfilled`, not an `item.status.set` -/
  fulfilled : Bool
  sourceDocId : Option String
  docNumber : Option String
  docType : Option String
  lineIndex : Option ℤ

/-- What is read of a document a lot was sold on. -/
structure SaleDoc where
  docType : Option String
  docNumber : Option String
  refId : Option String

/-- A line of a write-off list. -/
structure WriteoffLine where
  adjusted : Bool
  disposedEntityId : Option String
  account : Option String

/-- A list of write-offs. -/
structure WriteoffList where
  listType : Option String
  status : Option String
  result : Option String
  lines : List WriteoffLine

/-- A line of an invoice that prices a lot: the invoice, its finalize cycle and the line. -/
structure AllocationKey where
  docId : String
  cycle : String
  line : ℤ
  deriving DecidableEq, Repr

/-- The lots of a company, with what its documents say of the cost they carry. -/
structure LotBooks where
  lots : List (String × CostedLot)
  nodup : (lots.map Prod.fst).Nodup
  lastSale : String → Option SaleEntry
  /-- `_return_after`: a credit note still holding returned stock of a SKU -/
  returnAfter : String → ℕ → Option String
  docs : String → Option SaleDoc
  /-- the cycle of `recognized_cogs` -/
  recognizedCycle : String → Option String
  legacyCogsRefusal : String → Option String
  /-- `allocations_naming_lot`, in order -/
  allocations : String → List (AllocationKey × ℚ)
  writeoffLists : String → Option WriteoffList
  consignorOf : String → Option String

/-- What a correction is refused for. -/
inductive RestateRefusal where
  | itemNotFound
  | eventRefused
  | costNegative (lot : String)
  | costUsed (lot : String)
  | unitCostOnly (lot : String)
  | mergedPart (lot : String)
  | lineageMissing (lot : String)
  | lineageLoop (lot item : String)
  | lineageBroken (lot item : String)
  | successorUsed (lot successor : String)
  | successorNegative (lot successor : String) (change : ℚ)
  | returned (lot sku doc : String)
  | saleUntraced (lot : String)
  | legacyCogs (reason : String)
  | disposedNoWriteoff (label : String)
  | lotPartlyPriced (lot doc : String)
  | cogs (error : CogsError)
  /-- the walk met more lots than there are, which it never does -/
  | exhausted
  deriving DecidableEq, Repr

/-- The lot of an entity. -/
def LotBooks.get? (b : LotBooks) (id : String) : Option CostedLot := b.lots.lookup id

/-- `lot_label` -/
def CostedLot.label (lot : CostedLot) (id : String) : String :=
  if lot.state.sku ≠ "" then lot.state.sku else if lot.name ≠ "" then lot.name else id

/-! ## Goods cost -/

/-- `goods_cost_empty`: a lot with no units and no goods value. -/
def LotCost.goodsCostEmpty (s : LotCost) : Bool :=
  s.quantity = 0 ∧ roundBasis (s.recordedValue - landed s.landedCosts) = 0

/-- `_basis_or_conflict`: a lot's goods cost, 0 where it carries none; a unit cost with no
    total has none a correction can move. -/
def basisOrConflict (s : LotCost) (label : String) : Except RestateRefusal ℚ :=
  match s.goodsBasis with
  | some basis => .ok basis
  | none => if s.costPrice.isSome then .error (.unitCostOnly label) else .ok 0

/-- The goods costs among fields (`GOODS_COST_KEYS`). -/
def goodsCostsOf (fields : List ItemField) : List (Option ℚ) :=
  fields.filterMap fun
    | .costPrice v => some v
    | .costTotal v => some v
    | .costBase v => some v
    | _ => none

/-- `written_goods_costs`: the goods costs an event writes. -/
def writtenGoodsCosts : ItemEvent → List (Option ℚ)
  | .updated fieldsChanged _ => goodsCostsOf fieldsChanged
  | .pricingSet (.goods _) newPrice _ => [some newPrice]
  | .pricingSet .costBase newPrice _ => [some newPrice]
  | .created data => goodsCostsOf data
  | .patched data => goodsCostsOf data
  | .quantityAdjusted _ (some costBase) _ _ _ => [some costBase]
  | .costAdjusted costTotal _ => [some costTotal]
  | _ => []

/-- `writes_goods_cost` -/
def writesGoodsCost (event : ItemEvent) : Bool := writtenGoodsCosts event ≠ []

/-- `negative_cost_error` -/
def negativeCost (costs : List (Option ℚ)) : Bool := costs.any fun cost => cost.any (· < 0)

/-! ## History -/

/-- `_UNTRACEABLE_COST_EVENTS` -/
def isUntraceable : ItemEvent → Bool
  | .noted .split | .noted .transform => true
  | .consumed .. => true
  | _ => false

/-- What an adjustment does to the audits that lowered stock; none where it lowered stock
    itself. -/
def auditsAfter (row : HistoryRow) (lowers : Bool) (audits : List (String × Bool)) :
    Option (List (String × Bool)) :=
  match row.reason, row.sourceListId.filter (· ≠ "") with
  | some "audit_undo", some list =>
    if list ∈ audits.map Prod.fst then some (audits.filter (·.1 ≠ list))
    else if lowers then none else some audits
  | some "audit", some list => some ((list, lowers) :: audits.filter (·.1 ≠ list))
  | _, _ => if lowers then none else some audits

/-- The replay of `_cost_is_traceable`. -/
def traceFrom : List HistoryRow → ItemState → List (String × Bool) → Bool
  | [], _, audits => !audits.any (·.2)
  | row :: rows, replayed, audits =>
    if isUntraceable row.event then false
    else match applyItemEvent roundBasis replayed row.event with
      | none => false
      | some after =>
        match row.event with
        | .quantityAdjusted .. =>
          match auditsAfter row (0 < replayed.quantity ∧ after.quantity < replayed.quantity) audits with
          | none => false
          | some audits => traceFrom rows after audits
        | _ => traceFrom rows after audits

/-- `_cost_is_traceable`: whether all of the lot's cost is on it or went whole into a merge
    or a sale. -/
def CostedLot.costIsTraceable (lot : CostedLot) : Bool :=
  !lot.dispersed && traceFrom lot.history .empty []

/-- `_merge_parts`: the lots a merge result was made from, while its cost is still the
    merge's own. -/
def mergeParts : List HistoryRow → Option (List String)
  | [] => none
  | first :: rows =>
    match first.event with
    | .created _ =>
      if first.snapshot ∨ first.mergedFrom = [] ∨
          rows.any fun row => writesGoodsCost row.event ∧ row.restatedFrom = none ∧ !row.fromMerge then none
      else some first.mergedFrom
    | _ => none

/-! ## Sales -/

/-- `_Sale`: where a sold lot's cost went. -/
structure Sale where
  docId : Option String := none
  cycle : Option String := none
  line : Option ℤ := none
  docNumber : String := ""
  allocated : Bool := false
  deriving DecidableEq, Repr

namespace LotBooks
variable (b : LotBooks)

/-- `_sale_of_lot` -/
def saleOfLot (id : String) (lot : CostedLot) : Except RestateRefusal Sale :=
  let label := lot.label id
  let sale := b.lastSale id
  let docId := (sale.bind (·.sourceDocId)).filter (· ≠ "")
  let returned := if lot.state.sku = "" then none else b.returnAfter lot.state.sku (sale.elim 0 (·.id))
  match returned with
  | some doc => .error (.returned label lot.state.sku doc)
  | none =>
    match sale, docId with
    | some sale, some docId =>
      if lot.state.statusDocId ≠ some docId then .error (.saleUntraced label)
      else
        let doc := b.docs docId
        let docNumber := ((sale.docNumber.or (doc.bind (·.docNumber))).or (doc.bind (·.refId))).getD docId
        if !sale.fulfilled then
          if doc.bind (·.docType) ≠ some "invoice" ∨ b.recognizedCycle docId = none then .error (.saleUntraced label)
          else .ok { docId := some docId, docNumber := docNumber, allocated := true }
        else if sale.docType ≠ some "invoice" ∨ sale.lineIndex = none then .error (.saleUntraced label)
        else match b.recognizedCycle docId with
          | some cycle => .ok ⟨some docId, some cycle, sale.lineIndex, docNumber, false⟩
          | none => match b.legacyCogsRefusal docId with
            | some reason => .error (.legacyCogs reason)
            | none => .ok { docId := some docId, docNumber := docNumber }
    | some sale, none =>
      if !sale.fulfilled ∧ lot.state.statusDocId = none then .ok {} else .error (.saleUntraced label)
    | none, _ => .error (.saleUntraced label)

/-- `cost_can_be_restated` -/
def costCanBeRestated (id : String) (lot : CostedLot) : Bool :=
  let status := lot.state.status.toLower
  !(status = "disposed" ∨ !lot.costIsTraceable) &&
    (if status = "sold" then decide (Outcome.Succeeds (b.saleOfLot id lot)) else true)

/-! ## The walk -/

/-- Whether a part of a merge result makes its goods cost known: a part with no units and
    no goods value does, and the part the change came through is read as corrected. -/
def partKnown (prevId : String) (prevState : ItemState) (part : String) : Bool :=
  match if part = prevId then some prevState else (b.get? part).map (·.state) with
  | some s => s.goodsCostEmpty || s.goodsCostKnown
  | none => false

/-- Whether the parts of a merge result make its goods cost known. -/
def partsKnown (prevId : String) (prevState : ItemState) (parts : List String) : Bool :=
  parts.all (b.partKnown prevId prevState)

/-- A merge result restated: its state before and after, and what is written to it. -/
structure Carried where
  lotId : String
  before : CostedLot
  after : ItemState
  costTotal : ℚ
  /-- whether its goods cost is unknown, where its cost is the merge's own -/
  unknown : Option Bool

/-- The lot a merged lot went into. -/
def mergedNext (s : ItemState) : Option String :=
  if s.status.toLower = "merged" then s.mergedInto.filter (· ≠ "") else none

/-- The next lot of the walk: a merged lot must record what it was merged into. -/
def nextLot (label : String) (s : ItemState) : Except RestateRefusal (Option String) :=
  if s.status.toLower = "merged" ∧ mergedNext s = none then .error (.lineageMissing label)
  else .ok (mergedNext s)

/-- Where the walk stops with nothing to carry: neither the value nor the known-ness of the
    result moves. -/
def Unmoved (delta : ℚ) (unknown : Option Bool) (s : ItemState) : Prop :=
  delta = 0 ∧ (unknown = none ∨ unknown = some !s.goodsCostKnown)

instance instDecidableUnmoved (delta : ℚ) (unknown : Option Bool) (s : ItemState) :
    Decidable (Unmoved delta unknown s) := inferInstanceAs (Decidable (_ ∧ _))

/-- The walk along the merged lots, from what the change was carried into last. -/
def carry (delta : ℚ) (label : String) :
    ℕ → List String → String → ItemState → String → Option String → Except RestateRefusal (List Carried)
  | _, _, _, _, _, none => .ok []
  | 0, _, _, _, _, some _ => .error .exhausted
  | fuel + 1, seen, prevId, prevState, current, some nextId =>
    if nextId ∈ seen then .error (.lineageLoop label nextId)
    else match b.get? nextId with
      | none => .error (.lineageBroken current nextId)
      | some lot =>
        let current := lot.label nextId
        if !b.costCanBeRestated nextId lot then
          -- no value to carry: past an untraceable lot its goods cost stays as it is
          if delta = 0 then .ok [] else .error (.successorUsed label current)
        else do
          let basis ← basisOrConflict lot.state.toLotCost current
          if basis + delta < 0 then .error (.successorNegative label current delta)
          else
            let costTotal := roundBasis (basis + delta)
            let unknown := (mergeParts lot.history).map fun parts => !b.partsKnown prevId prevState parts
            if Unmoved delta unknown lot.state then .ok []
            else match applyItemEvent roundBasis lot.state (.costAdjusted costTotal unknown) with
              | none => .error .eventRefused
              | some after => do
                let next ← nextLot current lot.state
                let rest ← carry delta label fuel (nextId :: seen) nextId after current next
                pure (⟨nextId, lot, after, costTotal, unknown⟩ :: rest)

/-! ## Invoices and write-offs -/

/-- A change of what an invoice line recognizes. -/
structure Repricing where
  key : AllocationKey
  amount : ℚ
  deriving DecidableEq, Repr

/-- A write-off whose lot's cost changes. -/
structure WriteoffChange where
  lotId : String
  listId : String
  destination : String
  origin : String
  change : ℚ
  deriving DecidableEq, Repr

/-- What a correction does to the invoices and write-offs that took the lots' cost. -/
structure Consequences where
  repriced : List (String × List Repricing) := []
  resold : List (String × List (String × ℚ)) := []
  unposted : List String := []
  sold : List (String × String × ℚ) := []
  writeoffs : List WriteoffChange := []
  deriving DecidableEq, Repr

/-- The still closed write-off of a lot: its list and the account it went to. -/
def writeoffOf (id : String) (lot : CostedLot) : Except RestateRefusal (String × String) :=
  match lot.state.statusDocId.filter (· ≠ "") with
  | none => .error (.disposedNoWriteoff (lot.label id))
  | some listId =>
    match b.writeoffLists listId with
    | none => .error (.disposedNoWriteoff (lot.label id))
    | some ls =>
      if ls.listType ≠ some "writeoff" ∨ ls.status ≠ some "closed" ∨ ls.result ≠ some "written_off" then
        .error (.disposedNoWriteoff (lot.label id))
      else match ls.lines.filter fun line => line.adjusted ∧ line.disposedEntityId = some id with
        | [line] => match line.account.filter (· ≠ "") with
          | some account => .ok (listId, account)
          | none => .error (.disposedNoWriteoff (lot.label id))
        | _ => .error (.disposedNoWriteoff (lot.label id))

/-- The account a lot's cost leaves on a sale, as a posting key (`sold_lot_key`). -/
def soldLotKey (id : String) (s : LotState) : Except RestateRefusal String :=
  ((soldLotAccount s).map fun code => if s.consignedIn then partyKey code (b.consignorOf id) else code).mapError
    .cogs

/-- What a write-off of a lot changes by. -/
def adjustWriteoff (acc : Consequences) (id : String) (lot : CostedLot) (change : ℚ) :
    Except RestateRefusal Consequences := do
  let w ← b.writeoffOf id lot
  let origin ← (lotAccount lot.state.toLotState).mapError .cogs
  pure { acc with writeoffs := acc.writeoffs ++ [⟨id, w.1, w.2, origin, change⟩] }

/-- What the sale of a lot changes by. -/
def adjustSale (acc : Consequences) (id : String) (lot : CostedLot) (sale : Sale) (change : ℚ) :
    Except RestateRefusal Consequences :=
  match sale.docId with
  | none => .ok { acc with unposted := acc.unposted ++ [lot.label id] }
  | some docId => do
    let resold ← if sale.line = none ∧ !sale.allocated ∧ change ≠ 0 then do
        let key ← b.soldLotKey id lot.state.toLotState
        pure (acc.resold.filter (·.1 ≠ docId) ++
          [(docId, Amounts.add key change ((acc.resold.lookup docId).getD []))])
      else pure acc.resold
    let sold ← if change ≠ 0 ∧ !lot.state.consignedIn then do
        let account ← (soldLotAccount lot.state.toLotState).mapError .cogs
        pure (acc.sold ++ [(id, account, change)])
      else pure acc.sold
    pure { acc with resold := resold, sold := sold }

/-- What the invoice lines that price a lot change by. -/
def adjustLines (acc : Consequences) (id : String) (lot : CostedLot) (sale : Sale) (change unitDelta : ℚ) :
    Except RestateRefusal Consequences :=
  let allocations := b.allocations id
  let covered := ((allocations.filter fun a => some a.1.docId = sale.docId).map Prod.snd).sum
  if sale.allocated ∧ EPS < |covered - lot.state.quantity| then .error (.lotPartlyPriced (lot.label id) sale.docNumber)
  else
    let sold := match sale.docId, sale.cycle, sale.line with
      | some docId, some cycle, some line => [⟨⟨docId, cycle, line⟩, change⟩]
      | _, _, _ => []
    let priced := (allocations.filter fun a => sale.line = none ∨ some a.1.docId ≠ sale.docId).map fun a =>
      (⟨a.1, a.2 * unitDelta⟩ : Repricing)
    let records := (sold ++ priced).filter (·.amount ≠ 0)
    .ok (if records = [] then acc else { acc with repriced := acc.repriced ++ [(id, records)] })

/-- What the change of one lot's cost changes. -/
def adjustLot (acc : Consequences) (r : String × CostedLot × ItemState) : Except RestateRefusal Consequences :=
  let lot := r.2.1
  let status := lot.state.status.toLower
  let change := lotCostOfSale r.2.2.toLotState - lotCostOfSale lot.state.toLotState
  let unitDelta := r.2.2.lotUnitCost - lot.state.lotUnitCost
  if status = "merged" ∨ status = "memo_out" then .ok acc
  else if status = "disposed" then do
    let acc ← b.adjustWriteoff acc r.1 lot change
    b.adjustLines acc r.1 lot {} change unitDelta
  else if status = "sold" then do
    let sale ← b.saleOfLot r.1 lot
    let acc ← b.adjustSale acc r.1 lot sale change
    b.adjustLines acc r.1 lot sale change unitDelta
  else b.adjustLines acc r.1 lot {} change unitDelta

/-! ## The plan -/

/-- `_Restatement`: the lot corrected, what is written to the merge results it reaches, and
    what invoices and write-offs change by. -/
structure Restatement where
  label : String
  root : CostedLot
  new : ItemState
  carried : List Carried
  consequences : Consequences

/-- The lots a plan restates. -/
def Restatement.lots (plan : Restatement) (id : String) : List String := id :: plan.carried.map (·.lotId)

/-- Whether a change of a lot reaches the lots it went into. -/
def walks (old new : ItemState) : Bool :=
  (old.status.toLower = "merged" ∨ old.status.toLower = "sold" ∨ old.status.toLower = "disposed") ∧
    (old.goodsBasis ≠ new.goodsBasis ∨ old.goodsCostKnown ≠ new.goodsCostKnown)

/-- What the change of a lot is carried into. -/
def carryFrom (id : String) (root : CostedLot) (new : ItemState) : Except RestateRefusal (List Carried) :=
  let label := root.label id
  if walks root.state new then do
    let oldBasis ← basisOrConflict root.state.toLotCost label
    let delta := roundBasis (new.goodsBasis.getD 0 - oldBasis)
    if root.state.status.toLower = "merged" ∧ new.goodsBasis = none then .error (.mergedPart label)
    else do
      let next ← nextLot label root.state
      b.carry delta label (b.lots.length + 1) [id] id new label next
  else .ok []

/-- `_restatement` -/
def restatement (id : String) (event : ItemEvent) : Except RestateRefusal Restatement :=
  match b.get? id with
  | none => .error .itemNotFound
  | some root =>
    match applyItemEvent roundBasis root.state event with
    | none => .error .eventRefused
    | some new =>
      let label := root.label id
      let costChanged : Bool := root.state.goodsBasis ≠ new.goodsBasis
      if negativeCost (writtenGoodsCosts event ++ [new.goodsBasis]) then .error (.costNegative label)
      else if costChanged ∧ !root.costIsTraceable then .error (.costUsed label)
      else do
        let carried ← b.carryFrom id root new
        let restated := (id, root, new) :: carried.map fun c => (c.lotId, c.before, c.after)
        let consequences ← if costChanged then restated.foldlM b.adjustLot {} else pure {}
        pure ⟨label, root, new, carried, consequences⟩

/-! ## Writing -/

/-- An event written to a lot. -/
def write (id : String) (row : HistoryRow) : LotBooks where
  __ := b
  lots := b.lots.map fun l =>
    if l.1 = id then
      (l.1, { l.2 with
        state := (applyItemEvent roundBasis l.2.state row.event).getD l.2.state
        history := l.2.history ++ [row] })
    else l
  nodup := by
    have hid : (Prod.fst ∘ fun l : String × CostedLot => if l.1 = id then
        (l.1, { l.2 with
          state := (applyItemEvent roundBasis l.2.state row.event).getD l.2.state
          history := l.2.history ++ [row] }) else l) = Prod.fst := by
      funext l
      simp only [Function.comp_apply]
      split_ifs <;> rfl
    rw [List.map_map, hid]
    exact b.nodup

/-- The event that carries a correction of a lot into a merge result. -/
def Carried.row (c : Carried) (id : String) : HistoryRow where
  event := .costAdjusted c.costTotal c.unknown
  restatedFrom := some id

/-- The writes of `restate_item_cost`: the change, then what it carries. -/
def restateItemCost (id : String) (event : ItemEvent) : Except RestateRefusal (Restatement × LotBooks) := do
  let plan ← b.restatement id event
  pure (plan, plan.carried.foldl (fun b c => b.write c.lotId (c.row id)) (b.write id { event := event }))

end LotBooks

end Celerp
