/-
  The state of an item under its events (`celerp_inventory/projections.py`).

  `applyItemEvent` is `_apply_item_event`: what each event does to the item's stock
  and its cost.  The goods cost, the landed pools and the quantity are written by a
  few operations:

  * `recomputeCost` is `_recompute_cost`, which derives the total from the goods cost
    and the pools;
  * `applyGoodsCost` is `_apply_goods_cost`, a goods cost set by hand;
  * `setQuantity` is `_set_quantity`, a move to a new quantity.

  An unset number reads as 0.  The rounding of a cost basis is a parameter, the code's
  being `roundBasis`.  The fields no stock and no cost is read from (attributes, files,
  aliases, recipe, location) are left out, and so is what an event writes to them.
-/
import Celerp.Inventory.Lot

namespace Celerp

/-! ## The state -/

/-- `DEFAULT_ITEM_STATUS` -/
def DEFAULT_ITEM_STATUS : String := "available"

/-- `_WEIGHT_UNIT_MAP`: a unit earlier releases abbreviated. -/
def weightUnitName (unit : String) : String :=
  match unit with
  | "ct" => "carat"
  | "g" => "gram"
  | unit => unit

/-- Amounts by source bill and kind. -/
abbrev Pools := List (String × ℚ)

/-- An item's state, with what its events read and write beside the lot's own. -/
structure ItemState extends LotState where
  costLanded : Option ℚ := none
  /-- landed cost per unit, as earlier releases recorded it -/
  landedContributions : Pools := []
  weight : Option ℚ := none
  weightUnit : Option String := none
  statusDocNumber : Option String := none
  reservedQuantity : ℚ := 0
  quantityFulfilled : ℚ := 0
  fulfilledForDocs : List String := []
  isExpired : Bool := false
  deriving DecidableEq

/-- The state before the first event. -/
def ItemState.empty : ItemState where
  quantity := 0
  costBase := none
  costTotal := none
  costPrice := none
  landedCosts := []
  goodsCostUnknown := false
  sku := ""

/-- `pools[key] = amount` -/
def setPool (key : String) (amount : ℚ) : Pools → Pools
  | [] => [(key, amount)]
  | (k, v) :: rest => if k = key then (k, amount) :: rest else (k, v) :: setPool key amount rest

/-- A field of the state with a value. -/
inductive ItemField where
  | quantity (v : ℚ)
  | costBase (v : Option ℚ)
  | costTotal (v : Option ℚ)
  | costPrice (v : Option ℚ)
  | costLanded (v : Option ℚ)
  | landedCosts (v : Pools)
  | landedContributions (v : Pools)
  | goodsCostUnknown (v : Bool)
  | status (v : String)
  | statusDocId (v : Option String)
  | statusDocNumber (v : Option String)
  | statusLineId (v : Option String)
  | sellBy (v : Option String)
  | weight (v : Option ℚ)
  | weightUnit (v : Option String)
  | inventoryType (v : Option String)
  | inventoryAccount (v : Option String)
  | mergedInto (v : Option String)
  | reservedQuantity (v : ℚ)
  | quantityFulfilled (v : ℚ)
  /-- a field no stock and no cost is read from -/
  | other (name : String)

namespace ItemState
variable (round : ℚ → ℚ) (s : ItemState)

/-- `current[key] = value` -/
def put : ItemField → ItemState
  | .quantity v => { s with quantity := v }
  | .costBase v => { s with costBase := v }
  | .costTotal v => { s with costTotal := v }
  | .costPrice v => { s with costPrice := v }
  | .costLanded v => { s with costLanded := v }
  | .landedCosts v => { s with landedCosts := v }
  | .landedContributions v => { s with landedContributions := v }
  | .goodsCostUnknown v => { s with goodsCostUnknown := v }
  | .status v => { s with status := v }
  | .statusDocId v => { s with statusDocId := v }
  | .statusDocNumber v => { s with statusDocNumber := v }
  | .statusLineId v => { s with statusLineId := v }
  | .sellBy v => { s with sellBy := v }
  | .weight v => { s with weight := v }
  | .weightUnit v => { s with weightUnit := v }
  | .inventoryType v => { s with inventoryType := v }
  | .inventoryAccount v => { s with inventoryAccount := v }
  | .mergedInto v => { s with mergedInto := v }
  | .reservedQuantity v => { s with reservedQuantity := v }
  | .quantityFulfilled v => { s with quantityFulfilled := v }
  | .other _ => s

/-- `current.update(data)` -/
def update (data : List ItemField) : ItemState := data.foldl put s

/-! ## Cost -/

/-- `_set_landed_pools` -/
def setLandedPools (pools : Pools) : ItemState :=
  { s with landedCosts := pools.filter (·.2 ≠ 0) }

/-- `_landed_pools_from_units`: amounts per unit become the amounts they are worth now. -/
def landedPoolsFromUnits : ItemState :=
  { s with
    landedContributions := []
    landedCosts := s.landedContributions.foldl (fun pools unit =>
      if unit.2 ≠ 0 ∧ 0 < s.quantity then setPool unit.1 (unit.2 * s.quantity) pools else pools)
      s.landedCosts }

/-- The goods cost `_recompute_cost` derives the rest from: none where the item has no
    cost, or where its unit cost waits for stock. -/
def recomputedBase : Option ℚ :=
  match s.costBase, s.costTotal, s.costPrice with
  | some base, _, _ => some base
  | none, some total, _ => some total
  | none, none, some price => if s.quantity ≤ 0 then none else some (round (price * s.quantity))
  | none, none, none => if s.landedCosts = [] then none else some 0

/-- `_recompute_cost`: the total cost, the goods cost with the landed pools on top. -/
def recomputeCost : ItemState :=
  match s.recomputedBase round with
  | none => s
  | some base =>
    let costLanded := round (landed s.landedCosts)
    { s with
      costBase := some base
      costLanded := some costLanded
      costTotal := some (round (base + costLanded))
      costPrice := none }

end ItemState

/-- A goods cost set by hand: the unit cost, or the whole. -/
inductive GoodsField where
  | costPrice | costTotal
  deriving DecidableEq, Repr

namespace ItemState
variable (round : ℚ → ℚ) (s : ItemState)

/-- The state with a goods cost set by hand, in place of what it had. -/
def stateGoodsCost (field : GoodsField) (value : Option ℚ) : ItemState :=
  { s with
    costBase := if field = .costTotal then value.map round else none
    costPrice := if field = .costPrice then value else none
    costTotal := none
    costLanded := none
    goodsCostUnknown := false }

/-- `_apply_goods_cost` -/
def applyGoodsCost (field : GoodsField) (value : Option ℚ) (unknown : Bool) : ItemState :=
  let costed := (s.stateGoodsCost round field value).recomputeCost round
  { costed with goodsCostUnknown := unknown || costed.goodsCostUnknown }

/-- `_set_unknown`: an event naming the flag sets or clears it. -/
def setUnknown (unknown : Option Bool) : ItemState :=
  { s with goodsCostUnknown := unknown.getD s.goodsCostUnknown }

/-- The goods basis units leave with: the goods cost, else the total. -/
def basis : Option ℚ := s.costBase.or s.costTotal

/-- `_set_quantity`: a move to a new quantity with the cost following the units, where
    the event states neither a goods cost nor pools. -/
def setQuantity (newQty : ℚ) (costBase : Option ℚ) (landedCosts : Option Pools) : ItemState :=
  let pools := landedCosts.getD s.landedCosts
  let settled (s : ItemState) (pools : Pools) : ItemState :=
    ({ s.setLandedPools pools with quantity := newQty }).recomputeCost round
  match costBase with
  | some base => settled { s with costBase := some base, costPrice := none } pools
  | none =>
    if 0 < s.quantity ∧ (s.basis ≠ none ∨ pools ≠ []) then
      if 0 < newQty then
        -- unrounded, so that it scales back exactly when the units return
        settled { s with costBase := s.basis.map (· * newQty / s.quantity) }
          (if landedCosts = none ∧ newQty < s.quantity then
            pools.map fun p => (p.1, p.2 * newQty / s.quantity)
          else pools)
      else
        -- the whole unit cost is kept for stock that returns later
        settled { s with
          costBase := none
          costTotal := none
          costLanded := none
          costPrice := some ((s.basis.getD 0 + landed pools) / s.quantity) } []
    else settled s pools

end ItemState

/-! ## Status -/

/-- The document behind a change of status, and its line that holds the lot. -/
structure StatusDoc where
  sourceDocId : Option String := none
  docNumber : Option String := none
  sourceLineId : Option String := none
  deriving DecidableEq, Repr

namespace ItemState
variable (s : ItemState)

/-- `_stamp_status_doc`: a status is paired with the document that gave it, and a
    reservation with the line of it. -/
def stampStatusDoc (doc : StatusDoc) : ItemState :=
  match doc.sourceDocId.filter (· ≠ "") with
  | some docId =>
    { s with
      statusDocId := some docId
      statusDocNumber := some (doc.docNumber.getD "")
      statusLineId := if s.status = "reserved" then doc.sourceLineId.filter (· ≠ "") else none }
  | none => { s with statusDocId := none, statusDocNumber := none, statusLineId := none }

/-- A status, with the document behind it. -/
def setStatus (status : String) (doc : StatusDoc) : ItemState :=
  { s with status := status }.stampStatusDoc doc

/-- `_migrate_sell_by`: an item sold by weight takes its weight as quantity. -/
def migrateSellBy : ItemState :=
  if s.sellBy = some "weight" then
    { s with
      sellBy := some (weightUnitName ((s.weightUnit.filter (· ≠ "")).getD "ct"))
      quantity := s.weight.getD s.quantity
      weight := none
      weightUnit := none }
  else s

end ItemState

/-! ## Events -/

/-- The fields of a lot's status and the document behind it. -/
inductive StatusField where
  | status | docId | docNumber | lineId
  deriving DecidableEq, Repr

/-- A status field with a text. -/
def StatusField.named (v : String) : StatusField → ItemField
  | .status => .status v
  | .docId => .statusDocId (some v)
  | .docNumber => .statusDocNumber (some v)
  | .lineId => .statusLineId (some v)

/-- The key a price is set under. -/
inductive PriceType where
  | goods (field : GoodsField)
  | costBase
  | costLanded
  | landedCosts
  | landedContributions
  | quantity
  | weight
  | reservedQuantity
  | quantityFulfilled
  | statusField (field : StatusField)
  /-- a price list, or another field no stock and no cost is read from -/
  | priceList (name : String)
  deriving DecidableEq, Repr

/-- Events that record what no stock and no cost is read from. -/
inductive NotedEvent where
  | transferred
  | inventoryOnBooksRecorded
  | split | transform | merged
  | recipeSet | workflowSet
  | fileAttached | fileTagged | fileDescriptionUpdated | fileDeleted | fileHeroSet
  deriving DecidableEq, Repr

/-- The events of an item, with what they carry of its stock and its cost. -/
inductive ItemEvent where
  /-- `item.created` and `item.snapshot` -/
  | created (data : List ItemField)
  | updated (fieldsChanged : List ItemField) (unknown : Bool)
  | pricingSet (priceType : PriceType) (newPrice : ℚ) (unknown : Bool)
  | statusSet (newStatus : String) (doc : StatusDoc)
  | quantityAdjusted (newQty : ℚ) (costBase : Option ℚ) (landedCosts : Option Pools)
      (unknown : Option Bool) (consignedIn : Option Bool)
  | costAdjusted (costTotal : ℚ) (unknown : Option Bool)
  /-- `item.inventory_account.recorded` and `item.inventory_account.moved` -/
  | inventoryAccountRecorded (account : String)
  | consignorPayableRecorded (payable : String)
  | consignmentBought (costTotal : ℚ) (consignmentDocId account : String)
  | landedCostAllocated (sourceBillId kind : String) (amount : ℚ)
  | landedCostApplied (sourceBillId kind : String) (unitAmount : ℚ)
  | expired
  | disposed
  | writtenOff (sourceListId docNumber : Option String)
  | returnedToSupplier (sourceDocId : Option String) (consignedIn : Option Bool)
  | supplierReturnUndone (restoredStatus : String)
  | splitFrom (parentId : Option String)
  | transformedFrom (parentId : Option String)
  | sourceDeactivated (originalQty : Option ℚ) (mergedInto : Option String)
  | unmerged (restoredStatus : String) (doc : StatusDoc)
  | mergeUndone
  | consumed (quantityConsumed : ℚ) (costBase : Option ℚ) (landedCosts : Option Pools)
  | produced (quantityProduced : ℚ)
  | reserved (quantity : ℚ)
  | unreserved (quantity : ℚ)
  | fulfilled (quantityFulfilled : ℚ) (memo : Bool) (sourceDocId : String) (docNumber : Option String)
  | fulfillmentReversed (quantityRestored : ℚ) (sourceDocId : Option String)
  /-- a CSV upsert -/
  | patched (data : List ItemField)
  | noted (event : NotedEvent)

/-- The key of the pool one source bill and kind put on a lot. -/
def poolKey (sourceBillId kind : String) : String := sourceBillId ++ "::" ++ kind

/-- A field of an `item.updated` other than the goods costs, which follow the others:
    `landed_contributions` is none of the item's own fields, and a status set by hand
    has no document behind it. -/
def ItemState.edit (s : ItemState) : ItemField → ItemState
  | .costPrice _ => s
  | .costTotal _ => s
  | .landedContributions _ => s
  | .status v => s.setStatus v {}
  | field => s.put field

/-- The goods costs among the fields of an `item.updated`, in their order. -/
def costChanges : List ItemField → List (GoodsField × Option ℚ)
  | [] => []
  | .costPrice v :: rest => (.costPrice, v) :: costChanges rest
  | .costTotal v :: rest => (.costTotal, v) :: costChanges rest
  | _ :: rest => costChanges rest

/-- A non-blank value of a field in a patch (`bool(data.get(key))`). -/
def ItemField.states (field : ItemField) (value : ItemField → Option String) : Bool :=
  ((value field).filter (· ≠ "")).isSome

def ItemField.docNumber? : ItemField → Option String
  | .statusDocNumber v => v
  | _ => none

def ItemField.docId? : ItemField → Option String
  | .statusDocId v => v
  | _ => none

def ItemField.isStatus : ItemField → Bool
  | .status _ => true
  | _ => false

/-- The pairing of a patched status: one that states a document's id or number without
    the other, or a status without a document, drops it. -/
def ItemState.pairPatched (s : ItemState) (data : List ItemField) : ItemState :=
  let hasNumber := data.any (·.states ItemField.docNumber?)
  let hasId := data.any (·.states ItemField.docId?)
  if hasNumber ≠ hasId ∨ (data.any ItemField.isStatus ∧ !hasId) then s.stampStatusDoc {} else s

/-- A price under a key of the state.  One under the landed pools leaves a number where
    the next event reads amounts by bill: unless it is 0, that event fails.  One under a
    status field is read as its text. -/
def ItemState.setPrice (s : ItemState) (round : ℚ → ℚ) (price : ℚ) (unknown : Bool) :
    PriceType → Option ItemState
  | .goods field => some (s.applyGoodsCost round field (some price) unknown)
  | .costBase => some { s with costBase := some price }
  | .costLanded => some { s with costLanded := some price }
  | .landedCosts => if price = 0 then some { s with landedCosts := [] } else none
  | .landedContributions => if price = 0 then some s else none
  | .quantity => some { s with quantity := price }
  | .weight => some { s with weight := some price }
  | .reservedQuantity => some { s with reservedQuantity := price }
  | .quantityFulfilled => some { s with quantityFulfilled := price }
  | .statusField field => some (s.put (field.named (toString price)))
  | .priceList _ => some s

/-- What an event does to a state whose amounts per unit are read. -/
def ItemState.applyEvent (round : ℚ → ℚ) (s : ItemState) : ItemEvent → Option ItemState
  | .created data =>
    let s := (s.update data).landedPoolsFromUnits
    let s := { s with
      -- a status the data gives is kept, also a blank one
      status := if s.status = "" ∧ ¬data.any ItemField.isStatus then DEFAULT_ITEM_STATUS else s.status
      inventoryType := s.inventoryType.or (some "stocked") }
    some (s.migrateSellBy.recomputeCost round)
  | .updated fieldsChanged unknown =>
    let s := fieldsChanged.foldl ItemState.edit s
    let s := (costChanges fieldsChanged).foldl
      (fun s change => s.applyGoodsCost round change.1 change.2 unknown) s
    some (s.recomputeCost round)
  | .pricingSet priceType newPrice unknown => s.setPrice round newPrice unknown priceType
  | .statusSet newStatus doc => some (s.setStatus newStatus doc)
  | .quantityAdjusted newQty costBase landedCosts unknown consignedIn =>
    let s := { s with consignedIn := consignedIn.getD s.consignedIn }
    some ((s.setQuantity round newQty costBase landedCosts).setUnknown unknown)
  | .costAdjusted costTotal unknown =>
    some (({ s with costBase := some costTotal }.recomputeCost round).setUnknown unknown)
  | .inventoryAccountRecorded account => some { s with inventoryAccount := some account }
  | .consignorPayableRecorded payable => some { s with consignorPayable := some payable }
  | .consignmentBought costTotal consignmentDocId account =>
    let s := { s with consignedIn := false, inventoryAccount := some account }
    let s := if s.statusDocId = some consignmentDocId then
      { s with statusDocId := none, statusDocNumber := none } else s
    some ({ s with costBase := some costTotal, goodsCostUnknown := false }.recomputeCost round)
  | .landedCostAllocated sourceBillId kind amount =>
    some ((s.setLandedPools (setPool (poolKey sourceBillId kind) amount s.landedCosts)).recomputeCost
      round)
  | .landedCostApplied sourceBillId kind unitAmount =>
    some ((s.setLandedPools (setPool (poolKey sourceBillId kind) (unitAmount * s.quantity)
      s.landedCosts)).recomputeCost round)
  | .expired => some ({ s with isExpired := true }.setStatus "expired" {})
  | .disposed => some ({ s with isExpired := false }.setStatus "archived" {})
  | .writtenOff sourceListId docNumber =>
    some (s.setStatus "disposed" ⟨sourceListId, docNumber, none⟩)
  | .returnedToSupplier sourceDocId consignedIn =>
    some ({ s with consignedIn := consignedIn.getD s.consignedIn }.setStatus "disposed"
      ⟨sourceDocId, none, none⟩)
  | .supplierReturnUndone restoredStatus => some (s.setStatus restoredStatus {})
  | .splitFrom parentId => some { s with splitFrom := parentId }
  | .transformedFrom parentId => some { s with transformedFrom := parentId }
  | .sourceDeactivated originalQty mergedInto =>
    let quantity := (originalQty.filter (· ≠ 0)).getD s.quantity
    let s := { s with quantity := quantity, mergedInto := mergedInto }
    some (s.setStatus "merged" {})
  | .unmerged restoredStatus doc => some ({ s with mergedInto := none }.setStatus restoredStatus doc)
  | .mergeUndone => some ((s.setQuantity round 0 none none).setStatus "archived" {})
  | .consumed quantityConsumed costBase landedCosts =>
    some (s.setQuantity round (max 0 (s.quantity - quantityConsumed)) costBase landedCosts)
  | .produced quantityProduced => some { s with quantity := s.quantity + quantityProduced }
  | .reserved quantity => some { s with reservedQuantity := s.reservedQuantity + quantity }
  | .unreserved quantity =>
    some { s with reservedQuantity := max 0 (s.reservedQuantity - quantity) }
  | .fulfilled quantityFulfilled memo sourceDocId docNumber =>
    let s := { s with quantity := quantityFulfilled, quantityFulfilled := quantityFulfilled }
    let s := s.setStatus (if memo then "memo_out" else "sold") ⟨some sourceDocId, docNumber, none⟩
    some { s with fulfilledForDocs := s.fulfilledForDocs ++ [sourceDocId] }
  | .fulfillmentReversed quantityRestored sourceDocId =>
    let s := { s with quantity := quantityRestored }.setStatus "available" {}
    match sourceDocId.filter (· ≠ "") with
    | some docId => some { s with fulfilledForDocs := s.fulfilledForDocs.erase docId }
    | none => some s
  | .patched data =>
    let s := (s.update data).pairPatched data
    -- `_normalize_attributes` takes what is none of the item's own fields
    let s := { s with landedContributions := [] }
    some (s.migrateSellBy.recomputeCost round)
  | .noted _ => some s

/-- `_apply_item_event` -/
def applyItemEvent (round : ℚ → ℚ) (s : ItemState) (e : ItemEvent) : Option ItemState :=
  s.landedPoolsFromUnits.applyEvent round e

/-- The state a run of events leaves, if each of them applies. -/
def runItemEvents (round : ℚ → ℚ) (s : ItemState) (events : List ItemEvent) : Option ItemState :=
  events.foldlM (applyItemEvent round) s

end Celerp
