/-
  Lots (`celerp_inventory/projections.py`, `celerp/services/lot_origin.py`,
  `celerp/services/account_roles.py`): the state of an item, the rules on what may
  be drawn from it, and the accounts its cost leaves when it is sold.

  An empty string or an absent key reads as the default of its field.
-/
import Celerp.Inventory.LotCost

namespace Celerp

/-- The tolerance of quantities: what is no more counts as nothing. -/
def EPS : ℚ := 1 / 10 ^ 9

theorem EPS_pos : 0 < EPS := by norm_num [EPS]

/-- An item's state. -/
structure LotState extends LotCost where
  /-- without the blanks around it -/
  sku : String
  status : String := ""
  statusDocId : Option String := none
  /-- `status_line_entity_id`, the line a reservation belongs to -/
  statusLineId : Option String := none
  allowSplitting : Option Bool := none
  inventoryType : Option String := none
  sellBy : Option String := none
  pickMethod : Option String := none
  expiresAt : Option String := none
  /-- `consignment_flag`, whether it is `in` -/
  consignedIn : Bool := false
  inventoryAccount : Option String := none
  consignorPayable : Option String := none
  onBooks : Bool := false
  splitFrom : Option String := none
  mergedInto : Option String := none
  transformedFrom : Option String := none
  returnedFrom : Option String := none
  deriving DecidableEq, Repr

/-- A row of the items projection. -/
structure ItemRow where
  entityId : String
  createdAt : String
  /-- the row's own `consignment_flag`, whether it is `in` -/
  consignedIn : Bool
  state : LotState
  deriving DecidableEq, Repr

/-- The items of a company, one row for each entity. -/
structure Items where
  rows : List ItemRow
  nodup : (rows.map (·.entityId)).Nodup

/-- The row of an entity. -/
def Items.get? (items : Items) (entityId : String) : Option ItemRow :=
  items.rows.find? (·.entityId = entityId)

section
variable {items : Items} {row : ItemRow} {id : String}

theorem Items.mem_of_get? (h : items.get? id = some row) : row ∈ items.rows ∧ row.entityId = id :=
  ⟨List.mem_of_find?_eq_some h, by simpa using List.find?_some h⟩

theorem Items.get?_of_mem (h : row ∈ items.rows) : items.get? row.entityId = some row := by
  have hinj := List.inj_on_of_nodup_map items.nodup
  cases hget : items.get? row.entityId with
  | none =>
    have := List.find?_eq_none.1 hget row h
    simp at this
  | some row' =>
    obtain ⟨hmem, hid⟩ := Items.mem_of_get? hget
    rw [hinj hmem h hid]

end

/-! ## What may be drawn -/

/-- `_ACTIVE_STATUSES` -/
def ACTIVE_STATUSES : List String := ["available", "active"]

/-- `OFF_BOOKS`: statuses of lots whose stock is not on the books. -/
def OFF_BOOKS : List String := ["deleted", "void", "sold", "fulfilled", "merged", "draft", "disposed"]

/-- `RETIRED`: statuses that retire a lot from the catalog. -/
def RETIRED : List String := ["archived", "expired"]

/-- `STOCK_TYPES`: inventory types that are goods the company holds. -/
def STOCK_TYPES : List String := ["stocked", "component"]

/-- `NON_STOCK_INVENTORY_TYPES` -/
def NON_STOCK_INVENTORY_TYPES : List String := ["service", "freight"]

/-- `SERVICE_SELL_BY` -/
def SERVICE_SELL_BY : List String := ["service", "hour"]

/-- `is_non_stock_line`: a charge or service, with no stock to pick. -/
def isNonStockLine (inventoryType sellBy : Option String) : Bool :=
  inventoryType.getD "stocked" ∈ NON_STOCK_INVENTORY_TYPES ∨ sellBy.getD "" ∈ SERVICE_SELL_BY

/-- What `demand_claim` says a document may do with an item. -/
inductive DemandClaim where
  /-- `FREE_STOCK`: any document may draw it -/
  | free
  /-- `OWN_RESERVED`: only the document it is reserved to may draw it -/
  | reserved
  deriving DecidableEq, Repr

namespace LotState
variable (s : LotState)

/-- `splitting_allowed`: only an explicit no blocks. -/
def splittingAllowed : Bool := s.allowSplitting ≠ some false

/-- `is_item_available` -/
def isItemAvailable : Bool :=
  (if s.status = "" then "available" else s.status.toLower) ∈ ACTIVE_STATUSES

/-- `demand_claim` -/
def demandClaim (docId : Option String) : Option DemandClaim :=
  if s.isItemAvailable then some .free
  else if s.status.toLower = "reserved" ∧ docId.isSome ∧ s.statusDocId = docId then some .reserved
  else none

/-- `is_stock_type` -/
def isStockType : Bool := s.inventoryType.getD "stocked" ∈ STOCK_TYPES

/-- `in_stock`: the lot's status keeps its stock on the books. -/
def inStock : Bool :=
  s.status.toLower ∉ OFF_BOOKS ∧ (s.status.toLower ∉ RETIRED ∨ s.onBooks)

/-- `lot_unit_cost`: a lot's cost spread over its own quantity, or the unit cost a lot
    without quantity keeps. -/
def lotUnitCost : ℚ :=
  match s.costTotal with
  | some total => if 0 < s.quantity then total / s.quantity else s.costPrice.getD 0
  | none => s.costPrice.getD 0

end LotState

/-- `held_value`: the value of the goods a lot holds on the books, if it holds any. -/
def heldValue (row : ItemRow) : Option ℚ :=
  if row.state.inStock ∧ ¬row.state.consignedIn ∧ ¬row.consignedIn ∧ row.state.isStockType then
    some row.state.recordedValue
  else none

/-! ## The account a lot's cost leaves -/

/-- What reading or posting a cost raises, with the SKU it names. -/
inductive CogsError where
  /-- `NotOwnedError` -/
  | notOwned (sku : String)
  /-- `LotOriginError` -/
  | lotOrigin (sku : String)
  /-- `ConsignorUnknownError` -/
  | consignorUnknown (sku : String)
  /-- `ConsignmentNoCostError` -/
  | consignmentNoCost (sku : String)
  /-- the account of the consignor payable role cannot be told -/
  | role
  /-- a cost with no lot to fall on -/
  | noPart
  /-- a lot shipped or returned on no line of its invoice (`error.cogs_line_unknown`) -/
  | lineUnknown
  deriving DecidableEq, Repr

/-- `lot_account`: the inventory account a lot's value sits in. -/
def lotAccount (s : LotState) : Except CogsError String :=
  if s.consignedIn then .error (.notOwned s.sku)
  else match s.inventoryAccount with
    | some code => .ok code
    | none => .error (.lotOrigin s.sku)

/-- `sold_lot_account`: the account a lot's cost leaves when it is sold. -/
def soldLotAccount (s : LotState) : Except CogsError String :=
  if s.consignedIn then match s.consignorPayable with
    | some code => .ok code
    | none => .error (.notOwned s.sku)
  else lotAccount s

/-- `party_key`: the posting key of an account, owed to a contact. -/
def partyKey (code : String) : Option String → String
  | some contact => code ++ "|" ++ contact
  | none => code

end Celerp
