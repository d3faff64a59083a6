/-
  An item as it is stored (`celerp_inventory/projections.py`): a dictionary of JSON values,
  and what each event does to it.

  The names of keys and the values of any type are as the source has them.  A category
  attribute belongs under `attributes`; what stays at the top is in `CORE_ITEM_KEYS` or a
  price of a price list.

  Numbers are rationals.
-/
import Celerp.Inventory.Item
import Celerp.Inventory.ItemFiles
import Celerp.Lib.Json

namespace Celerp

open Json

/-! ## Names -/

/-- `GOODS_COST_UNKNOWN` -/
def GOODS_COST_UNKNOWN : String := "goods_cost_unknown"

/-- `LOT_ACCOUNT_FIELD` -/
def LOT_ACCOUNT_FIELD : String := "inventory_account_code"

/-- `CONSIGNOR_PAYABLE_FIELD` -/
def CONSIGNOR_PAYABLE_FIELD : String := "consignor_payable_code"

/-- `CONSIGNOR_FIELD` -/
def CONSIGNOR_FIELD : String := "consignor_id"

/-- `ON_BOOKS_FIELD` -/
def ON_BOOKS_FIELD : String := "inventory_on_books"

/-- `CORE_ITEM_KEYS` -/
def CORE_ITEM_KEYS : List String :=
  ["attributes",
   "id", "entity_id", "company_id", "sku", "name", "barcode", "gtin", "rfid_epc", "category", "status",
   "created_at", "updated_at", "location_id", "location_name", "idempotency_key", "external_links",
   "quantity", "sell_by", "unit", "weight", "weight_unit", "gross_weight", "gross_weight_unit",
   "reserved_quantity", "quantity_fulfilled",
   "cost_total", "cost_price", "cost_base", "cost_landed", "landed_costs", GOODS_COST_UNKNOWN,
   "reorder_point", "reorder_qty",
   "allow_splitting", "default_sell_qty", "inventory_type", "pick_method", "consignment_flag", "item_type",
   "is_expired", "expires_at", "landed_cost_kind", "recoverable",
   LOT_ACCOUNT_FIELD, CONSIGNOR_PAYABLE_FIELD, CONSIGNOR_FIELD, ON_BOOKS_FIELD,
   "purchase_sku", "purchase_name", "purchase_unit", "purchase_conversion_factor",
   "short_description", "description", "notes", "hs_code", "batch_no",
   "parent_id", "parent_sku", "children", "child_skus", "merged_into", "split_from", "transformed_from",
   "returned_from", "transformed_into", "fulfilled_for_docs", "catalog_item_id", "_catalog_sku_aliases",
   "status_doc_id", "status_doc_number", "status_line_entity_id",
   "parent_item_id", "manufacturing_order_id", "lot",
   "files", "attachments", "preview_image_id", "thumbnail_file_id",
   "recipe", "workflow", "tax_codes"]

/-- `is_core_item_key` -/
def isCoreItemKey (key : String) : Bool :=
  CORE_ITEM_KEYS.contains key || "_price".toList.isSuffixOf key.toList || "_price_total".toList.isSuffixOf key.toList

namespace StoredItem

/-! ## Attributes -/

/-- `d.get(k, default)` -/
def getOr (d : Dict) (k : String) (default : Json) : Json := (Dicts.get? d k).getD default

section
variable (T : Texts)

/-- `dict(current.get("attributes") or {})` -/
def attributesOf (current : Dict) : Except Raised Dict := dictOf T ((get current "attributes").orElse (.obj []))

/-- `_normalize_attributes` -/
def normalizeAttributes (current : Dict) : Except Raised Dict :=
  let movable := current.filter fun f => f.1 ≠ "attributes" ∧ ¬isCoreItemKey f.1
  if movable.isEmpty then .ok current
  else do
    let attrs ← attributesOf T current
    let attrs := movable.foldl (fun attrs f => if f.2.isNull then Dicts.pop attrs f.1 else Dicts.set attrs f.1 f.2) attrs
    .ok (Dicts.set ((movable.map Prod.fst).foldl Dicts.pop current) "attributes" (.obj attrs))

/-- `_sync_expiry_from_attributes` -/
def syncExpiryFromAttributes (state : Dict) : Except Raised Dict := do
  let attrs ← fieldsOf ((get state "attributes").orElse (.obj []))
  match (get attrs "expiry_date").orElse (get attrs "warranty_exp") with
  | .str s => .ok (if s ≠ "" ∧ T.strip s ≠ "" then Dicts.set state "expires_at" (.str (T.strip s)) else state)
  | _ => .ok state

/-- `_WEIGHT_UNIT_MAP.get(unit, unit)` -/
def mappedUnit : Json → Except Raised Json
  | .str unit => .ok (.str (weightUnitName unit))
  | .arr _ => .error .typeError
  | .obj _ => .error .typeError
  | v => .ok v

/-- The quantity a weight becomes; more than one piece is kept as an attribute. -/
def weighed (state : Dict) (weight : Json) : Except Raised Dict := do
  let qty ← floatOrZero T (get state "quantity")
  let state ← (if 1 < qty then do
      let attrs ← attributesOf T state
      .ok (Dicts.set state "attributes" (.obj (Dicts.set attrs "pieces" (.num qty))))
    else .ok state)
  let weight ← float T weight
  .ok (Dicts.set state "quantity" (.num weight))

/-- `_migrate_sell_by` -/
def migrateSellBy (state : Dict) : Except Raised Dict :=
  if !same (get state "sell_by") (.str "weight") then .ok state
  else do
    let unit ← mappedUnit ((get state "weight_unit").orElse (.str "ct"))
    let state := Dicts.set state "sell_by" unit
    let weight := get state "weight"
    let state ← (if weight.isNull then .ok state else weighed T state weight)
    .ok (Dicts.pop (Dicts.pop state "weight") "weight_unit")

/-! ## Cost -/

/-- The landed pools, or none where there are none. -/
def putPools (current pools : Dict) : Dict :=
  if pools.isEmpty then Dicts.pop current "landed_costs" else Dicts.set current "landed_costs" (.obj pools)

/-- `_landed_pools_from_units` -/
def landedPoolsFromUnits (current : Dict) : Except Raised Dict :=
  let units := get current "landed_contributions"
  let current := Dicts.pop current "landed_contributions"
  if !units.truthy then .ok current
  else do
    let qty ← floatOrZero T (get current "quantity")
    let pools ← dictOf T ((get current "landed_costs").orElse (.obj []))
    let units ← fieldsOf units
    let pools ← units.foldlM (fun pools f => do
      let unit ← floatOrZero T f.2
      .ok (if unit ≠ 0 ∧ 0 < qty then Dicts.set pools f.1 (.num (unit * qty)) else pools)) pools
    .ok (putPools current pools)

/-- The amounts of pools (`float(v or 0)` of each). -/
def poolAmounts (pools : Dict) : Except Raised (List (String × ℚ)) :=
  pools.mapM fun f => do
    let amount ← floatOrZero T f.2
    .ok (f.1, amount)

/-- `_set_landed_pools` -/
def setLandedPools (current pools : Dict) : Except Raised Dict := do
  let amounts ← poolAmounts T pools
  .ok (putPools current ((amounts.filter (·.2 ≠ 0)).map fun p => (p.1, .num p.2)))

/-- The goods cost a lot without a recorded one starts from: its total, its unit cost on the
    stock it has, or nothing but landed cost.  None where it has no cost, or its unit cost
    waits for stock. -/
def withCostBase (current : Dict) (pools : Json) (qty : ℚ) : Except Raised (Option Dict) :=
  if !(get current "cost_base").isNull then .ok (some current)
  else if !(get current "cost_total").isNull then do
    let total ← float T (get current "cost_total")
    .ok (some (Dicts.set current "cost_base" (.num total)))
  else if !(get current "cost_price").isNull then
    if qty ≤ 0 then .ok none
    else do
      let unit ← float T (get current "cost_price")
      .ok (some (Dicts.set current "cost_base" (.num (roundBasis (unit * qty)))))
  else if !pools.truthy then .ok none
  else .ok (some (Dicts.set current "cost_base" (.num 0)))

/-- `_recompute_cost` -/
def recomputeCost (current : Dict) : Except Raised Dict := do
  let pools := (get current "landed_costs").orElse (.obj [])
  let qty ← floatOrZero T (get current "quantity")
  let based ← withCostBase T current pools qty
  match based with
  | none => .ok current
  | some current => do
    let base ← floatOrZero T (get current "cost_base")
    let fields ← fieldsOf pools
    let amounts ← poolAmounts T fields
    let landed := roundBasis (amounts.map Prod.snd).sum
    .ok (Dicts.pop (Dicts.set (Dicts.set current "cost_landed" (.num landed))
      "cost_total" (.num (roundBasis (base + landed)))) "cost_price")

/-- The goods cost a manual change sets: the basis itself, or a unit cost. -/
def withGoodsCost (current : Dict) (field : String) (value : Json) : Except Raised Dict :=
  if value.isBlank then .ok current
  else if field = "cost_total" then do
    let total ← floatOrZero T value
    .ok (Dicts.set current "cost_base" (.num (roundBasis total)))
  else do
    let unit ← float T value
    .ok (Dicts.set current "cost_price" (.num unit))

/-- `_apply_goods_cost` -/
def applyGoodsCost (current : Dict) (field : String) (value unknown : Json) : Except Raised Dict := do
  let cleared := ["cost_base", "cost_price", "cost_total", "cost_landed", GOODS_COST_UNKNOWN].foldl Dicts.pop current
  let current ← withGoodsCost T cleared field value
  let current ← recomputeCost T current
  .ok (if unknown.truthy then Dicts.set current GOODS_COST_UNKNOWN (.bool true) else current)

/-- `_set_unknown` -/
def setUnknown (current data : Dict) : Dict :=
  match Dicts.get? data GOODS_COST_UNKNOWN with
  | some v =>
    if v.truthy then Dicts.set current GOODS_COST_UNKNOWN (.bool true) else Dicts.pop current GOODS_COST_UNKNOWN
  | none => current

/-- The goods cost and the pools of a lot whose units come or leave without a cost of their
    own. -/
def scaleCost (current : Dict) (oldQty qty : ℚ) (named : Bool) (pools : List (String × ℚ)) :
    Except Raised (Dict × List (String × ℚ)) :=
  let basis := if (get current "cost_base").isNull then get current "cost_total" else get current "cost_base"
  if 0 < oldQty ∧ (!basis.isNull ∨ !pools.isEmpty) then
    if 0 < qty then do
      let current ← (if basis.isNull then .ok current else do
        let basis ← float T basis
        .ok (Dicts.set current "cost_base" (.num (basis * qty / oldQty))))
      .ok (current, if !named ∧ qty < oldQty then pools.map fun p => (p.1, p.2 * qty / oldQty) else pools)
    else do
      let basis ← floatOrZero T basis
      let current := ["cost_base", "cost_total", "cost_landed"].foldl Dicts.pop current
      .ok (Dicts.set current "cost_price" (.num ((basis + (pools.map Prod.snd).sum) / oldQty)), [])
  else .ok (current, pools)

/-- `_set_quantity` -/
def setQuantity (current : Dict) (newQty costBase landedCosts : Json) : Except Raised Dict := do
  let oldQty ← floatOrZero T (get current "quantity")
  let qty ← floatOrZero T newQty
  let held ← fieldsOf ((get current "landed_costs").orElse (.obj []))
  let held ← poolAmounts T held
  let pools ← (if landedCosts.isNull then .ok held else do
    let named ← fieldsOf landedCosts
    poolAmounts T named)
  let scaled ← (if costBase.isNull then scaleCost T current oldQty qty (!landedCosts.isNull) pools else do
    let base ← float T costBase
    .ok (Dicts.pop (Dicts.set current "cost_base" (.num base)) "cost_price", pools))
  let current ← setLandedPools T scaled.1 (scaled.2.map fun p => (p.1, .num p.2))
  recomputeCost T (Dicts.set current "quantity" newQty)

end

/-! ## The document behind a status -/

/-- `_stamp_status_doc` -/
def stampStatusDoc (current data : Dict) : Dict :=
  let docId := get data "source_doc_id"
  let current :=
    if docId.truthy then
      Dicts.set (Dicts.set current "status_doc_id" docId) "status_doc_number" ((get data "doc_number").orElse (.str ""))
    else Dicts.pop (Dicts.pop current "status_doc_id") "status_doc_number"
  if docId.truthy && same (get current "status") (.str "reserved") && (get data "source_line_entity_id").truthy then
    Dicts.set current "status_line_entity_id" (get data "source_line_entity_id")
  else Dicts.pop current "status_line_entity_id"

/-- A status, with the document the data names behind it. -/
def setStatus (current : Dict) (status : Json) (data : Dict) : Dict :=
  stampStatusDoc (Dicts.set current "status" status) data

end StoredItem

end Celerp
