/-
  The events of an item as it is stored (`_apply_item_event` and `apply_item_event` in
  `celerp_inventory/projections.py`), one definition a kind of event.

  What an event's data lacks or a value of the wrong kind raises; no state comes of it.
-/
import Celerp.Inventory.StoredItem

namespace Celerp

open Json

namespace StoredItem

/-- The types of events. -/
inductive EventType where
  | created
  | snapshot
  | updated
  | pricingSet
  | statusSet
  | transferred
  | quantityAdjusted
  | costAdjusted
  | inventoryAccountRecorded
  | inventoryAccountMoved
  | consignorPayableRecorded
  | consignmentBought
  | inventoryOnBooksRecorded
  | landedCostAllocated
  | landedCostApplied
  | expired
  | disposed
  | writtenOff
  | returnedToSupplier
  | supplierReturnUndone
  | split
  | splitFrom
  | transform
  | transformedFrom
  | merged
  | sourceDeactivated
  | unmerged
  | mergeUndone
  | consumed
  | produced
  | recipeSet
  | workflowSet
  | reserved
  | unreserved
  | fulfilled
  | fulfillmentReversed
  | patched
  | fileAttached
  | fileTagged
  | fileDescriptionUpdated
  | fileDeleted
  | fileHeroSet
  | unsupported (eventType : String)
  deriving DecidableEq, Repr

/-- An event of an item. -/
structure Event where
  type : EventType
  data : Dict

section
variable (T : Texts) (current data : Dict)

/-! ## Creating and editing -/

/-- `item.created`, `item.snapshot` -/
def applyCreated : Except Raised Dict := do
  let current ← landedPoolsFromUnits T (Dicts.update current data)
  let current ← normalizeAttributes T current
  let current := Dicts.setDefault current "status" (.str DEFAULT_ITEM_STATUS)
  let current := Dicts.setDefault current "inventory_type" (.str "stocked")
  let current :=
    if !(get current "purchase_unit").truthy && (get current "sell_by").truthy then
      Dicts.setDefault current "purchase_unit" (get current "sell_by")
    else current
  let current := Dicts.setDefault current "purchase_conversion_factor" (.num 1)
  let current ← migrateSellBy T current
  let current ← syncExpiryFromAttributes T current
  recomputeCost T current

/-- Whether a change of the SKU leaves the old one as an alias: not on a lot, nor on what was
    merged away. -/
def keepsAlias : Bool :=
  T.lower (text T ((get current "status").orElse (.str ""))) ≠ "merged" &&
    !(["catalog_item_id", "lot", "parent_item_id", "split_from", "transformed_from"].any fun k => (get current k).truthy)

/-- The old SKU kept as an alias where a new one replaces it. -/
def keepAlias (skuChange : Json) : Except Raised Dict :=
  if skuChange.truthy && keepsAlias T current then do
    let oldSku := T.strip (text T ((get current "sku").orElse (.str "")))
    let change ← fieldsOf skuChange
    let newSku := T.strip (text T ((get change "new").orElse (.str "")))
    if oldSku ≠ "" ∧ T.casefold oldSku ≠ T.casefold newSku then do
      let aliases ← iterate ((get current "_catalog_sku_aliases").orElse (.arr []))
      let seen := aliases.map fun v => T.casefold (T.strip (text T v))
      .ok (if T.casefold oldSku ∉ seen then
          Dicts.set current "_catalog_sku_aliases" (.arr (aliases ++ [.str oldSku]))
        else current)
    else .ok current
  else .ok current

/-- An attribute set, or taken out, and not left at the top. -/
def setAttribute (field : String) (value : Option Json) : Except Raised Dict := do
  let attrs ← attributesOf T current
  let attrs := match value with
    | some v => Dicts.set attrs field v
    | none => Dicts.pop attrs field
  .ok (Dicts.pop (Dicts.set current "attributes" (.obj attrs)) field)

/-- A core field set, or taken out; a status set by hand has no document behind it. -/
def setCore (field : String) (value : Json) : Dict :=
  let current := if value.isBlank then Dicts.pop current field else Dicts.set current field value
  if field = "status" then stampStatusDoc current [] else current

/-- One field's change, and the changes of the goods cost to make after the others. -/
def changeField (changing : Dict × List (String × Json)) (f : String × Json) :
    Except Raised (Dict × List (String × Json)) := do
  let change ← fieldsOf f.2
  let value := get change "new"
  if f.1 = "pieces" then do
    let current ← setAttribute T changing.1 "pieces" (if value.isNull then none else some value)
    .ok (current, changing.2)
  else if f.1 = "cost_price" ∨ f.1 = "cost_total" then .ok (changing.1, changing.2 ++ [(f.1, value)])
  else if isCoreItemKey f.1 then .ok (setCore changing.1 f.1 value, changing.2)
  else do
    let current ← setAttribute T changing.1 f.1 (if value.isBlank then none else some value)
    .ok (current, changing.2)

/-- `item.updated` -/
def applyUpdated : Except Raised Dict := do
  let changed ← item data "fields_changed"
  let fields ← fieldsOf changed
  let current ← keepAlias T current (get fields "sku")
  let changing ← fields.foldlM (changeField T) (current, [])
  let current ← changing.2.foldlM (fun current c =>
    applyGoodsCost T current c.1 c.2 (get data GOODS_COST_UNKNOWN)) changing.1
  let current ← syncExpiryFromAttributes T current
  recomputeCost T current

/-- Whether an upsert drops the document behind the status: it names the id or the number
    alone, or a status without a document. -/
def dropsPairing : Bool :=
  (get data "status_doc_number").truthy != (get data "status_doc_id").truthy ||
    (Dicts.get? data "status").isSome && !(get data "status_doc_id").truthy

/-- `item.patched` -/
def applyPatched : Except Raised Dict := do
  let current := Dicts.update current data
  let current := if dropsPairing data then stampStatusDoc current [] else current
  let current ← normalizeAttributes T current
  let current ← migrateSellBy T current
  let current ← syncExpiryFromAttributes T current
  recomputeCost T current

/-- `item.pricing.set` -/
def applyPricingSet : Except Raised Dict := do
  let priceType ← item data "price_type"
  let price ← item data "new_price"
  let field ← keyOf T priceType
  if same priceType (.str "cost_price") || same priceType (.str "cost_total") then
    applyGoodsCost T current field price (get data GOODS_COST_UNKNOWN)
  else .ok (Dicts.set current field price)

/-! ## Status, place and documents -/

/-- `item.status.set`, `item.supplier_return_undone`, `item.unmerged`: the status the data
    names under a key. -/
def applyStatus (key : String) (doc : Dict) : Except Raised Dict := do
  let status ← item data key
  .ok (setStatus current status doc)

/-- `item.transferred` -/
def applyTransferred : Except Raised Dict := do
  let location ← item data "to_location_id"
  let current := Dicts.set current "location_id" location
  .ok (match Dicts.get? data "updated_at" with
    | some v => Dicts.set current "updated_at" v
    | none => current)

/-- The consignment flag, where the data names it. -/
def setConsignment : Dict :=
  match Dicts.get? data "consignment_flag" with
  | some v => Dicts.set current "consignment_flag" v
  | none => current

/-- `item.expired`, `item.disposed` -/
def applyExpired (expired : Bool) : Dict :=
  setStatus (Dicts.set current "is_expired" (.bool expired)) (.str (if expired then "expired" else "archived")) []

/-- `item.written_off` -/
def applyWrittenOff : Dict :=
  setStatus current (.str "disposed")
    [("source_doc_id", get data "source_list_id"), ("doc_number", get data "doc_number")]

/-- `item.returned_to_supplier` -/
def applyReturnedToSupplier : Dict :=
  setConsignment (setStatus current (.str "disposed") [("source_doc_id", get data "source_doc_id")]) data

/-! ## Quantity and cost -/

/-- `item.quantity.adjusted` -/
def applyQuantityAdjusted : Except Raised Dict := do
  let newQty ← item data "new_qty"
  let current ← setQuantity T (setConsignment current data) newQty (get data "cost_base") (get data "landed_costs")
  .ok (setUnknown current data)

/-- `item.cost_adjusted` -/
def applyCostAdjusted : Except Raised Dict := do
  let total ← item data "cost_total"
  let base ← float T total
  let current ← recomputeCost T (Dicts.set current "cost_base" (.num base))
  .ok (setUnknown current data)

/-- `item.inventory_account.recorded`, `item.inventory_account.moved` -/
def applyInventoryAccount : Except Raised Dict := do
  let account ← item data LOT_ACCOUNT_FIELD
  .ok (Dicts.set current LOT_ACCOUNT_FIELD account)

/-- `item.consignor_payable.recorded` -/
def applyConsignorPayable : Except Raised Dict := do
  let payable ← item data CONSIGNOR_PAYABLE_FIELD
  let consignor ← item data CONSIGNOR_FIELD
  .ok (Dicts.set (Dicts.set current CONSIGNOR_PAYABLE_FIELD payable) CONSIGNOR_FIELD consignor)

/-- `item.consignment.bought` -/
def applyConsignmentBought : Except Raised Dict := do
  let current := Dicts.set current "consignment_flag" .null
  let docId ← item data "consignment_doc_id"
  let current :=
    if same (get current "status_doc_id") docId then Dicts.pop (Dicts.pop current "status_doc_id") "status_doc_number"
    else current
  let account ← item data LOT_ACCOUNT_FIELD
  let total ← item data "cost_total"
  let base ← float T total
  let current := Dicts.set (Dicts.set current LOT_ACCOUNT_FIELD account) "cost_base" (.num base)
  recomputeCost T (Dicts.pop current GOODS_COST_UNKNOWN)

/-- The landed amount one source bill puts on the lot for one kind of cost. -/
def applyLandedCost (amount : ℚ) : Except Raised Dict := do
  let pools ← dictOf T ((get current "landed_costs").orElse (.obj []))
  let bill ← item data "source_bill_id"
  let kind ← item data "kind"
  let current ← setLandedPools T current (Dicts.set pools (poolKey (text T bill) (text T kind)) (.num amount))
  recomputeCost T current

/-- `item.landed_cost.allocated` -/
def applyLandedCostAllocated : Except Raised Dict := do
  let amount ← floatOrZero T (get data "amount")
  applyLandedCost T current data amount

/-- `item.landed_cost.applied` -/
def applyLandedCostApplied : Except Raised Dict := do
  let unit ← floatOrZero T (get data "unit_amount")
  let qty ← floatOrZero T (get current "quantity")
  applyLandedCost T current data (unit * qty)

/-- `item.consumed` -/
def applyConsumed : Except Raised Dict := do
  let qty ← floatOrZero T (get current "quantity")
  let drawn ← item data "quantity_consumed"
  let drawn ← float T drawn
  setQuantity T current (.num (max 0 (qty - drawn))) (get data "cost_base") (get data "landed_costs")

/-- `item.produced`, `item.reserved`: a number of the item, nothing where it has none, and
    what the data adds to it. -/
def addTo (field key : String) : Except Raised Dict := do
  let held ← float T (getOr current field (.num 0))
  let added ← item data key
  let added ← float T added
  .ok (Dicts.set current field (.num (held + added)))

/-- `item.unreserved` -/
def applyUnreserved : Except Raised Dict := do
  let held ← float T (getOr current "reserved_quantity" (.num 0))
  let freed ← item data "quantity"
  let freed ← float T freed
  .ok (Dicts.set current "reserved_quantity" (.num (max 0 (held - freed))))

/-! ## Splits, merges and shipments -/

/-- `item.split` -/
def applySplit : Dict :=
  Dicts.set (Dicts.set current "children" (getOr data "child_ids" (.arr []))) "child_skus"
    (getOr data "child_skus" (.arr []))

/-- `item.source_deactivated` -/
def applySourceDeactivated : Except Raised Dict := do
  let qty ← floatOrZero T ((get data "original_qty").orElse (get current "quantity"))
  let current := setStatus (Dicts.set current "quantity" (.num qty)) (.str "merged") []
  .ok (Dicts.set current "merged_into" (get data "merged_into"))

/-- `item.unmerged` -/
def applyUnmerged : Except Raised Dict := do
  let current ← applyStatus current data "restored_status" data
  .ok (Dicts.pop current "merged_into")

/-- `item.merge_undone` -/
def applyMergeUndone : Except Raised Dict := do
  let current ← setQuantity T current (.num 0) .null .null
  .ok (setStatus current (.str "archived") [])

/-- `xs.append(v)` -/
def append (v : Json) : Json → Except Raised Json
  | .arr items => .ok (.arr (items ++ [v]))
  | _ => .error .attributeError

/-- `item.fulfilled` -/
def applyFulfilled : Except Raised Dict := do
  let qty ← float T (getOr data "quantity_fulfilled" (.num 0))
  let current := Dicts.set (Dicts.set current "quantity" (.num qty)) "quantity_fulfilled" (.num qty)
  let status := if same (get data "doc_type") (.str "memo") then "memo_out" else "sold"
  let current := Dicts.setDefault (setStatus current (.str status) data) "fulfilled_for_docs" (.arr [])
  let docId ← item data "source_doc_id"
  let docs ← append docId (get current "fulfilled_for_docs")
  .ok (Dicts.set current "fulfilled_for_docs" docs)

/-- `v in xs` -/
def isIn (v : Json) : Json → Except Raised Bool
  | .arr items => .ok (items.any (same v))
  | .obj fields => .ok (fields.any fun f => same v (.str f.1))
  | .str s =>
    match v with
    | .str part => .ok (s.toList.tails.any (part.toList.isPrefixOf ·))
    | _ => .error .typeError
  | _ => .error .typeError

/-- `xs.remove(v)`, of a list that holds it -/
def remove (v : Json) : Json → Except Raised Json
  | .arr items => .ok (.arr (items.eraseP (same v)))
  | _ => .error .attributeError

/-- `item.fulfillment_reversed` -/
def applyFulfillmentReversed : Except Raised Dict := do
  let qty ← item data "quantity_restored"
  let qty ← float T qty
  let current := setStatus (Dicts.set current "quantity" (.num qty)) (.str "available") []
  let docId := get data "source_doc_id"
  let docs := getOr current "fulfilled_for_docs" (.arr [])
  if docId.truthy then do
    let held ← isIn docId docs
    if held then do
      let docs ← remove docId docs
      .ok (Dicts.set current "fulfilled_for_docs" docs)
    else .ok current
  else .ok current

/-! ## Files -/

/-- Change the files of a list, each in its place. -/
def mapFiles (change : Dict → Except Raised Dict) : Json → Except Raised Json
  | .arr files => do
    let files ← files.mapM fun w => do
      let f ← fieldsOf w
      let f ← change f
      .ok (.obj f)
    .ok (.arr files)
  | v => do
    let files ← iterate v
    if files.isEmpty then .ok v else .error .attributeError

/-- Change the item's files, where it has any. -/
def changeFiles (change : Dict → Except Raised Dict) : Except Raised Dict :=
  match Dicts.get? current "files" with
  | some v => do
    let files ← mapFiles change v
    .ok (Dicts.set current "files" files)
  | none => .ok current

/-- `f.get("mime", "").startswith("image/")` -/
def hasImageMime (f : Dict) : Except Raised Bool :=
  match getOr f "mime" (.str "") with
  | .str mime => .ok (isImageMime mime)
  | _ => .error .attributeError

/-- `_ATTACHMENT_TYPE_TO_TAG.get(att_type, "product_images")` -/
def tagOf : Json → Except Raised String
  | .str type => .ok (attachmentTag type)
  | .arr _ => .error .typeError
  | .obj _ => .error .typeError
  | _ => .ok "product_images"

/-- An attachment as a file, and whether an image was the hero by then. -/
def migrateAttachment (preview : Json) (migrated : List Json × Bool) (w : Json) : Except Raised (List Json × Bool) := do
  let att ← fieldsOf w
  let tag ← tagOf (getOr att "type" (.str "image"))
  let image ← (if tag = "product_images" then hasImageMime att else .ok false)
  let id := getOr att "id" (.str "")
  let isHero := image && (if preview.truthy then same id preview else !migrated.2)
  let file : Dict :=
    [("id", id), ("filename", getOr att "filename" (.str "")), ("mime", getOr att "mime" (.str "")),
     ("size", getOr att "size" (.num 0)), ("url", getOr att "url" (.str "")), ("document_tag", .str tag),
     ("description", (get att "label").orElse .null), ("uploaded_at", .null), ("is_hero", .bool isHero)]
  .ok (migrated.1 ++ [.obj file], migrated.2 || (image && !preview.truthy))

/-- `_maybe_migrate_attachments` -/
def migrateStoredAttachments : Except Raised Dict :=
  let old := (get current "attachments").orElse (.arr [])
  if !old.truthy || (get current "files").truthy then .ok current
  else do
    let old ← iterate old
    let migrated ← old.foldlM (migrateAttachment (get current "preview_image_id")) ([], false)
    .ok (Dicts.set (Dicts.set current "files" (.arr migrated.1)) "attachments" (.arr []))

/-- The files with an entry in the place of the one with its id, or at the end. -/
def putEntry (entry : Dict) : List Json → Except Raised (List Json)
  | [] => .ok [.obj entry]
  | w :: files => do
    let f ← fieldsOf w
    if same (get f "id") (get entry "id") then .ok (.obj (Dicts.update f entry) :: files)
    else do
      let files ← putEntry entry files
      .ok (w :: files)

/-- `putEntry`, on a value that may be no list. -/
def putEntryIn (entry : Dict) : Json → Except Raised Json
  | .arr files => do
    let files ← putEntry entry files
    .ok (.arr files)
  | v => do
    let _ ← iterate v
    .error .attributeError

/-- The file an event attaches. -/
def fileEntry : Except Raised Dict := do
  let id ← item data "file_id"
  let filename ← item data "filename"
  let mime ← item data "mime"
  let size ← item data "size"
  let entry : Dict :=
    [("id", id), ("filename", filename), ("mime", mime), ("size", size), ("url", getOr data "url" (.str "")),
     ("document_tag", get data "document_tag"), ("description", get data "description"),
     ("uploaded_at", get data "uploaded_at"), ("is_hero", .bool (get data "is_hero").truthy)]
  .ok (if (get data "remote").truthy then Dicts.set entry "remote" (get data "remote") else entry)

/-- `item.file.attached` -/
def applyFileAttached : Except Raised Dict := do
  let current ← migrateStoredAttachments current
  let current := Dicts.setDefault current "files" (.arr [])
  let entry ← fileEntry data
  let current ← (if (get entry "is_hero").truthy then do
      let current ← changeFiles current fun f => .ok (Dicts.set f "is_hero" (.bool false))
      .ok (Dicts.set current "preview_image_id" (get entry "id"))
    else .ok current)
  let files ← putEntryIn entry (get current "files")
  .ok (Dicts.set current "files" files)

/-- `item.file.tagged`, `item.file.description_updated`: a field of the file the data names. -/
def applyFileField (key : String) : Except Raised Dict :=
  changeFiles current fun f => do
    let id ← item data "file_id"
    if same (get f "id") id then do
      let v ← item data key
      .ok (Dicts.set f key v)
    else .ok f

/-- Make the first image of a list of files the hero. -/
def promoteFirst : List Dict → List Bool → List Dict
  | f :: files, image :: images =>
    if image then Dicts.set f "is_hero" (.bool true) :: files else f :: promoteFirst files images
  | files, _ => files

/-- `item.file.deleted` -/
def applyFileDeleted : Except Raised Dict := do
  let id ← item data "file_id"
  let files ← iterate (getOr current "files" (.arr []))
  let files ← files.mapM fieldsOf
  let wasHero := files.any fun f => (get f "is_hero").truthy && same (get f "id") id
  let kept := files.filter fun f => !same (get f "id") id
  if wasHero then do
    let images ← kept.mapM hasImageMime
    let current := Dicts.set current "files" (.arr ((promoteFirst kept images).map .obj))
    match (kept.zip images).find? Prod.snd with
    | some f => do
      let preview ← item f.1 "id"
      .ok (Dicts.set current "preview_image_id" preview)
    | none => .ok (Dicts.set current "preview_image_id" .null)
  else .ok (Dicts.set current "files" (.arr (kept.map .obj)))

/-- `item.file.hero_set` -/
def applyFileHeroSet : Except Raised Dict := do
  let id ← item data "file_id"
  let current ← changeFiles current fun f => .ok (Dicts.set f "is_hero" (.bool (same (get f "id") id)))
  let files ← iterate (getOr current "files" (.arr []))
  let files ← files.mapM fieldsOf
  match files.find? fun f => (get f "is_hero").truthy with
  | some f => do
    let preview ← item f "id"
    .ok (Dicts.set current "preview_image_id" preview)
  | none => .ok (Dicts.set current "preview_image_id" .null)

end

/-! ## The step -/

section
variable (T : Texts)

/-- What an event of a type makes of a state. -/
def applyTyped (current data : Dict) : EventType → Except Raised Dict
  | .created => applyCreated T current data
  | .snapshot => applyCreated T current data
  | .updated => applyUpdated T current data
  | .pricingSet => applyPricingSet T current data
  | .statusSet => applyStatus current data "new_status" data
  | .transferred => applyTransferred current data
  | .quantityAdjusted => applyQuantityAdjusted T current data
  | .costAdjusted => applyCostAdjusted T current data
  | .inventoryAccountRecorded => applyInventoryAccount current data
  | .inventoryAccountMoved => applyInventoryAccount current data
  | .consignorPayableRecorded => applyConsignorPayable current data
  | .consignmentBought => applyConsignmentBought T current data
  | .inventoryOnBooksRecorded => .ok current
  | .landedCostAllocated => applyLandedCostAllocated T current data
  | .landedCostApplied => applyLandedCostApplied T current data
  | .expired => .ok (applyExpired current true)
  | .disposed => .ok (applyExpired current false)
  | .writtenOff => .ok (applyWrittenOff current data)
  | .returnedToSupplier => .ok (applyReturnedToSupplier current data)
  | .supplierReturnUndone => applyStatus current data "restored_status" []
  | .split => .ok (applySplit current data)
  | .splitFrom => .ok (Dicts.set current "split_from" (get data "parent_id"))
  | .transform => .ok (Dicts.set current "transformed_into" (get data "child_id"))
  | .transformedFrom => .ok (Dicts.set current "transformed_from" (get data "parent_id"))
  | .merged => .ok current
  | .sourceDeactivated => applySourceDeactivated T current data
  | .unmerged => applyUnmerged current data
  | .mergeUndone => applyMergeUndone T current
  | .consumed => applyConsumed T current data
  | .produced => addTo T current data "quantity" "quantity_produced"
  | .recipeSet => do
    let recipe ← item data "recipe"
    .ok (Dicts.set current "recipe" recipe)
  | .workflowSet => do
    let workflow ← item data "workflow"
    .ok (Dicts.set current "workflow" workflow)
  | .reserved => addTo T current data "reserved_quantity" "quantity"
  | .unreserved => applyUnreserved T current data
  | .fulfilled => applyFulfilled T current data
  | .fulfillmentReversed => applyFulfillmentReversed T current data
  | .patched => applyPatched T current data
  | .fileAttached => applyFileAttached current data
  | .fileTagged => applyFileField current data "document_tag"
  | .fileDescriptionUpdated => applyFileField current data "description"
  | .fileDeleted => applyFileDeleted current data
  | .fileHeroSet => applyFileHeroSet current data
  | .unsupported eventType => .error (.valueError ("Unsupported item event: " ++ eventType))

/-- `_apply_item_event` -/
def applyEvent (state : Dict) (e : Event) : Except Raised Dict := do
  let current ← landedPoolsFromUnits T state
  applyTyped T current e.data e.type

/-- The status of a state, in lower case. -/
def statusOf (state : Dict) : String := T.lower (text T ((get state "status").orElse (.str "")))

/-- `v is True` -/
def isTrue : Json → Bool
  | .bool b => b
  | _ => false

/-- `in_stock` -/
def inStock (state : Dict) : Bool :=
  statusOf T state ∉ OFF_BOOKS && (statusOf T state ∉ RETIRED || isTrue (get state ON_BOOKS_FIELD))

/-- Whether a retired lot holds its stock after an event. -/
def keptOnBooks (before after : Dict) (e : Event) : Bool :=
  if e.type = .inventoryOnBooksRecorded then statusOf T after ∈ RETIRED
  else if isTrue (get e.data ON_BOOKS_FIELD) ∧ statusOf T after ∈ RETIRED then inStock T before
  else (get before ON_BOOKS_FIELD).truthy && statusOf T after = statusOf T before

/-- `_keep_on_books` -/
def keepOnBooks (before after : Dict) (e : Event) : Dict :=
  if keptOnBooks T before after e then Dicts.set after ON_BOOKS_FIELD (.bool true) else Dicts.pop after ON_BOOKS_FIELD

/-- `apply_item_event` -/
def applyItemEvent (state : Dict) (e : Event) : Except Raised Dict := do
  let current ← applyEvent T state e
  .ok (keepOnBooks T state current e)

/-- The events of an item, one after the other. -/
def runItemEvents (state : Dict) (events : List Event) : Except Raised Dict := events.foldlM (applyItemEvent T) state

end

end StoredItem

end Celerp
