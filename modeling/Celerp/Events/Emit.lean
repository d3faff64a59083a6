/-
  Writing an event (`celerp/events/engine.py`): the entry and its effect on the projection are
  one savepoint, and a key already in the company's ledger gives the entry back that has it.

  An item's event is held to the item's own rules: what records its inventory account and its
  consignor's payable, births and changes, drafts, and lots out on a memo.

  What is judged outside the ledger (the schemas, the period lock, the rules of lines and of
  codes, what finalized invoices have set aside) and the entries an item's event books are
  parameters, `Surroundings`: the checks may refuse the event or change its data, and what is
  booked is written in the same savepoint, by the same rules.
-/
import Celerp.Events.Ledger
import Celerp.Inventory.StoredEvents

namespace Celerp

open Json StoredItem

/-! ## Requests and refusals -/

/-- `HeldLotCarve` -/
structure HeldLotCarve where
  lotId : String
  quantity : ℚ
  weight : Option ℚ
  pieces : Option ℚ
  deriving DecidableEq, Repr

/-- What `emit_event` is asked to write. -/
structure Request where
  companyId : String
  entityId : String
  entityType : String
  eventType : String
  data : Dict
  source : String
  idempotencyKey : String
  metadata : Dict
  heldLotCarve : Option HeldLotCarve := none

/-- `Transition` -/
structure Transition where
  before : Option Dict
  after : Dict

/-- Why an event is refused. -/
inductive EmitRefusal where
  /-- `inventory.err_item_not_found`, or `error.record_not_found` -/
  | notFound (entityType : String)
  /-- `inventory.err_item_exists` -/
  | itemExists
  /-- `inventory.account_already_recorded` -/
  | accountAlreadyRecorded
  /-- `inventory.account_moved_since` -/
  | accountMovedSince
  /-- `inventory.account_locked_after_booking` -/
  | accountLocked
  /-- `inventory.consignor_payable_already_recorded` -/
  | payableAlreadyRecorded
  /-- `inventory.consignor_payable_locked_after_sale` -/
  | payableLocked
  /-- `inventory.on_books_locked` -/
  | onBooksLocked
  /-- `item.deleted` -/
  | itemDeleted (sku : String)
  /-- `item.draft` -/
  | itemDraft (sku : String)
  /-- `inventory.err_held_by_memo` -/
  | heldByMemo (sku memo : String)
  | raised (r : Raised)
  /-- a refusal of the surroundings -/
  | refused (status : ℕ) (key : String)
  /-- the interpreter's recursion limit -/
  | tooDeep

/-- The HTTP status of a refusal. -/
def EmitRefusal.status : EmitRefusal → ℕ
  | notFound _ => 404
  | itemExists => 409
  | accountAlreadyRecorded => 409
  | accountMovedSince => 409
  | accountLocked => 422
  | payableAlreadyRecorded => 409
  | payableLocked => 422
  | onBooksLocked => 422
  | itemDeleted _ => 409
  | itemDraft _ => 409
  | heldByMemo _ _ => 409
  | raised _ => 500
  | refused status _ => status
  | tooDeep => 500

/-! ## What an item records -/

/-- The value an event's data writes to a field: as the field itself, or as a change of it. -/
def writtenField (data : Dict) (field : String) : Option Json :=
  match Dicts.get? data field with
  | some v => some v
  | none =>
    match get data "fields_changed" with
    | .obj changed =>
      match Dicts.get? changed field with
      | some (.obj change) => some (get change "new")
      | other => other
    | _ => none

/-- A field may be written only as it is. -/
def keepsField (previous : Option Dict) (data : Dict) (field : String) (e : EmitRefusal) : Except EmitRefusal Unit :=
  match writtenField data field with
  | some written => if same written (get (previous.getD []) field) then .ok () else .error e
  | none => .ok ()

/-- `item.inventory_account.recorded` (`RECORDED`) -/
def RECORDED : String := "item.inventory_account.recorded"

/-- `item.inventory_account.moved` (`MOVED`) -/
def MOVED : String := "item.inventory_account.moved"

/-- `item.consignment.bought` -/
def BOUGHT : String := "item.consignment.bought"

/-- `item.consignor_payable.recorded` -/
def PAYABLE_RECORDED : String := "item.consignor_payable.recorded"

/-- `_ON_BOOKS_WRITERS` -/
def ON_BOOKS_WRITERS : List String :=
  ["item.status.set", "item.expired", "item.updated", "item.inventory_on_books.recorded"]

section
variable (T : Texts)

/-- `str(state.get("status") or "").lower()` -/
def storedStatus (state : Dict) : String := T.lower (text T ((get state "status").orElse (.str "")))

/-- `_record_lot_account`: the data as it is then, or a refusal. -/
def recordLotAccount (sourceLotAccount : Option String) (r : Request) (previous : Option Dict) (data : Dict) :
    Except EmitRefusal Dict :=
  if r.eventType ∈ ITEM_BIRTHS ∧ previous.isNone then
    .ok (if r.eventType = "item.created" ∧ r.source = "migration" ∧ (Dicts.get? data LOT_ACCOUNT_FIELD).isNone ∧
          storedStatus T data ≠ "draft" then
        match sourceLotAccount with
        | some code => if code ≠ "" then Dicts.set data LOT_ACCOUNT_FIELD (.str code) else data
        | none => data
      else data)
  else
    let current := get (previous.getD []) LOT_ACCOUNT_FIELD
    if r.eventType = RECORDED ∨ r.eventType = BOUGHT then
      if current.truthy then .error .accountAlreadyRecorded else .ok data
    else if r.eventType = MOVED then
      if !current.truthy || !same current (get data "from_account") then .error .accountMovedSince else .ok data
    else do
      keepsField previous data LOT_ACCOUNT_FIELD .accountLocked
      .ok data

/-- `_record_consignor_payable` -/
def recordConsignorPayable (r : Request) (previous : Option Dict) (data : Dict) : Except EmitRefusal Unit :=
  if r.eventType ∈ ITEM_BIRTHS ∧ previous.isNone then .ok ()
  else if r.eventType = PAYABLE_RECORDED then
    if (get (previous.getD []) CONSIGNOR_PAYABLE_FIELD).truthy then .error .payableAlreadyRecorded else .ok ()
  else keepsField previous data CONSIGNOR_PAYABLE_FIELD .payableLocked

/-- `_guard_on_books` -/
def guardOnBooks (r : Request) (data : Dict) : Except EmitRefusal Unit :=
  let entered := match get data "fields_changed" with
    | .obj changed => (Dicts.get? changed ON_BOOKS_FIELD).isSome
    | _ => false
  if (Dicts.get? data ON_BOOKS_FIELD).isSome && r.eventType ∉ ON_BOOKS_WRITERS || entered then .error .onBooksLocked
  else .ok ()

/-! ## The handlers of items -/

/-- The name of a type of event. -/
def StoredItem.EventType.name : EventType → String
  | .created => "item.created"
  | .snapshot => "item.snapshot"
  | .updated => "item.updated"
  | .pricingSet => "item.pricing.set"
  | .statusSet => "item.status.set"
  | .transferred => "item.transferred"
  | .quantityAdjusted => "item.quantity.adjusted"
  | .costAdjusted => "item.cost_adjusted"
  | .inventoryAccountRecorded => RECORDED
  | .inventoryAccountMoved => MOVED
  | .consignorPayableRecorded => PAYABLE_RECORDED
  | .consignmentBought => BOUGHT
  | .inventoryOnBooksRecorded => "item.inventory_on_books.recorded"
  | .landedCostAllocated => "item.landed_cost.allocated"
  | .landedCostApplied => "item.landed_cost.applied"
  | .expired => "item.expired"
  | .disposed => "item.disposed"
  | .writtenOff => "item.written_off"
  | .returnedToSupplier => "item.returned_to_supplier"
  | .supplierReturnUndone => "item.supplier_return_undone"
  | .split => "item.split"
  | .splitFrom => "item.split_from"
  | .transform => "item.transform"
  | .transformedFrom => "item.transformed_from"
  | .merged => "item.merged"
  | .sourceDeactivated => "item.source_deactivated"
  | .unmerged => "item.unmerged"
  | .mergeUndone => "item.merge_undone"
  | .consumed => "item.consumed"
  | .produced => "item.produced"
  | .recipeSet => "item.recipe.set"
  | .workflowSet => "item.workflow.set"
  | .reserved => "item.reserved"
  | .unreserved => "item.unreserved"
  | .fulfilled => "item.fulfilled"
  | .fulfillmentReversed => "item.fulfillment_reversed"
  | .patched => "item.patched"
  | .fileAttached => "item.file.attached"
  | .fileTagged => "item.file.tagged"
  | .fileDescriptionUpdated => "item.file.description_updated"
  | .fileDeleted => "item.file.deleted"
  | .fileHeroSet => "item.file.hero_set"
  | .unsupported eventType => eventType

/-- The types of events an item takes. -/
def ITEM_EVENTS : List EventType :=
  [.created, .snapshot, .updated, .pricingSet, .statusSet, .transferred, .quantityAdjusted, .costAdjusted,
   .inventoryAccountRecorded, .inventoryAccountMoved, .consignorPayableRecorded, .consignmentBought,
   .inventoryOnBooksRecorded, .landedCostAllocated, .landedCostApplied, .expired, .disposed, .writtenOff,
   .returnedToSupplier, .supplierReturnUndone, .split, .splitFrom, .transform, .transformedFrom, .merged,
   .sourceDeactivated, .unmerged, .mergeUndone, .consumed, .produced, .recipeSet, .workflowSet, .reserved,
   .unreserved, .fulfilled, .fulfillmentReversed, .patched, .fileAttached, .fileTagged, .fileDescriptionUpdated,
   .fileDeleted, .fileHeroSet]

/-- The type of event of a name. -/
def itemEventType (eventType : String) : EventType :=
  (ITEM_EVENTS.find? (·.name = eventType)).getD (.unsupported eventType)

theorem name_itemEventType (eventType : String) : (itemEventType eventType).name = eventType := by
  unfold itemEventType
  cases h : ITEM_EVENTS.find? (·.name = eventType) with
  | some type => simpa using List.find?_some h
  | none => rfl

/-- `apply_item_event`, as a handler -/
def itemHandler (T : Texts) : Handler := fun state eventType data =>
  StoredItem.applyItemEvent T state ⟨itemEventType eventType, data⟩

/-- `apply_shop_sync_event` -/
def applyShopSyncEvent : Handler := fun state eventType _ =>
  if eventType = "shop.sync.enabled" then .ok (Dicts.set state "is_sync_to_shopify" (.bool true))
  else if eventType = "shop.sync.disabled" then .ok (Dicts.set state "is_sync_to_shopify" (.bool false))
  else .error (.valueError ("Unsupported shop-sync event: " ++ eventType))

/-! ## Drafts -/

/-- `AUTHORING_EVENT_TYPES` -/
def AUTHORING_EVENT_TYPES : List String :=
  ["item.created", "item.updated", "item.patched", "item.pricing.set", "item.status.set", "item.recipe.set",
   "item.workflow.set", RECORDED, MOVED, "shop.sync.enabled", "shop.sync.disabled"]

/-- `is_authoring_event` -/
def isAuthoringEvent (eventType : String) : Bool :=
  eventType ∈ AUTHORING_EVENT_TYPES || startsWith eventType "item.file."

/-- `DELETED` -/
def DELETED : String := "deleted"

/-- The SKU a refusal names an item by. -/
def refusalSku (state : Dict) : String :=
  text T ((get state "sku").orElse ((get state "entity_id").orElse (.str "")))

/-- `assert_draft_not_circulated` -/
def assertDraftNotCirculated (eventType : String) (t : Transition) : Except EmitRefusal Unit :=
  match t.before with
  | none => .ok ()
  | some before =>
    let after := storedStatus T t.after
    if storedStatus T before = DELETED then
      if eventType = "item.status.set" ∧ after = "draft" then .ok () else .error (.itemDeleted (refusalSku T before))
    else if storedStatus T before ≠ "draft" then .ok ()
    else if isAuthoringEvent eventType ∧ after ∈ ["draft", "available", DELETED] then .ok ()
    else .error (.itemDraft (refusalSku T before))

/-! ## Lots out on a memo -/

/-- `_HELD_FIELDS` -/
def HELD_FIELDS : List String :=
  ["quantity", "sell_by", "weight", "weight_unit", "gross_weight", "gross_weight_unit", "location_id", "pieces"]

/-- `_held_value` -/
def heldField (state : Dict) (field : String) : Except Raised Json :=
  if field = "pieces" ∧ (get state "pieces").isNull then do
    let attrs ← fieldsOf ((get state "attributes").orElse (.obj []))
    .ok (get attrs "pieces")
  else .ok (get state field)

/-- A change of a held field. -/
structure HeldChange where
  field : String
  before : Json
  after : Json

/-- The held fields that a change of state changes. -/
def heldChanges (before after : Dict) : Except Raised (List HeldChange) := do
  let changes ← HELD_FIELDS.mapM fun f => do
    let b ← heldField before f
    let a ← heldField after f
    .ok (⟨f, b, a⟩ : HeldChange)
  .ok (changes.filter fun c => !same c.before c.after)

/-- What a carve takes of a field, where it may change it. -/
def HeldLotCarve.grant (c : HeldLotCarve) (field : String) : Option (Option ℚ) :=
  if field = "quantity" then some (some c.quantity)
  else if field = "weight" then some c.weight
  else if field = "pieces" then some c.pieces
  else none

/-- One change against what a carve takes. -/
def carvedField (c : HeldLotCarve) (change : HeldChange) : Except Raised Bool :=
  match c.grant change.field with
  | none => .ok false
  | some none => .ok change.after.isNull
  | some (some part) =>
    if change.after.isNull then .ok false
    else do
      let before ← floatOrZero T change.before
      let after ← float T change.after
      .ok (decide (|before - part - after| ≤ 1 / 10 ^ 9))

/-- `_carved_by` -/
def carvedBy (carve : Option HeldLotCarve) (entityId : String) (changed : List HeldChange) : Except Raised Bool :=
  match carve with
  | none => .ok false
  | some c =>
    if c.lotId ≠ entityId then .ok false
    else changed.foldlM (fun ok change => if ok then carvedField T c change else .ok false) true

/-- The memo a lot is out on before and after an event, if it is out on one. -/
def heldOnMemo (before after : Dict) : Option Json :=
  let out := Json.str "memo_out"
  if same (get before "status") out ∧ same (get after "status") out ∧ (get before "status_doc_id").truthy ∧
      same (get after "status_doc_id") (get before "status_doc_id") then
    some (get before "status_doc_id")
  else none

/-- The state of the memo holding a lot, where the document is one. -/
def Store.memo? (s : Store) (companyId : String) : Json → Option Dict
  | .str holder =>
    match s.projection? companyId holder with
    | some p => if same (get p.state "doc_type") (.str "memo") then some p.state else none
    | none => none
  | _ => none

/-- `_refuse_held_lot_change` -/
def refuseHeldLotChange (s : Store) (e : LedgerEntry) (t : Transition) (carve : Option HeldLotCarve) :
    Except EmitRefusal Unit :=
  match t.before with
  | none => .ok ()
  | some before =>
    match heldOnMemo before t.after with
    | none => .ok ()
    | some holderId => do
      let changed ← (heldChanges before t.after).mapError .raised
      let carved ← (carvedBy T carve e.entityId changed).mapError .raised
      if changed.isEmpty || carved then .ok ()
      else match s.memo? e.companyId holderId with
        | none => .ok ()
        | some memo =>
          .error (.heldByMemo (text T ((get before "sku").orElse (.str e.entityId)))
            (text T ((get memo "doc_number").orElse ((get memo "ref_id").orElse holderId))))

end

/-! ## The write -/

/-- What is judged, and booked, outside the ledger's own rules. -/
structure Surroundings where
  /-- the checks before the write, and the data as they leave it -/
  prepare : Store → Request → Except EmitRefusal Dict
  /-- `source_lot_account`, of a company -/
  sourceLotAccount : String → Option String
  /-- `item_lineage_guard` and `refuse_stranding_set_aside` -/
  judge : Store → LedgerEntry → Transition → Except EmitRefusal Unit
  /-- the entries an item's event books (`book_draft_boundary`, `book_value_change`) -/
  bookings : Store → LedgerEntry → Transition → Except EmitRefusal (List Request)

/-- What came of a write. -/
structure Emitted where
  store : Store
  entry : LedgerEntry
  wasDeduped : Bool

section
variable (T : Texts) (R : ColumnReadings) (B : Build) (O : Surroundings)

/-- The entry of a request, with the next value of the sequence. -/
def Store.insert (s : Store) (r : Request) (data : Dict) : Store × LedgerEntry :=
  let e : LedgerEntry := ⟨s.seq + 1, r.companyId, r.entityId, r.entityType, r.eventType, data, r.source,
    r.idempotencyKey, r.metadata⟩
  ({ s with ledger := s.ledger ++ [e], seq := s.seq + 1 }, e)

/-- `ProjectionEngine.apply_event` -/
def Store.applyNew (s : Store) (e : LedgerEntry) : Except EmitRefusal (Store × Transition) :=
  let projection := s.projection? e.companyId e.entityId
  if projection.any (·.entityType ≠ e.entityType) then .error (.notFound e.entityType)
  else do
    let row ← (writeRow R B projection e).mapError .raised
    .ok ({ s with projections := Dicts.set s.projections e.key row }, ⟨projection.map (·.state), row.state⟩)

/-- The item rules held to before the entry is written. -/
def guardItem (s : Store) (r : Request) (data : Dict) : Except EmitRefusal Dict := do
  let previous := s.itemState? r.companyId r.entityId
  guardOnBooks r data
  let data ← recordLotAccount T (O.sourceLotAccount r.companyId) r previous data
  recordConsignorPayable r previous data
  .ok data

/-- The checks of `_item_applied`. -/
def itemApplied (s : Store) (e : LedgerEntry) (t : Transition) (carve : Option HeldLotCarve) :
    Except EmitRefusal Unit :=
  if t.before.isNone ∧ e.eventType ∉ ITEM_BIRTHS then .error (.notFound "item")
  else if t.before.isSome ∧ e.eventType ∈ ITEM_BIRTHS then .error .itemExists
  else do
    assertDraftNotCirculated T e.eventType t
    O.judge s e t
    refuseHeldLotChange T s e t carve

/-- `emit_event`, within a number of levels of bookings. -/
def emit : ℕ → Store → Request → Except EmitRefusal Emitted
  | 0, _, _ => .error .tooDeep
  | depth + 1, s, r => do
    let data ← O.prepare s r
    let data ← (if r.entityType = "item" then guardItem T O s r data else .ok data)
    match s.findEvent r.companyId r.idempotencyKey with
    | some original => .ok ⟨s, original, true⟩
    | none => do
      let inserted := s.insert r data
      let applied ← inserted.1.applyNew R B inserted.2
      if r.entityType = "item" then do
        itemApplied T O applied.1 inserted.2 applied.2 r.heldLotCarve
        let bookings ← O.bookings applied.1 inserted.2 applied.2
        let booked ← bookings.foldlM (fun s b => do
          let w ← emit depth s b
          .ok w.store) applied.1
        .ok ⟨booked, inserted.2, false⟩
      else .ok ⟨applied.1, inserted.2, false⟩

end

/-! ## Erasing and deleting -/

/-- What stands in the way of removing records. -/
structure Removals where
  /-- `locked_history`, the given records with history in a locked period -/
  lockedHistory : Store → String → List String → List String
  /-- `_posted_journal_entries` of a document -/
  posted : Store → String → String → List String

/-- Take records out, with their entries. -/
def Store.drop (s : Store) (gone : RecordKey → Bool) : Store :=
  { s with ledger := s.ledger.filter fun e => !gone e.key, projections := s.projections.filter fun f => !gone f.1 }

/-- The connector identities of records. -/
def Store.connectorKeys (s : Store) (companyId : String) (entityIds : List String) : List String :=
  s.projections.filterMap fun f =>
    if f.1.1 = companyId ∧ f.1.2 ∈ entityIds then
      match get f.2.state "idempotency_key" with
      | .str key => some key
      | _ => none
    else none

/-- `erase_items`, nothing where it is refused (`erase.locked_period`). -/
def Store.eraseItems (V : Removals) (s : Store) (companyId : String) (entityIds : List String) : Option Store :=
  if V.lockedHistory s companyId entityIds ≠ [] then none
  else
    let keys := (s.connectorKeys companyId entityIds).map (companyId, ·)
    some { s.drop fun k => k.1 = companyId && k.2 ∈ entityIds with erased := (s.erased ++ keys).dedup }

/-- `delete_doc`, `delete_list`, of what its goods were returned and released for. -/
def Store.deleteDraft (V : Removals) (s : Store) (companyId entityId : String) : Option Store :=
  match s.projection? companyId entityId with
  | some p =>
    if (p.entityType = "doc" ∧ V.posted s companyId entityId = [] ∨ p.entityType = "list") ∧
        same (get p.state "status") (.str "draft") then
      some (s.drop (· = (companyId, entityId)))
    else none
  | none => none

/-! ## Runs -/

/-- A running instance: its tables, and the modules it has loaded. -/
structure Instance where
  store : Store := {}
  build : Build

/-- What is done to an instance. -/
inductive LedgerOp where
  | emit (depth : ℕ) (r : Request)
  | erase (companyId : String) (entityIds : List String)
  | deleteDraft (companyId entityId : String)
  | rebuild (companies : List String)
  /-- a start with other modules -/
  | load (build : Build)
  /-- values of the sequence that a rolled back write took -/
  | burn (values : ℕ)

/-- One step; what is refused changes nothing. -/
def Instance.step (T : Texts) (R : ColumnReadings) (O : Surroundings) (V : Removals) (w : Instance) : LedgerOp → Instance
  | .emit depth r =>
    match emit T R w.build O depth w.store r with
    | .ok done => { w with store := done.store }
    | .error _ => w
  | .erase companyId entityIds => { w with store := (w.store.eraseItems V companyId entityIds).getD w.store }
  | .deleteDraft companyId entityId => { w with store := (w.store.deleteDraft V companyId entityId).getD w.store }
  | .rebuild companies =>
    match w.store.rebuild R w.build companies with
    | .ok store => { w with store }
    | .error _ => w
  | .load build => { w with build }
  | .burn values => { w with store := { w.store with seq := w.store.seq + values } }

end Celerp
