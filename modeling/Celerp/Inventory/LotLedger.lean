/-
  The stock of lots on the books (`celerp/services/lot_origin.py`): what each lot's account
  carries for it, and the entries that move it there.

  * an item's event that moves a lot between draft and stock (`draftBoundary`), or changes what
    a lot in stock holds (`valueBoundary`), books it in the same savepoint (`emitItem`);
  * stock brought in is recorded and booked (`recognizeOpeningLots`), samples are taken out
    (`deleteDemoItems`), and older lots are moved to another account and back
    (`moveLotAccounts`, `undoLotMove`).

  Amounts are exact.  Each event is one that the ledger takes: what its key, the checks outside
  these rules (`StockRules`) and the day of its entry come to is left out.
-/
import Celerp.Accounts.Roles
import Celerp.Events.Emit
import Celerp.Journal.Entry
import Celerp.Lib.Amounts

namespace Celerp

open Json AccountRole

/-! ## What a lot holds -/

namespace StoredItem

/-- `is_stock_type` -/
def isStockType (state : Dict) : Except Raised Bool :=
  match (get state "inventory_type").orElse (.str "stocked") with
  | .str s => .ok (s ∈ STOCK_TYPES)
  | .arr _ => .error .typeError
  | .obj _ => .error .typeError
  | _ => .ok false

/-- `is_consigned` -/
def isConsigned (state : Dict) : Bool := same (get state "consignment_flag") (.str "in")

/-- `_owned_stock` -/
def ownedStock (state : Dict) : Except Raised Bool := if isConsigned state then .ok false else isStockType state

section
variable (T : Texts)

/-- `Decimal(str(v))` -/
def decimal : Json → Except Raised ℚ
  | .num q => .ok q
  | .str s =>
    match T.float s with
    | some q => .ok q
    | none => .error (.valueError s)
  | v => .error (.valueError (T.str v))

/-- `recorded_value` -/
def recordedValue (state : Dict) : Except Raised ℚ := do
  let total ← floatOrZero T (get state "cost_total")
  if total ≠ 0 then decimal T (get state "cost_total")
  else
    let cost := (get state "cost_price").orElse (get state "cost price")
    if cost.isNull then .ok 0
    else do
      let cost ← decimal T cost
      let quantity ← decimal T ((get state "quantity").orElse (.num 0))
      .ok (cost * quantity)

/-- `held_value` -/
def heldValue (state : Dict) : Except Raised (Option ℚ) :=
  if !inStock T state then .ok none
  else do
    let owned ← ownedStock state
    if owned then do
      let value ← recordedValue T state
      .ok (some value)
    else .ok none

/-- `booked_value` -/
def bookedValue (currency : String) (state : Dict) : Except Raised ℚ := do
  let held ← heldValue T state
  .ok (roundMoney (held.getD 0) currency)

/-- `value_moved`, of a lot that stays -/
def valueMoved (currency : String) (before after : Dict) : Except Raised ℚ := do
  let left ← recordedValue T after
  let held ← recordedValue T before
  .ok (roundMoney held currency - roundMoney left currency)

/-- The account a lot records, if it records one. -/
def recordedAccount (state : Dict) : Option String :=
  let code := get state LOT_ACCOUNT_FIELD
  if code.truthy then some (text T code) else none

/-- `lot_account` -/
def lotAccount (state : Dict) : Except EmitRefusal String :=
  if isConsigned state then .error (.refused 409 "consignment.not_owned")
  else match recordedAccount T state with
    | some code => .ok code
    | none => .error (.refused 409 "posting.older_stock.no_account")

/-- `_draft` -/
def isDraft (state : Dict) : Bool := storedStatus T state = "draft"

/-- `is_deleted` -/
def isDeleted (state : Dict) : Bool := storedStatus T state = DELETED

end

end StoredItem

open StoredItem

/-! ## The rules and the books -/

/-- What holds of a company while it books its stock, and what is judged elsewhere. -/
structure StockRules where
  /-- `SCHEMA_KEY in settings` -/
  accounting : Bool
  currency : String
  /-- `resolve_many`, of one role -/
  resolve : AccountRole → Except EmitRefusal String
  /-- an account resolved has a code -/
  resolved : ∀ role code, resolve role = .ok code → code ≠ ""
  /-- whether an account can still take a role's postings -/
  usable : AccountRole → String → Except EmitRefusal Unit
  /-- `source_lot_account` -/
  sourceLotAccount : Option String
  /-- the checks of an event before it is written -/
  check : Request → Except EmitRefusal Unit
  /-- `item_lineage_guard`, `_refuse_held_lot_change` and `refuse_stranding_set_aside` -/
  judge : Request → Transition → Except EmitRefusal Unit
  /-- what refuses an entry, the period lock with it -/
  takes : List Line → Except EmitRefusal Unit
  /-- `_check_target`, `_refuse_invoiced`, `_open_day` and that the lots were placed automatically -/
  movable : List String → String → Except EmitRefusal Unit
  /-- `_not_sample_fixtures` and `require_unlocked_history` -/
  removable : List String → Except EmitRefusal Unit

/-- What a move did to one lot. -/
structure LotMoved where
  lot : String
  fromAccount : String
  toAccount : String
  deriving DecidableEq, Repr

/-- A company's lots, the lines of its posted entries, and the moves of older lots. -/
structure LotLedger where
  lots : List (String × Dict) := []
  lines : List Line := []
  /-- the events of each move, with what it was asked for -/
  moves : List (String × (String × List LotMoved)) := []
  distinct : (Dicts.keys lots).Nodup

/-- A lot's state set. -/
def LotLedger.setLot (b : LotLedger) (id : String) (state : Dict) : LotLedger :=
  { b with lots := Dicts.set b.lots id state, distinct := Dicts.nodup_keys_set b.distinct }

/-- The rows of lots, in the order of their ids. -/
def LotLedger.rows (b : LotLedger) (ids : List String) : List (String × Dict) :=
  (b.lots.filter fun f => f.1 ∈ ids).insertionSort (·.1 ≤ ·.1)

/-- A lot moving between draft and stock. -/
structure DraftBoundary where
  madeAvailable : Bool
  value : ℚ
  code : String
  record : Bool

/-- A change in the value a lot holds on its account. -/
structure ValueChange where
  delta : ℚ
  code : String
  record : Bool

/-- `_SELF_BOOKED_REASONS` -/
def SELF_BOOKED_REASONS : List String :=
  ["from_merge", "from_split", "from_transform", "split_parent", "audit", "audit_undo"]

/-- `_SELF_BOOKED_SOURCES` -/
def SELF_BOOKED_SOURCES : List String := ["migration", "audit", "fulfillment", "fulfill_split", "receive_undo"]

/-- `_SELF_BOOKED_MARKERS` -/
def SELF_BOOKED_MARKERS : List String :=
  ["source_doc", "source_return", "source_receive_undo", "split_for_fulfillment", "audit_id", "manufacturing_order_id"]

/-- Whether data, or metadata, marks an event as one that its writer books. -/
def selfBookedMarks (marks : Dict) : Except Raised Bool :=
  match get marks "reason" with
  | .str reason => .ok (reason ∈ SELF_BOOKED_REASONS || SELF_BOOKED_MARKERS.any fun m => (Dicts.get? marks m).isSome)
  | .arr _ => .error .typeError
  | .obj _ => .error .typeError
  | _ => .ok (SELF_BOOKED_MARKERS.any fun m => (Dicts.get? marks m).isSome)

/-- `self_booked` -/
def selfBooked (r : Request) : Except Raised Bool :=
  if r.source ∈ SELF_BOOKED_SOURCES then .ok true
  else do
    let marked ← selfBookedMarks r.data
    if marked then .ok true else selfBookedMarks r.metadata

/-- `_record`: the event that records a lot's account. -/
def recordRequest (id code why : String) : Request where
  companyId := ""
  entityId := id
  entityType := "item"
  eventType := RECORDED
  data := [(LOT_ACCOUNT_FIELD, .str code)]
  source := "system"
  idempotencyKey := "lot-account:" ++ id
  metadata := [("recorded_by", .str why)]

/-- The event that moves a lot to another account. -/
def movedRequest (m : LotMoved) (moveId : String) : Request where
  companyId := ""
  entityId := m.lot
  entityType := "item"
  eventType := MOVED
  data := [(LOT_ACCOUNT_FIELD, .str m.toAccount), ("from_account", .str m.fromAccount)]
  source := "system"
  idempotencyKey := "lot-move:" ++ moveId ++ ":" ++ m.lot
  metadata := [("move", .str moveId)]

section
variable (T : Texts) (B : Build) (S : StockRules)

/-! ## Entries -/

/-- `opening_lot_account` -/
def openingLotAccount : Except EmitRefusal String := S.resolve inventoryOpening

/-- `continue_role` -/
def StockRules.continueRole (role : AccountRole) (code : String) : Except EmitRefusal String := do
  S.usable role code
  .ok code

/-- `_emit_auto_posted_je` -/
def LotLedger.post (b : LotLedger) (lines : List Line) : Except EmitRefusal LotLedger :=
  match emitAutoPosted S.currency lines with
  | some posted => do
    S.takes posted
    .ok { b with lines := b.lines ++ posted }
  | none => .error (.refused 409 "error.auto_je_unbalanced")

/-- The values of accounts to the cent, in the order of their codes, less those of nothing. -/
def roundedValues (currency : String) (values : List (String × ℚ)) : List (String × ℚ) :=
  ((values.insertionSort (·.1 ≤ ·.1)).map fun v => (v.1, roundMoney v.2 currency)).filter (·.2 ≠ 0)

/-- `post_opening_stock_delta` -/
def LotLedger.postOpeningStockDelta (b : LotLedger) (values : List (String × ℚ)) (ontoBooks : Bool) :
    Except EmitRefusal LotLedger :=
  let values := roundedValues S.currency values
  if values.isEmpty then .ok b
  else do
    let total := (values.map Prod.snd).sum
    let retained ← S.resolve retainedEarnings
    b.post S (if ontoBooks then values.map (fun v => .debitOf v.1 v.2) ++ [.creditOf retained total]
      else .debitOf retained total :: values.map fun v => .creditOf v.1 v.2)

/-- `book_lot_value` -/
def LotLedger.bookLotValue (b : LotLedger) (code : String) (delta : ℚ) : Except EmitRefusal LotLedger :=
  let delta := roundMoney delta S.currency
  if !S.accounting || delta = 0 then .ok b
  else if 0 < delta then do
    let gain ← S.resolve stockGain
    b.post S [.debitOf code |delta|, .creditOf gain |delta|]
  else do
    let shrinkage ← S.resolve stockShrinkage
    b.post S [.debitOf shrinkage |delta|, .creditOf code |delta|]

/-! ## Item events -/

/-- `draft_boundary` -/
def draftBoundary (t : Transition) : Except EmitRefusal (Option DraftBoundary) :=
  match t.before with
  | none => .ok none
  | some before =>
    if isDraft T before = isDraft T t.after ∨ isDeleted T before ∨ isDeleted T t.after ∨ !S.accounting then .ok none
    else do
      let madeAvailable := isDraft T before
      let held ← (StoredItem.heldValue T (if madeAvailable then t.after else before)).mapError .raised
      match held with
      | none => .ok none
      | some value => do
        let recorded := recordedAccount T before
        let code ← (if madeAvailable then
            match recorded with
            | some code => S.continueRole inventoryOpening code
            | none => openingLotAccount S
          else StoredItem.lotAccount T before)
        .ok (some ⟨madeAvailable, value, code, recorded.isNone && madeAvailable⟩)

/-- `value_boundary` -/
def valueBoundary (r : Request) (t : Transition) : Except EmitRefusal (Option ValueChange) :=
  match t.before with
  | none => .ok none
  | some before =>
    if !inStock T before || !inStock T t.after then .ok none
    else do
      let ownedBefore ← (StoredItem.ownedStock before).mapError .raised
      let ownedAfter ← (StoredItem.ownedStock t.after).mapError .raised
      let code := recordedAccount T before
      if code.isNone && !(ownedBefore && ownedAfter) then .ok none
      else if ownedBefore ≠ ownedAfter then .error (.refused 422 "inventory.booked_account_locks_type")
      else do
        let booked ← (selfBooked r).mapError .raised
        if booked then .ok none
        else do
          let heldBefore ← (StoredItem.heldValue T before).mapError .raised
          let heldAfter ← (StoredItem.heldValue T t.after).mapError .raised
          if heldBefore.isNone || heldAfter.isNone || !S.accounting then .ok none
          else do
            let moved ← (StoredItem.valueMoved T S.currency before t.after).mapError .raised
            if moved = 0 then .ok none
            else do
              let account ← (match code with
                | some code => .ok code
                | none => openingLotAccount S)
              .ok (some ⟨-moved, account, code.isNone⟩)

/-- An item's event written, with what it was written as and what it did. -/
def LotLedger.write (b : LotLedger) (r : Request) : Except EmitRefusal (LotLedger × Request × Transition) := do
  S.check r
  let previous := Dicts.get? b.lots r.entityId
  guardOnBooks r r.data
  let data ← recordLotAccount T S.sourceLotAccount r previous r.data
  recordConsignorPayable r previous data
  let after ← (B.apply (previous.getD []) r.eventType data).mapError .raised
  let t : Transition := ⟨previous, after⟩
  if previous.isNone ∧ r.eventType ∉ ITEM_BIRTHS then .error (.notFound "item")
  else if previous.isSome ∧ r.eventType ∈ ITEM_BIRTHS then .error .itemExists
  else do
    assertDraftNotCirculated T r.eventType t
    S.judge r t
    .ok (b.setLot r.entityId after, { r with data }, t)

/-- `book_draft_boundary` -/
def LotLedger.bookDraftBoundary (emit : LotLedger → Request → Except EmitRefusal LotLedger) (b : LotLedger) (id : String)
    (move : DraftBoundary) : Except EmitRefusal LotLedger := do
  let b ← (if move.record then emit b (recordRequest id move.code "made available") else .ok b)
  b.postOpeningStockDelta S [(move.code, move.value)] move.madeAvailable

/-- `book_value_change` -/
def LotLedger.bookValueChange (emit : LotLedger → Request → Except EmitRefusal LotLedger) (b : LotLedger) (id : String)
    (change : ValueChange) : Except EmitRefusal LotLedger := do
  let b ← (if change.record then emit b (recordRequest id change.code "value changed") else .ok b)
  b.bookLotValue S change.code change.delta

/-- `emit_event`, of an item's event, within a number of levels of bookings. -/
def LotLedger.emitItem : ℕ → LotLedger → Request → Except EmitRefusal LotLedger
  | 0, _, _ => .error .tooDeep
  | depth + 1, b, r => do
    let written ← b.write T B S r
    let crossed ← draftBoundary T S written.2.2
    let b ← (match crossed with
      | some move => written.1.bookDraftBoundary S (emitItem depth) r.entityId move
      | none => .ok written.1)
    let changed ← valueBoundary T S written.2.1 written.2.2
    match changed with
    | some change => b.bookValueChange S (emitItem depth) r.entityId change
    | none => .ok b

/-! ## Stock brought in and taken out -/

/-- The lots among rows that hold stock and record no account. -/
def openingLots (rows : List (String × Dict)) : Except Raised (List (String × Dict)) := do
  let judged ← rows.mapM fun f => do
    let held ← StoredItem.heldValue T f.2
    .ok (f, held.isSome && (recordedAccount T f.2).isNone)
  .ok ((judged.filter Prod.snd).map Prod.fst)

/-- `recognize_opening_lots` -/
def LotLedger.recognizeOpeningLots (depth : ℕ) (b : LotLedger) (ids : List String) : Except EmitRefusal LotLedger :=
  if ids.isEmpty || !S.accounting then .ok b
  else do
    let lots ← (openingLots T (b.rows ids)).mapError .raised
    if lots.isEmpty then .ok b
    else do
      let values ← (lots.mapM fun f => StoredItem.bookedValue T S.currency f.2).mapError .raised
      let code ← openingLotAccount S
      let _ ← S.resolve retainedEarnings
      let b ← lots.foldlM (fun b f => emitItem T B S depth b (recordRequest f.1 code "opening stock")) b
      b.postOpeningStockDelta S [(code, values.sum)] true

/-- What lots hold on the accounts they record. -/
def removedValues (rows : List (String × Dict)) : Except Raised (List (String × ℚ)) :=
  rows.foldlM (fun values f => do
    let held ← StoredItem.heldValue T f.2
    .ok (match held, recordedAccount T f.2 with
      | some value, some code => Amounts.add code value values
      | _, _ => values)) []

/-- `remove_opening_lots` -/
def LotLedger.removeOpeningLots (b : LotLedger) (ids : List String) : Except EmitRefusal LotLedger :=
  if ids.isEmpty || !S.accounting then .ok b
  else do
    let values ← (removedValues T (b.rows ids)).mapError .raised
    b.postOpeningStockDelta S values false

/-- `erase_items` -/
def LotLedger.eraseItems (b : LotLedger) (ids : List String) : LotLedger :=
  { b with
    lots := b.lots.filter fun f => f.1 ∉ ids
    distinct := b.distinct.sublist (List.filter_sublist.map _) }

/-- `delete_demo_items` -/
def LotLedger.deleteDemoItems (b : LotLedger) (ids : List String) : Except EmitRefusal LotLedger :=
  if ids.isEmpty then .ok b
  else do
    S.removable ids
    let b ← b.removeOpeningLots T S ids
    .ok (b.eraseItems ids)

/-! ## Moves -/

/-- `_move`: the event of each lot, and the entry of what each account receives and gives. -/
def LotLedger.moveLots (depth : ℕ) (b : LotLedger) (moves : List LotMoved) (moveId request : String) :
    Except EmitRefusal LotLedger := do
  let moving ← moves.foldlM (fun (moving : LotLedger × List (String × ℚ)) m => do
    let value ← (StoredItem.bookedValue T S.currency ((Dicts.get? b.lots m.lot).getD [])).mapError .raised
    let b ← emitItem T B S depth moving.1 (movedRequest m moveId)
    .ok (b, Amounts.add m.fromAccount (-value) (Amounts.add m.toAccount value moving.2))) (b, [])
  let net := moving.2.insertionSort (·.1 ≤ ·.1)
  let lines := (net.filter (0 < ·.2)).map (fun v => .debitOf v.1 v.2) ++
    (net.filter (·.2 < 0)).map fun v => .creditOf v.1 (-v.2)
  let b ← (if lines.isEmpty then .ok moving.1 else moving.1.post S lines)
  .ok { b with moves := Dicts.set b.moves moveId (request, moves) }

/-- `_move_lots`: a move made before is not made again. -/
def LotLedger.moveLotAccounts (depth : ℕ) (b : LotLedger) (ids : List String) (code moveId request : String) :
    Except EmitRefusal LotLedger :=
  match Dicts.get? b.moves moveId with
  | some done => if done.1 = request then .ok b else .error (.refused 409 "older_stock.move.key_reused")
  | none => do
    let rows := b.rows ids
    if code = "" then .error (.refused 422 "posting.choose_account")
    else if ¬∀ id ∈ ids, id ∈ Dicts.keys b.lots then .error (.refused 404 "posting.older_stock.no_item")
    else do
      S.movable ids code
      if rows.any fun f => !inStock T f.2 then .error (.refused 422 "older_stock.move.not_placed")
      else do
        let accounts ← rows.mapM fun f => match recordedAccount T f.2 with
          | some recorded => .ok (⟨f.1, recorded, code⟩ : LotMoved)
          | none => .error (.refused 422 "older_stock.move.not_placed")
        let moves := accounts.filter fun m => m.fromAccount ≠ code
        if moves.isEmpty then .ok b else b.moveLots T B S depth moves moveId request

/-- The id of a move's undoing. -/
def undoId (moveId : String) : String := moveId ++ ":undo"

/-- `undo_lot_move` -/
def LotLedger.undoLotMove (depth : ℕ) (b : LotLedger) (moveId : String) : Except EmitRefusal LotLedger :=
  match Dicts.get? b.moves moveId with
  | none => .error (.refused 404 "older_stock.undo.no_move")
  | some done =>
    if (Dicts.get? b.moves (undoId moveId)).isSome then .error (.refused 409 "older_stock.undo.done")
    else if ¬∀ m ∈ done.2, m.lot ∈ Dicts.keys b.lots then .error (.refused 404 "posting.older_stock.no_item")
    else if done.2.any fun m =>
        let state := (Dicts.get? b.lots m.lot).getD []
        recordedAccount T state ≠ some m.toAccount || !inStock T state then
      .error (.refused 409 "older_stock.undo.moved_since")
    else do
      S.movable (done.2.map (·.lot)) ""
      b.moveLots T B S depth (done.2.map fun m => ⟨m.lot, m.toAccount, m.fromAccount⟩) (undoId moveId) ""

end

/-! ## Runs -/

/-- What is done to the books of lots. -/
inductive LotStep where
  | event (r : Request)
  | recognize (ids : List String)
  | deleteSamples (ids : List String)
  | move (ids : List String) (code moveId request : String)
  | undo (moveId : String)

/-- One step, under the rules there are then. -/
def LotLedger.step (T : Texts) (B : Build) (S : StockRules) (depth : ℕ) (b : LotLedger) : LotStep → Except EmitRefusal LotLedger
  | .event r => b.emitItem T B S depth r
  | .recognize ids => b.recognizeOpeningLots T B S depth ids
  | .deleteSamples ids => b.deleteDemoItems T S ids
  | .move ids code moveId request => b.moveLotAccounts T B S depth ids code moveId request
  | .undo moveId => b.undoLotMove T B S depth moveId

end Celerp
