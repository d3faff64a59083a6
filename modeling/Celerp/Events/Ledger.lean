/-
  The ledger of events and the projections it gives (`celerp/projections/engine.py`,
  `celerp/projections/retired.py`, `celerp/projections/handlers/system.py`).

  An event's projection is made by the handler that owns its type (`replayHandler`): a retired
  handler, the kernel's own, the handler of the module that owns its prefix, or a plain merge.
  Which modules are there is a `Build`.

  `rebuild` replaces the projections of companies with a replay of their entries.

  The columns a projection is searched by are read off its state (`Columns`); how a text is
  read as an id or a time is a parameter.  The times a row was made and changed are left out.
-/
import Celerp.Lib.EventLog
import Celerp.Lib.Json
import Mathlib.Data.List.Dedup
import Mathlib.Data.List.Sort
import Mathlib.Data.String.Basic

namespace Celerp

open Json

/-- `s.startswith(p)` -/
def startsWith (s p : String) : Bool := p.toList.isPrefixOf s.toList

/-! ## Handlers -/

/-- A handler: what an event of a type makes of a state. -/
abbrev Handler := Dict → String → Dict → Except Raised Dict

/-- `_merge` -/
def mergeEvent : Handler := fun state _ data => .ok (Dicts.update state data)

/-- `RETIRED` -/
def RETIRED_EVENTS : List (String × Handler) :=
  [("bom.created", fun state _ data =>
      .ok (Dicts.update (Dicts.set (Dicts.update [("components", .arr [])] state) "entity_type" (.str "bom")) data)),
   ("bom.updated", fun state _ data => .ok (Dicts.update state data)),
   ("bom.deleted", fun state _ _ => .ok (Dicts.set state "deleted" (.bool true)))]

/-- `MERGE_EVENTS` -/
def MERGE_EVENTS : List String :=
  ["payment_batch.recorded", "line_action.recorded", "sub.created", "sub.updated", "sub.paused", "sub.cancelled",
   "sub.resumed", "sub.generated", "sub.expired"]

/-- `_KERNEL_PREFIX` -/
def KERNEL_PREFIX : String := "sys."

/-- The fields a system event sets before those of its data, and after them. -/
def systemEvent (state : Dict) (kind : String) (before after : Dict) (data : Dict) : Dict :=
  Dicts.update (Dicts.update (Dicts.update (Dicts.set state "entity_type" (.str kind)) before) data) after

/-- `[*xs, x]` -/
def appended (v : Json) (x : Dict) : Except Raised Json := do
  let items ← v.iterate
  .ok (.arr (items ++ [.obj x]))

/-- `apply_system_event` -/
def applySystemEvent : Handler := fun state eventType data =>
  match eventType with
  | "sys.company.created" => .ok (systemEvent state "company" [] [] data)
  | "sys.user.created" => .ok (systemEvent state "user" [] [("is_active", .bool true)] data)
  | "sys.user.deactivated" => .ok (systemEvent state "user" [("is_active", .bool false)] [] data)
  | "sys.api_key.created" => .ok (systemEvent state "api_key" [("status", .str "active")] [] data)
  | "sys.api_key.revoked" => .ok (systemEvent state "api_key" [("status", .str "revoked")] [] data)
  | "sys.backup.created" => .ok (systemEvent state "backup" [] [] data)
  | "sys.migration.applied" => .ok (systemEvent state "migration" [] [] data)
  | "sys.older_stock.placed" => .ok (systemEvent state "older_stock_placement" [] [] data)
  | "sys.older_stock.corrected" => do
    let recognized ← item data "recognized"
    let unresolved ← item data "unresolved"
    let corrections ← appended ((Dicts.get? state "corrections").getD (.arr [])) data
    .ok (Dicts.set (Dicts.set (Dicts.set state "recognized" recognized) "unresolved" unresolved) "corrections" corrections)
  | _ => .error (.valueError ("Unsupported system event: " ++ eventType))

/-- What this process has loaded: the prefixes of event types, each with its handler. -/
structure Build where
  handlers : List (String × Handler)

/-- `_replay_handler` -/
def Build.replayHandler (B : Build) (eventType : String) : Option Handler :=
  match Dicts.get? RETIRED_EVENTS eventType with
  | some h => some h
  | none =>
    if startsWith eventType KERNEL_PREFIX then some applySystemEvent
    else match B.handlers.find? fun f => startsWith eventType f.1 with
      | some f => some f.2
      | none => if eventType ∈ MERGE_EVENTS then some mergeEvent else none

/-- `ProjectionEngine.replayable` -/
def Build.replayable (B : Build) (eventType : String) : Bool := (B.replayHandler eventType).isSome

/-- `ProjectionEngine._apply` -/
def Build.apply (B : Build) (state : Dict) (eventType : String) (data : Dict) : Except Raised Dict :=
  match B.replayHandler eventType with
  | some h => h state eventType data
  | none => .error (.valueError ("No enabled module applies " ++ eventType ++ " events"))

/-! ## Rows -/

/-- `LedgerEntry` -/
structure LedgerEntry where
  id : ℕ
  companyId : String
  entityId : String
  entityType : String
  eventType : String
  data : Dict
  source : String
  idempotencyKey : String
  metadata : Dict

/-- How a projection's columns are read off its state: a text as an id, and as a time. -/
structure ColumnReadings where
  uuid : String → Option String
  instant : String → Option String

/-- The columns a projection is searched by. -/
structure Columns where
  locationId : Json
  isOnMemo : Json
  isOnMarketplace : Json
  isSyncToShopify : Json
  isInProduction : Json
  isExpired : Json
  expiresAt : Json
  consignmentFlag : Json

/-- A text as a reading has it, nothing where it cannot; any other value as it is. -/
def readText (reading : String → Option String) : Json → Json
  | .str s =>
    match reading s with
    | some t => .str t
    | none => .null
  | v => v

/-- The columns of a state (`_next_fields`). -/
def columnsOf (R : ColumnReadings) (state : Dict) : Columns where
  locationId := readText R.uuid (get state "location_id")
  isOnMemo := get state "is_on_memo"
  isOnMarketplace := get state "is_on_marketplace"
  isSyncToShopify := get state "is_sync_to_shopify"
  isInProduction := get state "is_in_production"
  isExpired := get state "is_expired"
  expiresAt := readText R.instant (get state "expires_at")
  consignmentFlag := get state "consignment_flag"

/-- `Projection`, without its key: the company and the record. -/
structure Projection where
  entityType : String
  state : Dict
  version : ℕ
  columns : Columns

/-- The key of a projection. -/
abbrev RecordKey := String × String

def LedgerEntry.key (e : LedgerEntry) : RecordKey := (e.companyId, e.entityId)

/-- `ITEM_BIRTHS` -/
def ITEM_BIRTHS : List String := ["item.created", "item.snapshot"]

section
variable (R : ColumnReadings) (B : Build)

/-- The state an entry finds. -/
def stateBefore : Option Projection → Dict
  | some p => p.state
  | none => []

/-- The type of a record, of the entry that made it. -/
def recordType (e : LedgerEntry) : Option Projection → String
  | some p => p.entityType
  | none => e.entityType

/-- The version a row keeps where an entry has no id. -/
def fallbackVersion : Option Projection → ℕ
  | some p => p.version
  | none => 0

/-- `_write`: the row an entry makes of the row there is. -/
def writeRow (projection : Option Projection) (e : LedgerEntry) : Except Raised Projection := do
  let next ← B.apply (stateBefore projection) e.eventType e.data
  .ok {
    entityType := recordType e projection
    state := next
    version := if e.id ≠ 0 then e.id else fallbackVersion projection
    columns := columnsOf R next }

/-- `_changes_missing_item` -/
def changesMissingItem (projection : Option Projection) (e : LedgerEntry) : Bool :=
  projection.isNone && e.entityType = "item" && e.eventType ∉ ITEM_BIRTHS

/-- The entries of the ledger on the projections, as a rebuild plays them. -/
def replayPlay : EventLog.Play RecordKey Projection LedgerEntry Raised where
  key := LedgerEntry.key
  skips := changesMissingItem
  write := writeRow R B

end

/-! ## The tables -/

/-- The ledger and the projections, with the last value of the ledger's sequence and, by
    company, the connector identities of erased items. -/
structure Store where
  ledger : List LedgerEntry := []
  projections : List (RecordKey × Projection) := []
  seq : ℕ := 0
  erased : List (String × String) := []

namespace Store
variable (s : Store)

/-- The projection of a record. -/
def projection? (companyId entityId : String) : Option Projection := Dicts.get? s.projections (companyId, entityId)

/-- The state of a company's item, where the record is one. -/
def itemState? (companyId entityId : String) : Option Dict :=
  match s.projection? companyId entityId with
  | some p => if p.entityType = "item" then some p.state else none
  | none => none

/-- `find_event_by_idempotency`, of any key -/
def findEvent (companyId key : String) : Option LedgerEntry :=
  s.ledger.find? fun e => e.companyId = companyId && e.idempotencyKey = key

/-- `ProjectionEngine.unreplayable`, of some companies -/
def unreplayable (B : Build) (companies : List String) : List String :=
  (((s.ledger.filter (·.companyId ∈ companies)).map (·.eventType)).dedup.filter (!B.replayable ·)).insertionSort (· ≤ ·)

end Store

/-- Why a rebuild is refused. -/
inductive RebuildRefusal where
  /-- `UnhandledEventsError` -/
  | unhandledEvents (eventTypes : List String)
  | raised (r : Raised)

/-- `ProjectionEngine.rebuild` -/
def Store.rebuild (R : ColumnReadings) (B : Build) (s : Store) (companies : List String) : Except RebuildRefusal Store :=
  match s.unreplayable B companies with
  | [] => do
    let kept := s.projections.filter fun f => f.1.1 ∉ companies
    let entries := (s.ledger.filter fun e => e.companyId ∈ companies).insertionSort (·.id ≤ ·.id)
    let projections ← ((replayPlay R B).playAll kept entries).mapError .raised
    .ok { s with projections }
  | unknown => .error (.unhandledEvents unknown)

end Celerp
