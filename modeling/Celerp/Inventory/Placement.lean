/-
  Placing older stock (`celerp/services/lot_origin.py`).

  Stock from before lots recorded their inventory account is placed on one default
  account, against what the inventory accounts hold beyond the stock recorded on them.

  * `room` is what an account holds as stock beyond the lots recorded on it;
  * `unexplained` is the part of a difference that no reading of the lines that may or
    may not have been stock explains;
  * `place` is `_place`: the default account, the entry that moves what the other accounts
    hold onto it, the opening stock recognized, and the placement record;
  * `stockOffBooks` is what the books check reports about stock.
-/
import Celerp.Accounts.PostingRoles
import Celerp.Lib.Spread
import Celerp.Sales.Claims
import Mathlib.Data.List.MinMax

namespace Celerp

open AccountRole Grouping

/-! ## The books -/

/-- A line of a posted entry, with what its entry was posted for. -/
structure PostedLine extends RoleLine where
  jeId : String
  trigger : Option String
  deriving DecidableEq, Repr

/-- What a claim of a finalized invoice on goods on hand says of their cost. -/
structure StockClaim where
  /-- the lot that holds the goods -/
  lotId : String
  /-- the posting key the allocation or the finalize entry names -/
  key : Option String
  /-- the lot the goods were allocated from -/
  allocated : String
  amount : ℚ
  onHand : ℚ
  deriving DecidableEq, Repr

/-- How a placement met the books. -/
inductive Classification where
  | openingStock
  | unresolved
  | provisional
  | uncertain
  | transfer
  | exact
  deriving DecidableEq, Repr

/-- A placement record. -/
structure Placement where
  placement : String
  count : ℕ
  value : ℚ
  account : String
  rooms : List (String × ℚ)
  transferred : ℚ
  recognized : ℚ
  unresolved : ℚ
  provisional : ℚ
  classification : Classification
  journal : List String
  deriving DecidableEq, Repr

/-- What placing and checking stock read of a company. -/
structure StockBooks where
  companyId : String
  roles : PostingRoles
  /-- none where Accounting is not running -/
  chart : Option Chart
  currency : String
  /-- `period_open`, of today -/
  periodOpen : Bool
  /-- `books_from_elsewhere` -/
  fromElsewhere : Bool
  items : Items
  entries : List PostedLine
  claims : List StockClaim
  placements : List Placement
  /-- the lots an event recorded the account of -/
  recorded : List String

/-- The members of a list, each where it first stands (`dict.fromkeys`). -/
def distinct (l : List String) : List String := keysOf id l

/-! ## Lots -/

/-- `_owned_stock` -/
def ownedStock (row : ItemRow) : Bool :=
  !row.state.consignedIn && !row.consignedIn && row.state.isStockType

/-- `_legacy`: a lot of the company's own stock that has held stock and records no
    account. -/
def isLegacy (row : ItemRow) : Bool :=
  row.state.inventoryAccount = none ∧ ownedStock row ∧ row.state.status.toLower ≠ "draft"

/-- `booked_value`: what a lot's account carries for it. -/
def bookedValue (currency : String) (row : ItemRow) : ℚ := roundMoney ((heldValue row).getD 0) currency

/-- `awaits_account` -/
def awaitsAccount (row : ItemRow) : Bool :=
  row.state.inventoryAccount = none ∧ (heldValue row).getD 0 ≠ 0

/-- A row with its account recorded, if its lot is among those it is recorded for. -/
def ItemRow.recordAccount (ids : List String) (code : String) (row : ItemRow) : ItemRow :=
  if row.entityId ∈ ids then { row with state := { row.state with inventoryAccount := some code } } else row

@[simp] theorem ItemRow.recordAccount_entityId (ids : List String) (code : String) (row : ItemRow) :
    (row.recordAccount ids code).entityId = row.entityId := by
  unfold ItemRow.recordAccount
  split_ifs <;> rfl

/-- The lots with the account of some of them recorded. -/
def Items.recordAccount (items : Items) (ids : List String) (code : String) : Items where
  rows := items.rows.map (ItemRow.recordAccount ids code)
  nodup := by
    rw [List.map_map]
    simpa only [Function.comp_def, ItemRow.recordAccount_entityId] using items.nodup

/-! ## Cost recognized and not shipped -/

/-- `split_party_key`: the account of a posting key. -/
def partyCode (key : String) : String := String.ofList (key.toList.takeWhile (· ≠ '|'))

/-- The key a claim is read under (`_allocated_lot_key`). -/
def StockClaim.keyIn (items : Items) (c : StockClaim) : String :=
  match c.key with
  | some key => key
  | none => ((items.get? c.allocated).bind (·.state.inventoryAccount)).getD UNPLACED

/-- What each claim takes: no more than its lot still holds after the claims before it. -/
def claimTakes (left : String → Option ℚ) : List StockClaim → List (StockClaim × ℚ)
  | [] => []
  | c :: claims =>
    let room := (left c.lotId).getD c.onHand
    let take := max 0 (min c.amount room)
    (c, take) :: claimTakes (Function.update left c.lotId (some (room - take))) claims

/-- `recognized_unshipped`: the cost recognized for goods not shipped, by account. -/
def recognizedUnshipped (items : Items) (claims : List StockClaim) : List (String × ℚ) :=
  Amounts.ofList ((claimTakes (fun _ => none) claims).map fun t => (partyCode (t.1.keyIn items), t.2))

namespace StockBooks
variable (b : StockBooks)

/-- `sold` of an account. -/
def sold (code : String) : ℚ := Amounts.get code (recognizedUnshipped b.items b.claims)

/-- `unresolved_differences` -/
def unresolvedDifferences : List (String × ℚ) :=
  (Amounts.ofList ((b.placements.filter (·.unresolved ≠ 0)).map fun p => (p.account, p.unresolved))).filter
    (·.2 ≠ 0)

/-! ## Rooms and the lines that may have been stock -/

/-- `_stock_balance`: the balance of an account from its stock lines. -/
def stockBalance (code : String) : ℚ :=
  net code ((b.entries.filter fun l => stockLine b.roles l.toRoleLine).map (·.toLine))

/-- `_room`: what an account holds as stock beyond the lots recorded on it, less the cost
    recognized on goods not shipped and the difference left on it. -/
def room (rows : List ItemRow) (code : String) : ℚ :=
  b.stockBalance code
    - ((rows.filter (·.state.inventoryAccount = some code)).map (bookedValue b.currency)).sum
    + roundMoney (b.sold code) b.currency - Amounts.get code b.unresolvedDifferences

/-- `PAYMENT_TRIGGER` -/
def PAYMENT_TRIGGER : String := "doc.payment."

/-- The entries posted as a payment among those with lines that may have been stock. -/
def paidEntries : List String :=
  (b.entries.filter fun l => uncertainStockLine b.roles l.toRoleLine ∧
    l.trigger.any fun trigger => PAYMENT_TRIGGER.toList.isPrefixOf trigger.toList).map (·.jeId)

/-- `evidence_entries`: the lines, less those of entries posted as a payment. -/
def evidenceEntries : List PostedLine := b.entries.filter (·.jeId ∉ b.paidEntries)

/-- `_uncertain_lines`: the lines on some accounts that may have been stock. -/
def uncertainLines (codes : List String) : List PostedLine :=
  b.evidenceEntries.filter fun l => l.account ∈ codes ∧ uncertainStockLine b.roles l.toRoleLine

/-- What those lines move. -/
def uncertainMoves (codes : List String) : List ℚ := (b.uncertainLines codes).map (·.amount)

/-- `unexplained`: the part of a difference no reading of those lines explains. -/
def unexplained (codes : List String) (gap : ℚ) : ℚ := Spread.nearest gap (b.uncertainMoves codes)

/-- `stock_accounts`: every account a line was posted to as stock. -/
def stockAccounts : List String :=
  distinct ((b.entries.filter fun l => l.account ≠ "" ∧ stockLine b.roles l.toRoleLine).map (·.account))

/-! ## What a placement reads -/

/-- The lots to place. -/
def pending : List ItemRow :=
  ((b.items.rows.filter isLegacy).insertionSort (·.entityId ≤ ·.entityId)).filter (·.entityId ∉ b.recorded)

/-- The accounts that serve or have served an inventory role. -/
def inventoryScope : List String :=
  distinct (b.roles.scopeList inventoryPurchased ++ b.roles.scopeList inventoryOpening)

/-- The current inventory accounts that can take entries. -/
def usable (chart : Chart) : List String :=
  distinct (([inventoryPurchased, inventoryOpening].filter fun role =>
    !b.roles.targetProblem chart role).filterMap fun role => b.roles.roleMap.lookup role)

/-- The other accounts that hold or may hold stock. -/
def counted (chart : Chart) : List String :=
  (distinct ((b.roles.roleMap.lookup inventoryPurchased).toList ++
    (b.roles.roleMap.lookup inventoryOpening).toList ++ b.inventoryScope ++ b.stockAccounts)).filter
    fun c => c ≠ "" ∧ (chart.get? c).isSome ∧ c ∉ b.usable chart

/-- Whether opening inventory is looked at first. -/
def openingFirst : Bool :=
  b.fromElsewhere || b.entries.all fun l => b.roles.roleMap.lookup inventoryPurchased ≠ some l.account

/-- The accounts the stock may be placed on. -/
def candidates (chart : Chart) : List String :=
  if b.openingFirst then
    (b.usable chart).filter (b.roles.roleMap.lookup inventoryOpening = some ·) ++
      (b.usable chart).filter (b.roles.roleMap.lookup inventoryOpening ≠ some ·)
  else b.usable chart

/-- The accounts whose rooms are read. -/
def counts (chart : Chart) : List String := b.candidates chart ++ b.counted chart

/-- The room of an account, in money. -/
def roomOf (code : String) : ℚ := roundMoney (b.room b.items.rows code) b.currency

/-- The balance of the lines on an account that may have been stock, in money. -/
def uncertainOn (code : String) : ℚ := roundMoney (b.uncertainMoves [code]).sum b.currency

/-- The cost invoices took off the books of no one account. -/
def provisional : ℚ := roundMoney (b.sold UNPLACED) b.currency

/-- The value of the lots to place. -/
def olderValue : ℚ := roundMoney (b.pending.map (bookedValue b.currency)).sum b.currency

/-- What the books owe the lots. -/
def owed : ℚ := b.olderValue - b.provisional

/-- The default account: a candidate holding exactly what is owed, else the one holding
    most, else the first usable one. -/
def defaultAccount (chart : Chart) : Option String :=
  match (b.candidates chart).find? (b.roomOf · = b.owed) with
  | some code => some code
  | none =>
    match (b.candidates chart).argmax fun c => b.roomOf c + b.uncertainOn c with
    | none => none
    | some most => if 0 < b.roomOf most + b.uncertainOn most then some most else (b.usable chart).head?

/-- What the other accounts hold. -/
def moved (chart : Chart) (target : String) : List (String × ℚ) :=
  ((b.counts chart).filter fun c => c ≠ target ∧ b.roomOf c ≠ 0).map fun c => (c, b.roomOf c)

/-- What the accounts hold together beyond what is owed. -/
def pooled (chart : Chart) : ℚ := ((b.counts chart).map b.roomOf).sum - b.owed

/-- The part of that no uncertain line explains, in money. -/
def gap (chart : Chart) : ℚ := roundMoney (b.unexplained (b.counts chart) (b.pooled chart)) b.currency

/-- Whether an inventory account that cannot take entries holds value to be moved off it. -/
def stuck (chart : Chart) (target : String) : Bool :=
  [inventoryPurchased, inventoryOpening].any fun role => b.roles.targetProblem chart role ∧
    (b.roles.roleMap.lookup role).any (· ∈ (b.moved chart target).map Prod.fst)

end StockBooks

/-! ## Lines -/

/-- `_origin_line`: a line continuing a balance on the account it was recognized on. -/
def originLine (roles : PostingRoles) (code : String) (role : AccountRole) (debit credit : ℚ) : RoleLine where
  account := code
  debit := debit
  credit := credit
  fx := none
  accountRoles := if code ∈ roles.scopeList role then some [role.value] else none

/-- `_lot_line`: a line moving a lot's value on the account the lot recorded. -/
def lotLine (roles : PostingRoles) (key : String) (debit credit : ℚ) : RoleLine :=
  let code := partyCode key
  let role :=
    if code ∈ roles.scopeList consignorPayable then consignorPayable
    else if code ∈ roles.scopeList inventoryPurchased then inventoryPurchased
    else inventoryOpening
  originLine roles code role debit credit

/-- The entry that moves what the other accounts hold onto the default one. -/
def transferLines (roles : PostingRoles) (target : String) (moved : List (String × ℚ)) : List RoleLine :=
  let transferred := (moved.map Prod.snd).sum
  (if 0 < transferred then [lotLine roles target transferred 0] else []) ++
    (moved.filter (·.2 < 0)).map (fun m => lotLine roles m.1 (-m.2) 0) ++
    (moved.filter (0 < ·.2)).map (fun m => lotLine roles m.1 0 m.2) ++
    (if transferred < 0 then [lotLine roles target 0 (-transferred)] else [])

/-- The entry that books value on inventory accounts onto the books, or takes it off
    them, against retained earnings. -/
def openingLines (roles : PostingRoles) (values : List (String × ℚ)) (ontoBooks : Bool) (retained : String) :
    List RoleLine :=
  let total := (values.map Prod.snd).sum
  if ontoBooks then
    values.map (fun v => lotLine roles v.1 v.2 0) ++ [⟨.creditOf retained total, some [retainedEarnings.value]⟩]
  else
    ⟨.debitOf retained total, some [retainedEarnings.value]⟩ :: values.map (fun v => lotLine roles v.1 0 v.2)

/-- `prepare_journal_entry`: a line with its roles checked, or recorded where it names
    none. -/
def prepareLine (roles : PostingRoles) (chart : Chart) (l : RoleLine) : Option RoleLine :=
  if l.account = "" then some l
  else if (chart.get? l.account).isNone then none
  else match l.accountRoles with
    | none => some { l with accountRoles := some (roles.rolesForAccount l.account) }
    | some names =>
      let served (name : String) : Bool := (ofValue? name).any fun role =>
        if roles.roleMap.lookup role = some l.account then !roles.targetProblem chart role
        else l.account ∈ roles.scopeList role
      if names.all served then some l else none

namespace StockBooks
variable (b : StockBooks)

/-- `_emit_auto_posted_je`: the lines posted for an entry. -/
def postEntry (chart : Chart) (jeId trigger : String) (lines : List RoleLine) : Option (List PostedLine) := do
  let posted ← emitRoleLines b.currency lines
  let prepared ← posted.mapM (prepareLine b.roles chart)
  pure (prepared.map fun l => ⟨l, jeId, some trigger⟩)

/-- `post_opening_stock_delta` -/
def postOpeningStockDelta (chart : Chart) (jeId trigger : String) (values : List (String × ℚ))
    (ontoBooks : Bool) : Option (List PostedLine) :=
  let rounded := ((values.insertionSort (·.1 ≤ ·.1)).map fun v => (v.1, roundMoney v.2 b.currency)).filter (·.2 ≠ 0)
  if rounded = [] then some []
  else if b.roles.targetProblem chart retainedEarnings then none
  else do
    let retained ← b.roles.roleMap.lookup retainedEarnings
    b.postEntry chart jeId trigger (openingLines b.roles rounded ontoBooks retained)

/-! ## Placing -/

/-- `_placement_entry` -/
def placementEntry (pid part : String) : String := "je:auto:older-stock-placed:" ++ pid ++ ":" ++ part

/-- `_classify` -/
def classify (moved : Bool) (gap provisional : ℚ) (uncertain : Bool) : Classification :=
  if gap < 0 then .openingStock
  else if 0 < gap then .unresolved
  else if provisional ≠ 0 then .provisional
  else if uncertain then .uncertain
  else if moved then .transfer
  else .exact

/-- The record of a placement on an account. -/
def placementRecord (chart : Chart) (target pid : String) : Placement where
  placement := pid
  count := b.pending.length
  value := b.olderValue
  account := target
  rooms := (b.counts chart).map fun c => (c, b.roomOf c)
  transferred := ((b.moved chart target).map Prod.snd).sum
  recognized := max (-b.gap chart) 0
  unresolved := max (b.gap chart) 0
  provisional := b.provisional
  classification := classify (b.moved chart target ≠ []) (b.gap chart) b.provisional
    (b.uncertainLines (b.counts chart) ≠ [])
  journal := (if b.moved chart target = [] then [] else [placementEntry pid "transfer"]) ++
    (if b.gap chart < 0 then [placementEntry pid "opening"] else [])

/-- The entry that moves what the other accounts hold, if they hold anything. -/
def transferEntry (chart : Chart) (target pid : String) : Option (List PostedLine) :=
  if b.moved chart target = [] then some []
  else b.postEntry chart (placementEntry pid "transfer") "older_stock.placed"
    (transferLines b.roles target (b.moved chart target))

/-- The entry that recognizes opening stock, if the accounts fall short. -/
def openingEntry (chart : Chart) (target pid : String) : Option (List PostedLine) :=
  if b.gap chart < 0 then
    b.postOpeningStockDelta chart (placementEntry pid "opening") "older_stock.placed" [(target, -b.gap chart)] true
  else some []

/-- `_place`, with the hash of a text: the books once older stock is placed, none where
    there is none to place or it cannot be placed yet. -/
def place (hash : String → String) : Option StockBooks := do
  let chart ← b.chart
  if b.pending = [] then none
  else
    let target ← b.defaultAccount chart
    if b.stuck chart target ∨ b.gap chart < 0 ∧ b.roles.targetProblem chart retainedEarnings ∨ ¬b.periodOpen then
      none
    else
      let ids := b.pending.map (·.entityId)
      let pid := hash ("\n".intercalate (b.companyId :: ids))
      let transfer ← b.transferEntry chart target pid
      let opening ← b.openingEntry chart target pid
      pure { b with
        items := b.items.recordAccount ids target
        entries := b.entries ++ transfer ++ opening
        placements := b.placements ++ [b.placementRecord chart target pid]
        recorded := b.recorded ++ ids }

end StockBooks

/-! ## The books check -/

/-- What the books check reports about stock. -/
inductive StockFinding where
  | unplacedLot (entityId sku : String)
  | stockGap (account : String) (books stock : ℚ)
  | uncertainEvidence (account : String) (amount : ℚ) (entries : List String)
  | unresolvedDifference (account : String) (amount : ℚ)
  deriving DecidableEq, Repr

/-- Whether a finding is a difference on an account. -/
def StockFinding.isGap : StockFinding → Bool
  | .stockGap .. => true
  | _ => false

namespace StockBooks
variable (b : StockBooks)

/-- `_held_items`: the lots in stock. -/
def heldItems : List ItemRow := b.items.rows.filter (·.state.inStock)

/-- The inventory accounts, in order. -/
def inventoryCodes : List String := b.inventoryScope.insertionSort (· ≤ ·)

/-- `uncertain_evidence` -/
def uncertainEvidence (codes : List String) : List StockFinding :=
  (codes.filter fun c => b.uncertainLines [c] ≠ []).map fun c =>
    .uncertainEvidence c (b.uncertainOn c)
      ((distinct ((b.uncertainLines [c]).map (·.jeId))).insertionSort (· ≤ ·))

/-- The finding on an account, if its balance differs from the stock recorded on it. -/
def stockGapOn (code : String) : Option StockFinding :=
  let room := roundMoney (b.room b.heldItems code) b.currency
  let books := roundMoney (b.stockBalance code) b.currency
  if b.unexplained [code] room ≠ 0 then
    some (.stockGap code books (books - room - Amounts.get code b.unresolvedDifferences))
  else none

/-- `stock_off_books` -/
def stockOffBooks : List StockFinding :=
  ((b.heldItems.filter awaitsAccount).insertionSort (·.entityId ≤ ·.entityId)).map
      (fun row => .unplacedLot row.entityId row.state.sku) ++
    b.inventoryCodes.filterMap b.stockGapOn ++ b.uncertainEvidence b.inventoryCodes ++
    (b.unresolvedDifferences.insertionSort (·.1 ≤ ·.1)).map fun d => .unresolvedDifference d.1 d.2

end StockBooks

end Celerp
