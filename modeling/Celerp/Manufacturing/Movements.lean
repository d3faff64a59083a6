/-
  Movements of a production run (`celerp_manufacturing/movements.py`,
  `create_for_mfg_movement` in `celerp/services/auto_je.py`): issue, return, receive,
  undo receipt, complete and reopen.

  A `Plant` is a run with the lots it draws on and makes, and the entries it posted.
  Each movement checks the run and the lots, moves the stock, posts one entry
  (`createForMfgMovement`) and writes the run's event; what it is refused for is a
  `RunRefusal`.  `RunBooks` is what it reads of the company: the posting accounts and the
  chart may change between two movements.
-/
import Celerp.Accounts.PartyKeys
import Celerp.Inventory.Restatement
import Celerp.Manufacturing.Run

namespace Celerp

open AccountRole

/-! ## The plant -/

/-- What a movement is refused for. -/
inductive RunRefusal where
  | runClosed
  | runShape
  | outputShape
  | noOutput
  | notStock
  | reconcile
  | roleUnusable (role : AccountRole)
  | unbalanced
  | issueQuantity
  | notAnInput (item : String)
  | overIssue (item : String)
  | itemMissing (item : String)
  | itemUnavailable (item : String)
  | insufficientStock (item : String)
  | unitPrecision (item : String)
  | lotAccount (error : CogsError)
  | returnQuantity
  | overReturn (item : String)
  | returnAfterReceipt
  | returnLotUnavailable (item : String)
  | returnValue (item : String)
  | receiveQuantity
  | overReceipt
  | issueFirst
  | lotExists (lot : String)
  | issueRequired
  | wasteTwice
  | wasteAmbiguous
  | wasteUnit
  | overWaste (item : String)
  | wasteKept
  | unaccountedValue
  | outputGone (lot : String)
  | recostConflict (error : RestateRefusal)
  | reopenFirst
  | notAReceipt (lot : String)
  | outputChanged (lot : String)
  | notCompleted
  | reopenUnrecorded
  | movingUnits

/-- A check that refuses. -/
def refuseIf (p : Prop) [Decidable p] (e : RunRefusal) : Except RunRefusal Unit := if p then .error e else .ok ()

/-- An entry of the run: the movement that posted it, and its lines. -/
structure RunEntry where
  movement : String
  lines : List PartyLine
  deriving DecidableEq, Repr

/-- A run with the lots of its company and the entries it posted. -/
structure Plant where
  currency : String
  run : RunState
  lots : LotBooks
  /-- whether anything but the run, or the recording of its account, has changed a lot -/
  touched : String → Bool
  entries : List RunEntry

/-- What a movement reads of the company. -/
structure RunBooks where
  /-- Accounting is on -/
  on : Bool
  roles : PostingRoles
  chart : Chart
  /-- `listing_record`: a lot is listed for sale -/
  listed : String → Bool
  /-- `require_unit_precision`: a quantity is no finer than its item's unit -/
  precise : ItemState → ℚ → Bool
  /-- the unit a component is counted in -/
  unitOf : String → Option String
  /-- `require_moving_fits_units` of a run -/
  fitsUnits : RunState → Bool
  /-- `require_issued_before_complete` -/
  requireIssued : Bool

/-! ## Posting -/

/-- `resolve`: the account a role posts to. -/
def RunBooks.resolve (b : RunBooks) (role : AccountRole) : Except RunRefusal String :=
  match b.roles.roleMap.lookup role with
  | some code => if b.roles.targetProblem b.chart role then .error (.roleUnusable role) else .ok code
  | none => .error (.roleUnusable role)

/-- `continue_role`: the account a balance keeps moving on, if it still can. -/
def RunBooks.continueRole (b : RunBooks) (role : AccountRole) (code : Option String) : Except RunRefusal String :=
  match code with
  | some code =>
    if PostingRoles.targetProblem ⟨[(role, code)], b.roles.scopeList⟩ b.chart role then .error (.roleUnusable role)
    else .ok code
  | none => .error (.roleUnusable role)

/-- `_side` -/
def sideDebit (amount : ℚ) : ℚ := if 0 < amount then |amount| else 0

def sideCredit (amount : ℚ) : ℚ := if 0 < amount then 0 else |amount|

/-- The line of an amount on an account for one role. -/
def sideLine (account : String) (role : AccountRole) (amount : ℚ) : PartyLine :=
  ⟨⟨⟨account, sideDebit amount, sideCredit amount, none⟩, some [role.value]⟩, none⟩

/-- The lines of a movement: the lots' accounts, the work in progress and the waste, at
    the account it goes to. -/
def movementLines (roles : PostingRoles) (wipCode : Option String) (wip : ℚ) (lots : List (String × ℚ))
    (cogsCode : String) (waste : ℚ) : List PartyLine :=
  (((lots.insertionSort fun a b => a.1 ≤ b.1).filter fun p => p.2 ≠ 0).map fun p =>
      roles.lotLine p.1 (sideDebit p.2) (sideCredit p.2)) ++
    (if wip ≠ 0 then [sideLine (wipCode.getD "") workInProgress wip] else []) ++
    if waste ≠ 0 then [sideLine cogsCode cogs waste] else []

/-- The account waste goes to. -/
def RunBooks.wasteAccount (b : RunBooks) (waste : ℚ) : Except RunRefusal String :=
  if waste ≠ 0 then b.resolve cogs else .ok ""

/-- `create_for_mfg_movement`: the entry of a movement, if it moves anything. -/
def createForMfgMovement (b : RunBooks) (currency movement : String) (wipCode : Option String) (wip : ℚ)
    (lots : List (String × ℚ)) (waste : ℚ) : Except RunRefusal (List RunEntry) := do
  let cogsCode ← b.wasteAccount waste
  let lines := movementLines b.roles wipCode wip lots cogsCode waste
  if lines = [] then .ok []
  else match emitParty currency lines with
    | some posted => .ok [⟨movement, posted⟩]
    | none => .error .unbalanced

/-- `_Op.post`: nothing is posted where Accounting is off. -/
def RunBooks.post (b : RunBooks) (currency movement : String) (wipCode : Option String) (wip : ℚ)
    (lots : List (String × ℚ)) (waste : ℚ) : Except RunRefusal (List RunEntry) :=
  if b.on then createForMfgMovement b currency movement wipCode wip lots waste else .ok []

/-- The account the work in progress keeps moving on, where it moves. -/
def RunBooks.keepWip (b : RunBooks) (moves : Bool) (code : Option String) : Except RunRefusal (Option String) :=
  if b.on ∧ moves then (b.continueRole workInProgress code).map some else .ok code

/-! ## Lots -/

/-- `held_value` of a lot. -/
def CostedLot.held (lot : CostedLot) : Option ℚ := heldValue ⟨"", "", lot.state.consignedIn, lot.state.toLotState⟩

/-- What a lot records, rounded, or nothing where it is not held. -/
def CostedLot.bookedValue (currency : String) (lot : CostedLot) : ℚ := roundMoney (lot.held.getD 0) currency

/-- `lot_account` -/
def CostedLot.account (lot : CostedLot) : Except RunRefusal String :=
  (lotAccount lot.state.toLotState).mapError .lotAccount

namespace LotBooks
variable (b : LotBooks)

/-- A new lot. -/
def addLot (id : String) (lot : CostedLot) : Option LotBooks :=
  if h : id ∉ b.lots.map Prod.fst then
    some { b with
      lots := b.lots ++ [(id, lot)]
      nodup := by
        rw [List.map_append]
        exact List.nodup_append.2 ⟨b.nodup, List.nodup_singleton _, by
          intro a ha c hc
          obtain rfl := List.mem_singleton.1 hc
          rintro rfl
          exact h ha⟩ }
  else none

/-- `_lineage_end`: where a received lot's value is now. -/
def lineageEnd : ℕ → List String → String → Except RunRefusal CostedLot
  | 0, _, id => .error (.outputGone id)
  | fuel + 1, seen, id =>
    match b.get? id with
    | none => .error (.outputGone id)
    | some lot =>
      if id ∈ seen then .error (.outputGone id)
      else match mergedNext lot.state with
        | some next => lineageEnd fuel (id :: seen) next
        | none => if lot.state.status.toLower = "sold" ∨ lot.held.isSome then .ok lot else .error (.outputGone id)

end LotBooks

/-! ## What the run allows -/

namespace RunState
variable (s : RunState)

/-- The component of an item, the last line of its own. -/
def input? (item : String) : Option RunInput := s.inputs.reverse.find? (·.itemId = item)

/-- `outstanding_inputs`: the quantities still to issue. -/
def outstandingInputs : List (String × ℚ) :=
  (s.inputs.filter fun i => EPS < i.quantity - i.issuedQty).map fun i =>
    (i.itemId, roundDigits (i.quantity - i.issuedQty) 6)

/-- `outstanding_output`: the quantity still to receive. -/
def outstandingOutput : ℚ :=
  max 0 (roundDigits ((s.expectedOutputs.head?.elim 0 (·.quantity)) - s.receivedQty) 6)

/-- `_require_open` -/
def requireOpen : Except RunRefusal Unit :=
  if s.status = some .completed ∨ s.status = some .cancelled then .error .runClosed else .ok ()

/-- `_require_settled` -/
def requireSettled (b : RunBooks) : Except RunRefusal Unit :=
  if s.wipUnresolved ≠ none ∨ s.wipUntracked ∨ (b.on ∧ s.wip ≠ 0 ∧ s.wipAccountCode = none) then .error .reconcile
  else .ok ()

/-- `_require_one_output` -/
def requireOneOutput : Except RunRefusal Unit :=
  match s.expectedOutputs with
  | [out] => if 0 < out.quantity then .ok () else .error .outputShape
  | _ => .error .outputShape

end RunState

namespace Plant
variable (w : Plant) (b : RunBooks)

/-- `_require_executable_shape` -/
def requireExecutableShape : Except RunRefusal Unit := do
  refuseIf (w.run.inputs.any fun i => !decide (0 < i.quantity)) .runShape
  w.run.requireOneOutput
  match w.run.outputItemId with
  | none => .error .noOutput
  | some out =>
    if (w.lots.get? out).isNone then .error .noOutput
    else if (out :: w.run.inputs.map (·.itemId)).any fun i =>
        (w.lots.get? i).any fun lot => !lot.state.isStockType then .error .notStock
    else .ok ()

/-- An event of the run. -/
def emitRun (e : RunEvent) : Plant := { w with run := applyManufacturingEvent w.run e }

/-- Entries of the run. -/
def posted (entries : List RunEntry) : Plant := { w with entries := w.entries ++ entries }

/-- An event the run writes to a lot. -/
def writeLot (id : String) (e : ItemEvent) : Plant := { w with lots := w.lots.write id { event := e } }

end Plant

/-! ## Issue -/

/-- `_requested`: the request with each item once, or everything outstanding. -/
def RunState.requested (s : RunState) (items : List (String × ℚ)) : Except RunRefusal (List (String × ℚ)) :=
  if items = [] then .ok s.outstandingInputs
  else if items.any fun i => !decide (0 < i.2) then .error .issueQuantity
  else .ok ((mergeInputs items).map fun i => (i.1, roundDigits i.2 6))

/-- Whether an item is a component of the run with the quantity still to issue. -/
def RunState.checkWanted (s : RunState) (line : String × ℚ) : Except RunRefusal Unit :=
  if line.1 ∉ s.inputs.map (·.itemId) then .error (.notAnInput line.1)
  else if (s.outstandingInputs.reverse.lookup line.1).getD 0 + EPS < line.2 then .error (.overIssue line.1)
  else .ok ()

/-- Whether a component is stock the run can use: what it holds, rounded. -/
def checkIssue (w : Plant) (b : RunBooks) (line : String × ℚ) : Except RunRefusal ℚ :=
  match w.lots.get? line.1 with
  | none => .error (.itemMissing line.1)
  | some lot =>
    if !b.precise lot.state line.2 then .error (.unitPrecision line.1)
    else if !lot.state.isItemAvailable ∨ lot.state.statusDocId ≠ none ∨ lot.held = none then
      .error (.itemUnavailable line.1)
    else if lot.state.quantity - lot.state.reservedQuantity + EPS < line.2 then .error (.insufficientStock line.1)
    else if b.on ∧ lot.bookedValue w.currency ≠ 0 then lot.account.map fun _ => lot.bookedValue w.currency
    else .ok (lot.bookedValue w.currency)

/-- `cost_kept`: the cost a lot with landed pools keeps when it falls to a quantity. -/
def costKept (s : ItemState) (newQty : ℚ) (currency : String) : Option ℚ × Option Pools :=
  if s.landedCosts = [] ∨ s.quantity ≤ 0 ∨ ¬(0 < newQty ∧ newQty < s.quantity) then (none, none)
  else
    ((carve s.toLotCost (s.quantity - newQty) currency).restGoods,
      some (carve s.toLotCost (s.quantity - newQty) currency).restLanded)

/-- The event that consumes a quantity of a lot. -/
def consumption (s : ItemState) (quantity : ℚ) (currency : String) : ItemEvent :=
  .consumed quantity (costKept s (max 0 (s.quantity - quantity)) currency).1
    (costKept s (max 0 (s.quantity - quantity)) currency).2

/-- A lot once a quantity of it was consumed. -/
def CostedLot.consume (lot : CostedLot) (quantity : ℚ) (currency : String) : CostedLot :=
  { lot with
    state := (applyItemEvent roundBasis lot.state (consumption lot.state quantity currency)).getD lot.state }

/-- `value_moved`: what a lot's account gives up when a quantity is consumed. -/
def valueMoved (lot : CostedLot) (quantity : ℚ) (currency : String) : ℚ :=
  roundMoney lot.state.recordedValue currency -
    roundMoney (if (lot.consume quantity currency).held.isSome then (lot.consume quantity currency).state.recordedValue
      else 0) currency

/-- What the issue has moved so far: the lots' credits by account and its lines. -/
structure Issuing where
  plant : Plant
  credits : List (String × ℚ)
  items : List IssuedLine

/-- One line of an issue. -/
def Issuing.consume (b : RunBooks) (st : Issuing) (line : String × ℚ) : Except RunRefusal Issuing :=
  match st.plant.lots.get? line.1 with
  | none => .error (.itemMissing line.1)
  | some lot =>
    let moved := valueMoved lot line.2 st.plant.currency
    let next (credits : List (String × ℚ)) : Issuing :=
      ⟨st.plant.writeLot line.1 (consumption lot.state line.2 st.plant.currency), credits,
        st.items ++ [⟨line.1, line.2, some moved, !lot.state.goodsCostKnown⟩]⟩
    if moved ≠ 0 ∧ b.on then
      (lot.consume line.2 st.plant.currency).account.map fun code => next (Amounts.add code (-moved) st.credits)
    else .ok (next st.credits)

/-- What an issue took in all. -/
def issuedTotal (items : List IssuedLine) : ℚ := (items.map fun i => i.value.getD 0).sum

/-- The account a run's work in progress is kept on once something is issued. -/
def issueWip (b : RunBooks) (s : RunState) (befores : List ℚ) : Except RunRefusal (Option String) :=
  if b.on ∧ befores.any (· ≠ 0) then
    match s.wipAccountCode with
    | some code => (b.continueRole workInProgress (some code)).map some
    | none => (b.resolve workInProgress).map some
  else .ok s.wipAccountCode

/-- `_issue` -/
def Plant.doIssue (w : Plant) (b : RunBooks) (wanted : List (String × ℚ)) (key : String) : Except RunRefusal Plant := do
  wanted.forM (w.run.checkWanted)
  if wanted = [] then .ok w
  else do
    let befores ← wanted.mapM (checkIssue w b)
    let wipCode ← issueWip b w.run befores
    let st ← wanted.foldlM (Issuing.consume b) ⟨w, [], []⟩
    let entries ← b.post w.currency ("issue:" ++ key) wipCode (issuedTotal st.items) st.credits 0
    pure ((st.plant.posted entries).emitRun (.issued st.items (some (issuedTotal st.items))
      (if issuedTotal st.items ≠ 0 then wipCode else none)))

/-- `issue` -/
def Plant.issue (w : Plant) (b : RunBooks) (items : List (String × ℚ)) (key : String) : Except RunRefusal Plant := do
  w.run.requireOpen
  w.requireExecutableShape
  w.run.requireSettled b
  let wanted ← w.run.requested items
  w.doIssue b wanted key

/-! ## Return -/

/-- `_to_return` -/
def toReturn (s : RunState) (items : List (String × ℚ)) : Except RunRefusal (List (String × ℚ)) :=
  if items = [] then
    .ok ((s.inputs.filter fun i => EPS < i.issuedQty).map fun i => (i.itemId, roundDigits i.issuedQty 6))
  else if items.any fun i => !decide (0 < i.2) then .error .returnQuantity
  else .ok ((mergeInputs items).map fun i => (i.1, roundDigits i.2 6))

/-- Whether as much of a component was issued. -/
def checkReturned (s : RunState) (line : String × ℚ) : Except RunRefusal Unit :=
  match s.input? line.1 with
  | none => .error (.notAnInput line.1)
  | some inp => if inp.issuedQty + EPS < line.2 then .error (.overReturn line.1) else .ok ()

/-- The share of a component's recorded value a quantity of it carries, all of it when all
    is moved. -/
def RunInput.shareOf (inp : RunInput) (quantity : ℚ) (currency : String) (recorded : ℚ) : ℚ :=
  if inp.issuedQty - EPS ≤ quantity then recorded
  else roundMoney (recorded * quantity / inp.issuedQty) currency

/-- The value a quantity of a component takes back. -/
def returnedValue (w : Plant) (line : String × ℚ) : Except RunRefusal ValuedLine :=
  match (w.run.input? line.1).bind fun inp => inp.issuedValue.map (inp.shareOf line.2 w.currency) with
  | some value => .ok ⟨line.1, line.2, value⟩
  | none => .error .reconcile

/-- Whether a lot takes units back without value: it was never stock. -/
def CostedLot.offBooks (lot : CostedLot) (value : ℚ) : Bool := !lot.state.isStockType ∧ value = 0

/-- Whether a lot can take a component back. -/
def checkReturn (w : Plant) (b : RunBooks) (line : ValuedLine) : Except RunRefusal Unit :=
  match w.lots.get? line.itemId with
  | none => .error (.returnLotUnavailable line.itemId)
  | some lot =>
    if !lot.state.isItemAvailable ∨ lot.state.statusDocId ≠ none ∨ (lot.held = none ∧ !lot.offBooks line.value) then
      .error (.returnLotUnavailable line.itemId)
    else if !b.precise lot.state line.quantity then .error (.unitPrecision line.itemId)
    else if b.on ∧ line.value ≠ 0 then lot.account.map fun _ => ()
    else .ok ()

/-- The flag of `topped_up_cost`: whether a lot's goods cost is known once it takes value. -/
def toppedUpUnknown (s : ItemState) (added : ℚ) : Option Bool :=
  if s.goodsBasis = none ∧ added = 0 then none
  else if s.goodsCostEmpty then if s.goodsCostUnknown then some false else none
  else if !s.goodsCostKnown then some true
  else none

/-- What the return has moved so far. -/
structure Returning where
  plant : Plant
  debits : List (String × ℚ)

/-- One line of a return: the lot takes back its units, and exactly the value. -/
def Returning.giveBack (b : RunBooks) (st : Returning) (line : ValuedLine) : Except RunRefusal Returning :=
  match st.plant.lots.get? line.itemId with
  | none => .error (.returnLotUnavailable line.itemId)
  | some lot =>
    let quantity := lot.state.quantity + line.quantity
    if lot.offBooks line.value then
      .ok ⟨st.plant.writeLot line.itemId (.quantityAdjusted quantity none none none none), st.debits⟩
    else
      let target := lot.bookedValue st.plant.currency + line.value
      let plant := st.plant.writeLot line.itemId (.quantityAdjusted quantity
        (some (target - landed lot.state.landedCosts)) none (toppedUpUnknown lot.state line.value) none)
      match plant.lots.get? line.itemId with
      | none => .error (.returnLotUnavailable line.itemId)
      | some after =>
        if after.bookedValue st.plant.currency ≠ target then .error (.returnValue line.itemId)
        else if line.value ≠ 0 ∧ b.on then
          after.account.map fun code => ⟨plant, Amounts.add code line.value st.debits⟩
        else .ok ⟨plant, st.debits⟩

/-- What lines come to. -/
def totalValue (lines : List ValuedLine) : ℚ := (lines.map (·.value)).sum

/-- `_return` -/
def Plant.doReturn (w : Plant) (b : RunBooks) (wanted : List (String × ℚ)) (key : String) :
    Except RunRefusal Plant := do
  wanted.forM (checkReturned w.run)
  if wanted = [] then .ok w
  else if EPS < w.run.receivedQty ∨ w.run.receipts ≠ [] then .error .returnAfterReceipt
  else do
    let lines ← wanted.mapM (returnedValue w)
    lines.forM (checkReturn w b)
    let wipCode ← b.keepWip (totalValue lines ≠ 0) w.run.wipAccountCode
    let st ← lines.foldlM (Returning.giveBack b) ⟨w, []⟩
    let entries ← b.post w.currency ("return:" ++ key) wipCode (-totalValue lines) st.debits 0
    pure ((st.plant.posted entries).emitRun (.returned lines (totalValue lines)))

/-- `return_materials` -/
def Plant.returnMaterials (w : Plant) (b : RunBooks) (items : List (String × ℚ)) (key : String) :
    Except RunRefusal Plant := do
  w.run.requireOpen
  w.run.requireSettled b
  let wanted ← toReturn w.run items
  w.doReturn b wanted key

/-! ## Waste -/

/-- The closing details of a completion. -/
structure ClosingDetails where
  wasteItems : List (String × ℚ)
  wasteQuantity : Option ℚ
  wasteUnit : Option String
  wasteReason : Option String
  laborHours : Option ℚ

/-- Completion with nothing wasted. -/
def ClosingDetails.plain : ClosingDetails := ⟨[], none, none, none, none⟩

/-- `merge_waste`: each wasted component once, in component order. -/
def mergeWaste (items : List (String × ℚ)) : List (String × ℚ) :=
  (Amounts.ofList items).insertionSort fun a b => a.1 ≤ b.1

/-- Whether two units are the same, but for case and the blanks around them. -/
def sameUnit (a b : String) : Bool := a.trimAscii.toString.toLower = b.trimAscii.toString.toLower

/-- `_waste_request` -/
def wasteRequest (b : RunBooks) (s : RunState) (payload : ClosingDetails) : Except RunRefusal (List (String × ℚ)) :=
  if payload.wasteItems ≠ [] then
    if payload.wasteQuantity.isSome then .error .wasteTwice else .ok (mergeWaste payload.wasteItems)
  else match payload.wasteQuantity.filter (· ≠ 0) with
    | none => .ok []
    | some qty =>
      match (s.inputs.map (·.itemId)).dedup with
      | [item] =>
        match payload.wasteUnit.filter (· ≠ ""), (b.unitOf item).filter (· ≠ "") with
        | some given, some unit => if sameUnit given unit then .ok [(item, qty)] else .error .wasteUnit
        | _, _ => .ok [(item, qty)]
      | _ => .error .wasteAmbiguous

/-- Whether a wasted component is one of the run's, and as much of it was issued. -/
def checkWasteLine (s : RunState) (line : String × ℚ) : Except RunRefusal Unit :=
  match s.input? line.1 with
  | none => .error (.notAnInput line.1)
  | some inp => if inp.issuedQty + EPS < line.2 then .error (.overWaste line.1) else .ok ()

/-- `check_waste` -/
def checkWaste (s : RunState) (wasted : List (String × ℚ)) : Except RunRefusal (List (String × ℚ)) := do
  (mergeWaste wasted).forM (checkWasteLine s)
  pure (mergeWaste wasted)

/-- The value a wasted quantity of a component carried in. -/
def wastedValue (s : RunState) (currency : String) (line : String × ℚ) : Except RunRefusal ValuedLine :=
  match (s.input? line.1).bind fun inp => inp.issuedValue.map (inp.shareOf line.2 currency) with
  | some value => .ok ⟨line.1, line.2, value⟩
  | none => .error .reconcile

/-- `value_waste` -/
def valueWaste (s : RunState) (wasted : List (String × ℚ)) (currency : String) : Except RunRefusal (List ValuedLine) := do
  let lines ← checkWaste s wasted
  lines.mapM (wastedValue s currency)

/-! ## Complete -/

/-- `_restate`: the plant with a received lot's cost changed, and the account that carries
    the change. -/
def Plant.restate (w : Plant) (b : RunBooks) (lotId : String) (delta : ℚ) :
    Except RunRefusal (Plant × Option String) := do
  let lineageEnd ← w.lots.lineageEnd (w.lots.lots.length + 1) [] lotId
  let basis := ((w.lots.get? lotId).bind fun lot => lot.state.goodsBasis).getD 0
  let restated ← (w.lots.restateItemCost lotId (.costAdjusted (basis + delta) none)).mapError .recostConflict
  let plant := { w with
    lots := restated.2
    touched := fun id => w.touched id || restated.1.carried.any (·.lotId = id) }
  if b.on then lineageEnd.account.map fun code => (plant, some code) else pure (plant, none)

/-- What the change of the lots' cost has moved so far. -/
structure Restating where
  plant : Plant
  amounts : List (String × ℚ)

/-- The change of one lot. -/
def Restating.restateLot (b : RunBooks) (st : Restating) (lot : RestatedLot) : Except RunRefusal Restating :=
  (st.plant.restate b lot.lotItemId lot.delta).map fun r =>
    ⟨r.1, match r.2 with
      | some code => Amounts.add code lot.delta st.amounts
      | none => st.amounts⟩

/-- The receipts of some quantity. -/
def RunState.closingReceipts (s : RunState) : List Receipt := s.receipts.filter fun r => 0 < r.quantity

/-- The value of the receipts that keep theirs. -/
def keptValue (receipts : List Receipt) : ℚ := ((receipts.filter (·.fixed)).map (·.value)).sum

/-- The receipts whose lots take the final cost. -/
def liveReceipts (receipts : List Receipt) : List Receipt := receipts.filter (!·.fixed)

/-- What is wasted: what the components carried in, or all that no output is left to take. -/
def RunState.closingWaste (s : RunState) (waste : ℚ) : ℚ :=
  if s.closingReceipts ≠ [] ∧ liveReceipts s.closingReceipts = [] then
    s.wipIssued.getD 0 - keptValue s.closingReceipts
  else waste

/-- How the finished value is shared over the lots. -/
def RunState.closingShares (s : RunState) (waste : ℚ) (currency : String) : List ℚ :=
  if liveReceipts s.closingReceipts ≠ [] then
    allocateProRata (s.wipIssued.getD 0 - waste - keptValue s.closingReceipts)
      ((liveReceipts s.closingReceipts).map (·.quantity)) currency
  else []

/-- What each lot's cost changes by, where it does. -/
def RunState.restatedLots (s : RunState) (waste : ℚ) (currency : String) : List RestatedLot :=
  (((liveReceipts s.closingReceipts).zip (s.closingShares waste currency)).map fun p =>
    (⟨p.1.lotItemId, p.2 - p.1.value⟩ : RestatedLot)).filter fun lot => lot.delta ≠ 0

/-- `_close`: the plant once the run is completed. -/
def Plant.doClose (w : Plant) (b : RunBooks) (payload : ClosingDetails) (wasted : List (String × ℚ)) (key : String) :
    Except RunRefusal Plant := do
  let lines ← valueWaste w.run wasted w.currency
  refuseIf (w.run.wipIssued.getD 0 - keptValue w.run.closingReceipts < totalValue lines) .wasteKept
  let waste := w.run.closingWaste (totalValue lines)
  refuseIf (w.run.wipIssued.getD 0 - waste ≠ 0 ∧ w.run.closingReceipts = []) .unaccountedValue
  let st ← (w.run.restatedLots waste w.currency).foldlM (Restating.restateLot b) ⟨w, []⟩
  let wipCode ← b.keepWip (w.run.wip ≠ 0) w.run.wipAccountCode
  let entries ← b.post w.currency ("complete:" ++ key) wipCode (-w.run.wip) st.amounts waste
  pure ((st.plant.posted entries).emitRun (.completed {
    actualOutputs := some [⟨w.run.expectedOutputs.head?.elim "" (·.sku), w.run.receivedQty⟩]
    waste := if lines ≠ [] then some ⟨lines, payload.wasteUnit, payload.wasteReason⟩ else none
    laborHours := payload.laborHours
    transferred := some (w.run.wipIssued.getD 0 - waste)
    wasted := some waste
    closing := some ⟨w.run.wip, waste, w.run.restatedLots waste w.currency, b.on⟩ }))

/-! ## Receive -/

/-- The value a receipt takes: its share of what the run holds by the quantity still to
    come, everything where it is the last. -/
def RunState.receiptValue (s : RunState) (qty : ℚ) (currency : String) : ℚ :=
  if s.outstandingOutput - EPS ≤ qty then s.wip
  else roundMoney (s.wip * qty / s.outstandingOutput) currency

/-- The account a new lot of the run's output is kept on. -/
def RunBooks.newLotAccount (b : RunBooks) : Except RunRefusal (Option String) :=
  if b.on then (b.resolve inventoryPurchased).map some else .ok (b.roles.roleMap.lookup inventoryPurchased)

/-- The events of a new lot of output. -/
def outputEvents (s : RunState) (product : ItemState) (qty amount : ℚ) (code : Option String) : List ItemEvent :=
  [.created [.quantity 0, .sellBy product.sellBy, .inventoryType product.inventoryType, .costTotal (some amount),
      .inventoryAccount code, .goodsCostUnknown (s.inputs.any (·.goodsCostUnknown))],
    .produced qty]

/-- A lot from its events. -/
def CostedLot.ofEvents (sku : String) (events : List ItemEvent) : CostedLot where
  state := { (runItemEvents roundBasis .empty events).getD .empty with sku := sku }
  history := events.map fun e => { event := e }

/-- `_receive`: the plant once `qty` of the output is received as a lot of its own. -/
def Plant.doReceive (w : Plant) (b : RunBooks) (qty : ℚ) (lotId key : String) : Except RunRefusal Plant := do
  refuseIf (qty ≤ 0) .receiveQuantity
  refuseIf (w.run.outstandingOutput + EPS < qty) .overReceipt
  refuseIf (w.run.outstandingInputs ≠ []) .issueFirst
  match w.run.outputItemId.bind w.lots.get? with
  | none => .error .noOutput
  | some product =>
    if !b.precise product.state qty then .error (.unitPrecision (w.run.outputItemId.getD ""))
    else do
      let amount := w.run.receiptValue qty w.currency
      let code ← b.newLotAccount
      let wipCode ← b.keepWip (amount ≠ 0) w.run.wipAccountCode
      let lots ← (w.lots.addLot lotId (.ofEvents product.state.sku (outputEvents w.run product.state qty amount code))).elim
        (.error (.lotExists lotId)) .ok
      let entries ← b.post w.currency ("receive:" ++ key) wipCode (-amount) (code.toList.map fun c => (c, amount)) 0
      pure (({ w with lots := lots, touched := fun id => id ≠ lotId && w.touched id }.posted entries).emitRun (.received qty (some lotId) (some amount)))

/-- `receive`: a run whose output is fully received completes. -/
def Plant.receive (w : Plant) (b : RunBooks) (quantity : Option ℚ) (lotId key : String) : Except RunRefusal Plant := do
  w.run.requireOpen
  w.requireExecutableShape
  w.run.requireSettled b
  let w ← w.doReceive b (quantity.getD w.run.outstandingOutput) lotId key
  if w.run.outstandingOutput ≤ EPS then w.doClose b .plain [] ("receive:" ++ key) else .ok w

/-- `_all_wasted`: the waste is every component issued, all of it. -/
def allWasted (s : RunState) (wasted : List (String × ℚ)) : Bool :=
  wasted ≠ [] ∧ ∀ inp ∈ s.inputs, ((s.input? inp.itemId).elim 0 (·.issuedQty)) ≤
    (wasted.reverse.lookup inp.itemId).getD 0

/-- The run with everything outstanding issued, as its waste is checked against. -/
def RunState.fullyIssued (s : RunState) : RunState :=
  { s with inputs := s.inputs.map fun i => { i with issuedQty := max i.issuedQty i.quantity } }

/-- Issuing what is outstanding, as completion does. -/
def Plant.issueOutstanding (w : Plant) (b : RunBooks) (key : String) : Except RunRefusal Plant :=
  if w.run.outstandingInputs = [] then .ok w
  else if b.requireIssued then .error .issueRequired
  else w.doIssue b w.run.outstandingInputs (key ++ ":issue")

/-- What completion receives. -/
def RunState.completedQty (s : RunState) (quantity : Option ℚ) (wasted : List (String × ℚ)) : ℚ :=
  quantity.getD (if allWasted s wasted then 0 else s.outstandingOutput)

/-- Receiving what completion receives, if anything. -/
def Plant.receiveRest (w : Plant) (b : RunBooks) (qty : ℚ) (lotId key : String) : Except RunRefusal Plant :=
  if EPS < qty then w.doReceive b qty lotId (key ++ ":receive") else .ok w

/-- `complete`: issue what is outstanding, receive the output still to come, and close. -/
def Plant.complete (w : Plant) (b : RunBooks) (payload : ClosingDetails) (quantity : Option ℚ) (lotId key : String) :
    Except RunRefusal Plant := do
  w.run.requireOpen
  w.requireExecutableShape
  w.run.requireSettled b
  let wasted ← wasteRequest b w.run payload
  let _ ← checkWaste w.run.fullyIssued wasted
  let w ← w.issueOutstanding b key
  let w ← w.receiveRest b (w.run.completedQty quantity wasted) lotId key
  w.doClose b payload wasted key

/-! ## Undo -/

/-- `_require_untouched`: a lot this run produced, exactly as the run left it. -/
def Plant.untouched (w : Plant) (b : RunBooks) (lotId : String) (quantity value : ℚ) : Bool :=
  (w.lots.get? lotId).any fun lot =>
    !b.listed lotId && !w.touched lotId && decide (|lot.state.quantity - quantity| ≤ EPS) &&
      decide (lot.state.reservedQuantity ≤ EPS) && lot.state.statusDocId.isNone && lot.state.isItemAvailable &&
      lot.held.isSome && decide (lot.bookedValue w.currency = value)

/-- The account of a lot, where its value moves. -/
def Plant.accountOf (w : Plant) (b : RunBooks) (lotId : String) (value : ℚ) : Except RunRefusal (Option String) :=
  if b.on ∧ value ≠ 0 then
    match w.lots.get? lotId with
    | some lot => lot.account.map some
    | none => .error (.outputGone lotId)
  else .ok none

/-- `undo_receipt`: the lot a receipt made leaves stock and its value goes back. -/
def Plant.undoReceipt (w : Plant) (b : RunBooks) (lotId key : String) : Except RunRefusal Plant := do
  refuseIf (w.run.status = some .completed) .reopenFirst
  w.run.requireOpen
  w.run.requireSettled b
  match w.run.receipts.find? (·.lotItemId = lotId) with
  | none => .error (.notAReceipt lotId)
  | some receipt =>
    if !w.untouched b lotId receipt.quantity receipt.value then .error (.outputChanged lotId)
    else do
      let code ← w.accountOf b lotId receipt.value
      let wipCode ← b.keepWip (receipt.value ≠ 0) w.run.wipAccountCode
      let entries ← b.post w.currency ("unreceive:" ++ key) wipCode receipt.value
        (code.toList.map fun c => (c, -receipt.value)) 0
      pure ((((w.writeLot lotId (.quantityAdjusted 0 (some 0) none none none)).writeLot lotId
        (.statusSet "archived" {})).posted entries).emitRun (.receiptUndone lotId receipt.quantity receipt.value))

/-- What completion changed a lot's cost by. -/
def deltaOf (lots : List RestatedLot) (lotId : String) : ℚ :=
  (lots.reverse.find? (·.lotItemId = lotId)).elim 0 (·.delta)

/-- The lots completion changed, each once: of the records of one lot the last counts. -/
def lotsByItem (lots : List RestatedLot) : List RestatedLot :=
  lots.foldl (fun kept lot =>
    if lot.lotItemId ∈ kept.map (·.lotItemId) then kept.map fun l => if l.lotItemId = lot.lotItemId then lot else l
    else kept ++ [lot]) []

/-- Whether each lot the run produced is exactly as completion left it. -/
def Plant.checkLots (w : Plant) (b : RunBooks) (closing : Closing) : Except RunRefusal Unit :=
  (liveReceipts w.run.closingReceipts).forM fun r =>
    if w.untouched b r.lotItemId r.quantity (r.value + deltaOf closing.lots r.lotItemId) then .ok ()
    else .error (.outputChanged r.lotItemId)

/-- `reopen`: completion's own entry is reversed from what completion recorded. -/
def Plant.reopen (w : Plant) (b : RunBooks) (key : String) : Except RunRefusal Plant := do
  refuseIf (w.run.status ≠ some .completed) .notCompleted
  match w.run.closing.filter fun closing => closing.booked = b.on with
  | none => .error .reopenUnrecorded
  | some closing => do
    w.run.requireSettled b
    refuseIf (!b.fitsUnits w.run.reopened) .movingUnits
    w.checkLots b closing
    let st ← ((lotsByItem closing.lots).map fun lot => (⟨lot.lotItemId, -lot.delta⟩ : RestatedLot)).foldlM
      (Restating.restateLot b) ⟨w, []⟩
    let wipCode ← b.keepWip (closing.held ≠ 0) w.run.wipAccountCode
    let entries ← b.post w.currency ("reopen:" ++ key) wipCode closing.held st.amounts (-closing.wasted)
    pure ((st.plant.posted entries).emitRun .reopened)

end Celerp
