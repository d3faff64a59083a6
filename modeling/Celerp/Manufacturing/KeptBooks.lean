/-
  What a production run's movements keep (`celerp_manufacturing/movements.py`).

  `RunState.Kept`: the values a run that is not completed records agree with each other, and
  `Plant.InBooks`: its entries move its work in progress account by what the run holds, and its
  output lots stand at their receipts' values.  A completed run holds nothing, and its lots
  stand at what completion left them (`RunState.Closed`).

  Issuing components and returning them keep a run in the books (`InBooks.doIssue`,
  `InBooks.doReturn`).
-/
import Celerp.Lib.Grouping
import Celerp.Manufacturing.DrawnLots
import Celerp.Manufacturing.IssuedValue
import Celerp.Manufacturing.MadeLots

namespace Celerp

open AccountRole Outcome Plant

/-! ## What is kept -/

/-- A key that names another account. -/
def ApartFrom (account key : String) : Prop := (splitPartyKey key).1 ≠ account

/-- The values a run that is not completed records: what the components record comes to what
    was issued, what the receipts took to what was transferred, and the run holds the rest. -/
structure RunState.Kept (c : String) (s : RunState) : Prop where
  unique : (∀ i ∈ s.inputs, i.issuedValue = none) ∨ (s.inputs.map (·.itemId)).Nodup
  valued : ∀ i ∈ s.inputs, i.issuedValue = none → i.issuedQty = 0
  values : ∀ i ∈ s.inputs, 0 ≤ i.issuedValue.getD 0 ∧ IsWhole c (i.issuedValue.getD 0)
  issued : issuedValues s.inputs = s.wipIssued.getD 0
  receipts : ∀ r ∈ s.receipts, 0 < r.quantity ∧ 0 ≤ r.value ∧ IsWhole c r.value ∧ r.fixed = false ∧
    r.lotItemId ∉ s.inputs.map (·.itemId)
  transferred : s.closed.wipTransferred.getD 0 = (s.receipts.map (·.value)).sum
  wasted : s.closed.wipWasted.getD 0 = 0
  nonneg : 0 ≤ s.wip
  account : s.wipAccountCode = none → s.wip = 0

/-- What completion changed the run's lots by, while the run is completed. -/
def RunState.changes (s : RunState) : List RestatedLot := s.closing.elim [] (·.lots)

/-- The run as it was before it was completed. -/
def RunState.unclosed (s : RunState) : RunState := if s.closing.isSome then s.reopened else s

/-- The value of a receipt's lot, with what completion changed it by. -/
def RunState.worth (s : RunState) (r : Receipt) : ℚ := r.value + changeOf s.changes r

/-- A completed run holds nothing: what its lots are worth and what it wasted come to what was
    issued. -/
structure RunState.Closed (c : String) (s : RunState) (closing : Closing) : Prop where
  before : s.reopened.status ≠ some .completed
  held : closing.held = s.reopened.wip
  wip : s.wip = 0
  wasted : s.closed.wipWasted = some closing.wasted
  lots : ∀ l ∈ closing.lots, l.lotItemId ∈ s.receipts.map (·.lotItemId) ∧ IsWhole c l.delta
  nodup : (closing.lots.map (·.lotItemId)).Nodup
  made : (s.receipts.map s.worth).sum + closing.wasted = s.wipIssued.getD 0

/-- A run in the books: what its entries move on the account of its work in progress is what
    it holds, and its lots stand at what they are worth, kept on other accounts. -/
structure Plant.InBooks (account : String) (w : Plant) : Prop where
  kept : w.run.unclosed.Kept w.currency
  opened : w.run.closing = none → w.run.status ≠ some .completed ∨ w.run.wipIssued = none
  closed : ∀ closing ∈ w.run.closing, w.run.Closed w.currency closing
  standing : w.Standing w.run.receipts w.run.worth
  apart : ∀ r ∈ w.run.receipts, ∃ code, (w.place? r.lotItemId).bind (·.inventoryAccount) = some code ∧
    ApartFrom account code
  moved : w.run.wipAccountCode = some account → netMoved account w.entries = w.run.wip
  unmoved : w.run.wipAccountCode = none → netMoved account w.entries = 0
  balanced : ∀ e ∈ w.entries, exchangeGap (e.lines.map (·.toLine)) = 0

section
variable {w w' : Plant} {b : RunBooks} {account c key id : String} {s : RunState} {q v wip waste : ℚ}
  {amounts : List (String × ℚ)} {wipCode : Option String} {entries : List RunEntry} {closing : Closing}

/-! ## A run that is not completed -/

theorem unclosed_of_none (h : s.closing = none) : s.unclosed = s := by
  unfold RunState.unclosed
  rw [h]
  rfl

theorem worth_of_none (h : s.closing = none) : s.worth = (·.value) := by
  funext r
  unfold RunState.worth RunState.changes
  rw [h, Option.elim_none, changeOf, List.map_nil, Tally.total_nil, add_zero]

/-- A run that is not completed is in the books where its values agree. -/
theorem Plant.InBooks.of_open (hnone : w.run.closing = none)
    (hstatus : w.run.status ≠ some .completed ∨ w.run.wipIssued = none) (hkept : w.run.Kept w.currency)
    (hstanding : w.Standing w.run.receipts (·.value))
    (hapart : ∀ r ∈ w.run.receipts, ∃ code, (w.place? r.lotItemId).bind (·.inventoryAccount) = some code ∧
      ApartFrom account code)
    (hmoved : w.run.wipAccountCode = some account → netMoved account w.entries = w.run.wip)
    (hunmoved : w.run.wipAccountCode = none → netMoved account w.entries = 0)
    (hbalanced : ∀ e ∈ w.entries, exchangeGap (e.lines.map (·.toLine)) = 0) : w.InBooks account where
  kept := by rwa [unclosed_of_none hnone]
  opened := fun _ => hstatus
  closed := fun closing hclosing => by rw [hnone] at hclosing; cases hclosing
  standing := by rwa [worth_of_none hnone]
  apart := hapart
  moved := hmoved
  unmoved := hunmoved
  balanced := hbalanced

theorem Plant.InBooks.keptRun (h : w.InBooks account) (hnone : w.run.closing = none) : w.run.Kept w.currency :=
  unclosed_of_none hnone ▸ h.kept

theorem Plant.InBooks.lotsStand (h : w.InBooks account) (hnone : w.run.closing = none) :
    w.Standing w.run.receipts (·.value) := worth_of_none hnone ▸ h.standing

/-- The entries of a run that is not completed move its account by what it holds. -/
theorem Plant.InBooks.net_eq (h : w.InBooks account) (hnone : w.run.closing = none)
    (hcode : w.run.wipAccountCode = none ∨ w.run.wipAccountCode = some account) :
    netMoved account w.entries = w.run.wip := by
  rcases hcode with hcode | hcode
  · rw [h.unmoved hcode, (h.keptRun hnone).account hcode]
  · exact h.moved hcode

/-! ## The books -/

/-- What a movement moves on the account of the work in progress, where what else it moves is
    kept apart from it. -/
theorem movedBy_apart {cogsCode : String} (hlots : ∀ p ∈ amounts, ApartFrom account p.1)
    (hwaste : waste ≠ 0 → cogsCode ≠ account) (hwip : IsWhole c wip) :
    movedBy c wipCode wip amounts cogsCode waste account = if wipCode.getD "" = account then wip else 0 := by
  have hzero : (amounts.map fun p => if (splitPartyKey p.1).1 = account then roundMoney p.2 c else 0).sum = 0 :=
    List.sum_eq_zero (List.forall_mem_map.2 fun p hp => if_neg (hlots p hp))
  have hcogs : (if cogsCode = account then roundMoney waste c else 0) = 0 := by
    by_cases hnone : waste = 0
    · rw [hnone, roundMoney_zero, ite_self]
    · exact if_neg (hwaste hnone)
  unfold movedBy
  rw [hzero, hcogs, zero_add, add_zero, roundMoney_of_isWhole hwip]

/-- What an entry of a movement whose amounts are kept apart moves. -/
theorem posted_apart {movement : String} (hon : b.on) (h : b.post c movement wipCode wip amounts waste = .ok entries)
    (hlots : ∀ p ∈ amounts, ApartFrom account p.1)
    (hwaste : waste ≠ 0 → ∀ code, b.roles.roleMap.lookup cogs = some code → code ≠ account) (hwip : IsWhole c wip) :
    (netMoved account entries = if wipCode.getD "" = account then wip else 0) ∧
      ∀ e ∈ entries, exchangeGap (e.lines.map (·.toLine)) = 0 := by
  have hok := post_ok h
  rw [if_pos hon] at hok
  obtain ⟨cogsCode, hcogs, hnet, hbalanced⟩ := hok
  refine ⟨?_, hbalanced⟩
  rw [hnet, movedBy_apart hlots (fun hne => hwaste hne cogsCode (hcogs hne)) hwip]

/-- What a movement leaves of a plant whose lots it changed. -/
theorem emitted (honly : w.OnlyLots w') (entries : List RunEntry) (e : RunEvent) :
    ((w'.posted entries).emitRun e).run = applyManufacturingEvent w.run e ∧
      ((w'.posted entries).emitRun e).entries = w.entries ++ entries := by
  refine ⟨?_, congrArg (· ++ entries) honly.entries⟩
  rw [Plant.emitRun, Plant.posted, honly.run]

/-! ## Lots drawn on and given back to -/

/-- Where a lot is, and what kind of stock it is. -/
def kindOf (lot : CostedLot) : Place × Option String := (placeOf lot.state, lot.state.inventoryType)

/-- The cost of a lot changes where its units do, and where it is does not. -/
theorem kind_recomputeCost (t : ItemState) :
    placeOf (t.recomputeCost roundBasis) = placeOf t ∧
      (t.recomputeCost roundBasis).inventoryType = t.inventoryType := by
  unfold ItemState.recomputeCost
  cases t.recomputedBase roundBasis <;> exact ⟨rfl, rfl⟩

theorem kind_setQuantity (t : ItemState) (new : ℚ) (costBase : Option ℚ) (pools : Option Pools) :
    placeOf (t.setQuantity roundBasis new costBase pools) = placeOf t ∧
      (t.setQuantity roundBasis new costBase pools).inventoryType = t.inventoryType := by
  unfold ItemState.setQuantity
  cases costBase with
  | some base => exact kind_recomputeCost _
  | none =>
    dsimp only
    split_ifs <;> exact kind_recomputeCost _

/-- Nothing but the stock of lots was changed. -/
structure Plant.OnlyStock (w w' : Plant) : Prop extends Plant.OnlyLots w w' where
  kind : ∀ id, (w'.lots.get? id).map kindOf = (w.lots.get? id).map kindOf
  touched : w'.touched = w.touched

theorem Plant.OnlyStock.refl (w : Plant) : w.OnlyStock w := ⟨.refl w, fun _ => rfl, rfl⟩

theorem Plant.OnlyStock.trans {w'' : Plant} (h : w.OnlyStock w') (h' : w'.OnlyStock w'') : w.OnlyStock w'' :=
  ⟨h.toOnlyLots.trans h'.toOnlyLots, fun id => (h'.kind id).trans (h.kind id), h'.touched.trans h.touched⟩

/-- An event that keeps a lot where it is changes its stock only. -/
theorem onlyStock_writeLot {e : ItemEvent}
    (h : ∀ t : ItemState, placeOf ((applyItemEvent roundBasis t e).getD t) = placeOf t ∧
      ((applyItemEvent roundBasis t e).getD t).inventoryType = t.inventoryType) : w.OnlyStock (w.writeLot id e) := by
  refine ⟨onlyLots_writeLot e, fun l => ?_, rfl⟩
  unfold Plant.writeLot
  rw [LotBooks.get?_write]
  split_ifs
  · rw [Option.map_map]
    congr 1
    funext lot
    exact Prod.ext (h lot.state).1 (h lot.state).2
  · rfl

theorem Plant.OnlyStock.place? (h : w.OnlyStock w') : w'.place? = w.place? := by
  funext id
  have hkind := congrArg (Option.map Prod.fst) (h.kind id)
  rw [Option.map_map, Option.map_map] at hkind
  exact hkind

theorem kind_consumed (t : ItemState) (q : ℚ) (costBase : Option ℚ) (pools : Option Pools) :
    placeOf ((applyItemEvent roundBasis t (.consumed q costBase pools)).getD t) = placeOf t ∧
      ((applyItemEvent roundBasis t (.consumed q costBase pools)).getD t).inventoryType = t.inventoryType :=
  kind_setQuantity t.landedPoolsFromUnits _ _ _

theorem kind_quantityAdjusted (t : ItemState) (new : ℚ) (costBase : Option ℚ) (unknown : Option Bool) :
    placeOf ((applyItemEvent roundBasis t (.quantityAdjusted new costBase none unknown none)).getD t) = placeOf t ∧
      ((applyItemEvent roundBasis t (.quantityAdjusted new costBase none unknown none)).getD t).inventoryType =
        t.inventoryType :=
  kind_setQuantity { t.landedPoolsFromUnits with consignedIn := t.landedPoolsFromUnits.consignedIn } _ _ _

/-! ## Issuing -/

/-- What one line of an issue does. -/
theorem consume_ok {line : String × ℚ} {st st' : Issuing} (h : st.consume b line = .ok st') :
    ∃ lot, st.plant.lots.get? line.1 = some lot ∧
      st'.plant = st.plant.writeLot line.1 (consumption lot.state line.2 st.plant.currency) ∧
      st'.items = st.items ++
        [⟨line.1, line.2, some (valueMoved lot line.2 st.plant.currency), !lot.state.goodsCostKnown⟩] ∧
      (st'.credits = st.credits ∨ valueMoved lot line.2 st.plant.currency ≠ 0 ∧
        ∃ code, lot.state.inventoryAccount = some code ∧
          st'.credits = Amounts.add code (-valueMoved lot line.2 st.plant.currency) st.credits) := by
  unfold Issuing.consume at h
  cases hlot : st.plant.lots.get? line.1 with
  | none =>
    rw [hlot] at h
    cases h
  | some lot =>
    rw [hlot] at h
    dsimp only at h
    refine ⟨lot, rfl, ?_⟩
    split_ifs at h with hmoved
    · obtain ⟨code, hcode, rfl⟩ := map_eq_ok.1 h
      refine ⟨rfl, rfl, .inr ⟨hmoved.1, code, ?_, rfl⟩⟩
      have hplace := (kind_consumed lot.state line.2
        (costKept lot.state (max 0 (lot.state.quantity - line.2)) st.plant.currency).1
        (costKept lot.state (max 0 (lot.state.quantity - line.2)) st.plant.currency).2).1
      have haccount := congrArg Place.inventoryAccount hplace
      exact haccount.symm.trans (account_ok hcode)
    · obtain rfl := Except.ok.inj h
      exact ⟨rfl, rfl, .inl rfl⟩

/-- A lot the company holds is on the books at what it records. -/
theorem bookedValue_of_held {lot : CostedLot} (h : lot.held ≠ none) :
    lot.bookedValue c = roundMoney lot.state.recordedValue c := by
  unfold CostedLot.bookedValue
  unfold CostedLot.held heldValue at h ⊢
  split_ifs at h ⊢
  · rfl
  · exact absurd rfl h

/-- A lot that can be drawn on: it keeps within what it records, and where it records
    something it is kept apart from the account. -/
def CostedLot.Draws (account c : String) (q : ℚ) (lot : CostedLot) : Prop :=
  lot.state.KeepsWithin q c ∧
    (roundMoney lot.state.recordedValue c ≠ 0 → ∀ code ∈ lot.state.inventoryAccount, ApartFrom account code)

/-- A line that was issued: it took whole minor units, no more than the lot recorded. -/
def IssuedLine.Drawn (c : String) (w : Plant) (i : IssuedLine) : Prop :=
  ∃ v lot, i.value = some v ∧ 0 ≤ v ∧ IsWhole c v ∧ w.lots.get? i.itemId = some lot ∧
    v ≤ roundMoney lot.state.recordedValue c

theorem apart_add (hamounts : ∀ p ∈ amounts, ApartFrom account p.1) (hkey : ApartFrom account key) :
    ∀ p ∈ Amounts.add key v amounts, ApartFrom account p.1 := by
  intro p hp
  rcases Amounts.mem_keys_add.1 (List.mem_map_of_mem hp) with heq | hmem
  · rw [heq]
    exact hkey
  · obtain ⟨p', hp', heq⟩ := List.mem_map.1 hmem
    rw [← heq]
    exact hamounts p' hp'

/-- What one line of an issue does, of a lot that can be drawn on. -/
theorem consume_drawn {line : String × ℚ} {st st' : Issuing} (h : st.consume b line = .ok st')
    (hcurrency : st.plant.currency = c) (hq : 0 ≤ line.2)
    (hdraws : ∀ lot ∈ st.plant.lots.get? line.1, lot.Draws account c line.2)
    (hcredits : ∀ p ∈ st.credits, ApartFrom account p.1) :
    st.plant.OnlyStock st'.plant ∧ (∀ l, l ≠ line.1 → st'.plant.lots.get? l = st.plant.lots.get? l) ∧
      (∀ p ∈ st'.credits, ApartFrom account p.1) ∧
      ∃ i : IssuedLine, st'.items = st.items ++ [i] ∧ i.itemId = line.1 ∧ i.Drawn c st.plant := by
  obtain ⟨lot, hlot, hplant, hitems, hadded⟩ := consume_ok h
  obtain ⟨hkeeps, hapart⟩ := hdraws lot hlot
  obtain ⟨hmoved, hmovedLe⟩ := valueMoved_bounds hkeeps hq
  rw [hcurrency] at hplant hitems hadded
  rw [hplant]
  refine ⟨onlyStock_writeLot fun s => kind_consumed s _ _ _, fun l hl => LotBooks.get?_write_of_ne hl, ?_, _,
    hitems, rfl, _, lot, rfl, hmoved, (isWhole_roundMoney _ c).sub (isWhole_roundMoney _ c), hlot, hmovedLe⟩
  rcases hadded with heq | ⟨hne, code, hcode, heq⟩
  · rw [heq]
    exact hcredits
  · have hrecords : roundMoney lot.state.recordedValue c ≠ 0 := fun hzero =>
      hne (le_antisymm (hmovedLe.trans_eq hzero) hmoved)
    rw [heq]
    exact apart_add hcredits (hapart hrecords code hcode)

/-- What the lines of an issue do, each drawing on a lot of its own. -/
theorem issuing_ok {wanted : List (String × ℚ)} {st st' : Issuing}
    (h : wanted.foldlM (Issuing.consume b) st = .ok st') (hcurrency : st.plant.currency = c) (hnodup : (wanted.map Prod.fst).Nodup) (hq : ∀ line ∈ wanted, 0 ≤ line.2)
    (hdraws : ∀ line ∈ wanted, ∀ lot ∈ st.plant.lots.get? line.1, lot.Draws account c line.2)
    (hcredits : ∀ p ∈ st.credits, ApartFrom account p.1) :
    st.plant.OnlyStock st'.plant ∧ (∀ l ∉ wanted.map Prod.fst, st'.plant.lots.get? l = st.plant.lots.get? l) ∧
      (∀ p ∈ st'.credits, ApartFrom account p.1) ∧ ∃ items : List IssuedLine, st'.items = st.items ++ items ∧
        items.map (·.itemId) = wanted.map Prod.fst ∧ ∀ i ∈ items, i.Drawn c st.plant := by
  induction wanted generalizing st with
  | nil =>
    obtain rfl : st = st' := by simpa [pure, Except.pure] using h
    exact ⟨.refl _, fun _ _ => rfl, hcredits, [], by simp⟩
  | cons line wanted ih =>
    rw [List.foldlM_cons, bind_eq_ok] at h
    obtain ⟨t, ht, h⟩ := h
    rw [List.map_cons, List.nodup_cons] at hnodup
    rw [List.forall_mem_cons] at hq hdraws
    obtain ⟨honly, hothers, hcreditsT, i, hitem, hid, hdrawn⟩ := consume_drawn ht hcurrency hq.1 hdraws.1 hcredits
    -- the lots of the lines that follow are as they were
    have hsame : ∀ l ∈ wanted.map Prod.fst, t.plant.lots.get? l = st.plant.lots.get? l :=
      fun l hl => hothers l fun heq => hnodup.1 (heq ▸ hl)
    have hdrawsT : ∀ line ∈ wanted, ∀ lot ∈ t.plant.lots.get? line.1, lot.Draws account c line.2 := by
      intro line hline lot hlot
      rw [hsame line.1 (List.mem_map_of_mem hline)] at hlot
      exact hdraws.2 line hline lot hlot
    obtain ⟨honly', hothers', hcredits', items, hitems', hids, hdrawn'⟩ :=
      ih h (honly.currency.trans hcurrency) hnodup.2 hq.2 hdrawsT hcreditsT
    refine ⟨honly.trans honly', fun l hl => ?_, hcredits', i :: items, ?_, ?_, List.forall_mem_cons.2 ⟨hdrawn, ?_⟩⟩
    · rw [List.map_cons, List.mem_cons, not_or] at hl
      rw [hothers' l hl.2, hothers l hl.1]
    · rw [hitems', hitem, List.append_assoc]
      rfl
    · rw [List.map_cons, List.map_cons, hid, hids]
    · intro j hj
      obtain ⟨v, lot, hv, hnn, hwhole, hlot, hle⟩ := hdrawn' j hj
      exact ⟨v, lot, hv, hnn, hwhole, (hsame _ (hids ▸ List.mem_map_of_mem hj)) ▸ hlot, hle⟩

/-- What an issue does to the values of a run. -/
theorem issue_fields (s : RunState) (items : List IssuedLine) (v : ℚ) (code : Option String) :
    (s.issue items (some v) code).wipIssued = some (s.wipIssued.getD 0 + v) ∧
      (s.issue items (some v) code).closed.wipTransferred = s.closed.wipTransferred ∧
      (s.issue items (some v) code).closed.wipWasted = s.closed.wipWasted ∧
      (s.issue items (some v) code).wipAccountCode = code.or s.wipAccountCode := by
  unfold RunState.issue RunState.start RunState.addIssued
  dsimp only
  split_ifs <;> exact ⟨rfl, rfl, rfl, rfl⟩

theorem wip_issue (items : List IssuedLine) (code : Option String) :
    (s.issue items (some v) code).wip = s.wip + v := by
  obtain ⟨hissued, htransferred, hwasted, -⟩ := issue_fields s items v code
  unfold RunState.wip
  rw [hissued, htransferred, hwasted, Option.getD_some]
  ring

/-- The lines of an issue come to whole minor units, no less than nothing. -/
theorem issuedTotal_nonneg {items : List IssuedLine}
    (h : ∀ i ∈ items, ∃ v, i.value = some v ∧ 0 ≤ v ∧ IsWhole c v) :
    0 ≤ issuedTotal items ∧ IsWhole c (issuedTotal items) := by
  unfold issuedTotal
  refine ⟨List.sum_nonneg ?_, IsWhole.sum ?_⟩
  all_goals
    rw [List.forall_mem_map]
    intro i hi
    obtain ⟨v, hv, hnn, hwhole⟩ := h i hi
    rw [hv, Option.getD_some]
    assumption

/-- **An issue keeps a run's values in agreement.** -/
theorem RunState.Kept.issue {items : List IssuedLine} {code : Option String} (h : s.Kept c)
    (hinputs : (s.inputs.map (·.itemId)).Nodup) (hitems : (items.map (·.itemId)).Nodup)
    (hmem : ∀ i ∈ items, i.itemId ∈ s.inputs.map (·.itemId))
    (hdrawn : ∀ i ∈ items, ∃ v, i.value = some v ∧ 0 ≤ v ∧ IsWhole c v)
    (hcode : issuedTotal items ≠ 0 → code ≠ none) : (s.issue items (some (issuedTotal items)) code).Kept c := by
  have hvalues : ∀ i ∈ items, i.value.isSome := fun i hi => by
    obtain ⟨v, hv, -⟩ := hdrawn i hi
    rw [hv]
    rfl
  have hafter : (s.issue items (some (issuedTotal items)) code).inputs = s.inputs.map (·.afterIssue items) :=
    inputs_issue hinputs hitems hvalues
  have hids : (s.issue items (some (issuedTotal items)) code).inputs.map (·.itemId) = s.inputs.map (·.itemId) := by
    rw [hafter, List.map_map]
    exact List.map_congr_left fun inp _ => (afterIssue_plan inp items).1
  obtain ⟨hissued, htransferred, hwasted, hcodes⟩ := issue_fields s items (issuedTotal items) code
  have hreceipts := (closing_issue (s := s) items (some (issuedTotal items)) code).2
  obtain ⟨htotal, -⟩ := issuedTotal_nonneg hdrawn
  constructor
  case unique => exact .inr (hids ▸ hinputs)
  case valued =>
    rw [hafter, List.forall_mem_map]
    intro inp hinp hnone
    rcases afterIssue_cases hvalues (h.valued inp hinp) with ⟨hsame, -⟩ | ⟨line, -, -, hvalue⟩
    · rw [hsame] at hnone ⊢
      exact h.valued inp hinp hnone
    · rw [hvalue] at hnone
      cases hnone
  case values =>
    rw [hafter, List.forall_mem_map]
    intro inp hinp
    obtain ⟨hnn, hwhole⟩ := h.values inp hinp
    rcases afterIssue_cases hvalues (h.valued inp hinp) with ⟨hsame, -⟩ | ⟨line, hline, -, hvalue⟩
    · rw [hsame]
      exact ⟨hnn, hwhole⟩
    · obtain ⟨v, hv, hvnn, hvwhole⟩ := hdrawn line hline
      rw [hvalue, hv, Option.getD_some, Option.getD_some]
      exact ⟨add_nonneg hnn hvnn, hwhole.add hvwhole⟩
  case issued =>
    rw [issuedValues_issue hinputs hitems hmem hvalues h.valued, hissued, Option.getD_some, h.issued]
  case receipts =>
    rw [hreceipts, hids]
    exact h.receipts
  case transferred => rw [htransferred, hreceipts, h.transferred]
  case wasted => rw [hwasted, h.wasted]
  case nonneg =>
    rw [wip_issue]
    exact add_nonneg h.nonneg htotal
  case account =>
    rw [hcodes, wip_issue, Option.or_eq_none_iff]
    rintro ⟨hnone, hold⟩
    have hzero : issuedTotal items = 0 := by
      by_contra hne
      exact hcode hne hnone
    rw [hzero, add_zero, h.account hold]

theorem continueRole_ok {role : AccountRole} {code : Option String} {code' : String}
    (h : b.continueRole role code = .ok code') : code = some code' := by
  unfold RunBooks.continueRole at h
  cases code with
  | none => cases h
  | some code =>
    dsimp only at h
    split_ifs at h
    rw [Except.ok.inj h]

/-- The account an issue moves the run's work in progress on. -/
theorem issueWip_ok {befores : List ℚ} {code : Option String} (hon : b.on) (h : issueWip b s befores = .ok code) :
    (∀ v ∈ befores, v ≠ 0 → code ≠ none) ∧ (s.wipAccountCode ≠ none → code = s.wipAccountCode) := by
  unfold issueWip at h
  split_ifs at h with hany
  · cases hold : s.wipAccountCode with
    | none =>
      rw [hold] at h
      obtain ⟨a, -, rfl⟩ := map_eq_ok.1 h
      exact ⟨fun _ _ _ => Option.some_ne_none a, fun hne => absurd rfl hne⟩
    | some old =>
      rw [hold] at h
      obtain ⟨a, ha, rfl⟩ := map_eq_ok.1 h
      exact ⟨fun _ _ _ => Option.some_ne_none a, fun _ => (continueRole_ok ha).symm⟩
  · obtain rfl := Except.ok.inj h
    refine ⟨fun v hv hne => absurd ⟨hon, ?_⟩ hany, fun _ => rfl⟩
    exact List.any_eq_true.2 ⟨v, hv, by simpa using hne⟩

/-- What an issue finds of a lot it draws on. -/
theorem checkIssue_ok {line : String × ℚ} (h : checkIssue w b line = .ok v) :
    ∃ lot, w.lots.get? line.1 = some lot ∧ v = roundMoney lot.state.recordedValue w.currency := by
  unfold checkIssue at h
  cases hlot : w.lots.get? line.1 with
  | none =>
    rw [hlot] at h
    cases h
  | some lot =>
    rw [hlot] at h
    refine ⟨lot, rfl, ?_⟩
    dsimp only at h
    split_ifs at h with hprecise hfree hshort hbooked
    · obtain ⟨-, -, rfl⟩ := map_eq_ok.1 h
      exact bookedValue_of_held fun hheld => hfree (.inr (.inr hheld))
    · obtain rfl := Except.ok.inj h
      exact bookedValue_of_held fun hheld => hfree (.inr (.inr hheld))

/-- What is issued is for components of the run. -/
theorem doIssue_wanted {wanted : List (String × ℚ)} (h : w.doIssue b wanted key = .ok w') :
    ∀ line ∈ wanted, line.1 ∈ w.run.inputs.map (·.itemId) := by
  unfold Plant.doIssue at h
  obtain ⟨⟨⟩, hchecked, -⟩ := bind_eq_ok.1 h
  intro line hline
  have hok := forall_of_forM_eq_ok hchecked line hline
  unfold RunState.checkWanted at hok
  split_ifs at hok with hout
  exact hout

/-- **An issue keeps a run in the books**, where each lot it draws on can be drawn on. -/
theorem Plant.InBooks.doIssue {wanted : List (String × ℚ)} (h : w.InBooks account) (hsound : w.Sound)
    (hopen : w.run.requireOpen = .ok ()) (hon : b.on) (hinputs : (w.run.inputs.map (·.itemId)).Nodup)
    (hnodup : (wanted.map Prod.fst).Nodup) (hq : ∀ line ∈ wanted, 0 ≤ line.2)
    (hdraws : ∀ line ∈ wanted, ∀ lot ∈ w.lots.get? line.1, lot.Draws account w.currency line.2)
    (hok : w.doIssue b wanted key = .ok w') : w'.InBooks account := by
  have hplanned := doIssue_wanted hok
  rcases doIssue_ok hok with ⟨-, rfl⟩ | ⟨befores, wipCode, st, entries, hbefores, hwip, hst, hpost, -, rfl⟩
  · exact h
  have hnone := hsound.closing (requireOpen_ok hopen)
  have hkept := h.keptRun hnone
  have hstanding := h.lotsStand hnone
  obtain ⟨honly, hothers, hcredits, items, hitems, hids, hdrawn⟩ :=
    issuing_ok hst rfl hnodup hq hdraws fun p hp => absurd hp List.not_mem_nil
  rw [List.nil_append] at hitems
  subst hitems
  obtain ⟨hsome, hsame⟩ := issueWip_ok hon hwip
  have hvalues : ∀ i ∈ st.items, ∃ v, i.value = some v ∧ 0 ≤ v ∧ IsWhole w.currency v := by
    intro i hi
    obtain ⟨v, -, hv, hnn, hwhole, -⟩ := hdrawn i hi
    exact ⟨v, hv, hnn, hwhole⟩
  obtain ⟨htotal, hwhole⟩ := issuedTotal_nonneg hvalues
  -- what is issued takes value only of lots that record some
  have hcode : issuedTotal st.items ≠ 0 → wipCode ≠ none := by
    intro hne hwipNone
    refine hne (List.sum_eq_zero (List.forall_mem_map.2 fun i hi => ?_))
    obtain ⟨v, lot, hv, hnn, -, hlot, hle⟩ := hdrawn i hi
    obtain ⟨line, hline, hid⟩ := List.mem_map.1 (hids ▸ List.mem_map_of_mem hi)
    obtain ⟨before, hbefore, hcheck⟩ := Grouping.exists_of_mem_right (forall₂_of_mapM_eq_ok hbefores).flip hline
    obtain ⟨lot', hlot', rfl⟩ := checkIssue_ok hcheck
    rw [hid, hlot] at hlot'
    obtain rfl := Option.some.inj hlot'
    have hzero : roundMoney lot.state.recordedValue w.currency = 0 := by
      by_contra hrecords
      exact hsome _ hbefore hrecords hwipNone
    rw [hv, Option.getD_some]
    exact le_antisymm (hle.trans_eq hzero) hnn
  have hmem : ∀ i ∈ st.items, i.itemId ∈ w.run.inputs.map (·.itemId) := by
    intro i hi
    obtain ⟨line, hline, hid⟩ := List.mem_map.1 (hids ▸ List.mem_map_of_mem hi)
    exact hid ▸ hplanned line hline
  obtain ⟨-, -, -, hcodes⟩ := issue_fields w.run st.items (issuedTotal st.items)
    (if issuedTotal st.items ≠ 0 then wipCode else none)
  obtain ⟨hclosing, hreceipts⟩ := closing_issue (s := w.run) st.items (some (issuedTotal st.items))
    (if issuedTotal st.items ≠ 0 then wipCode else none)
  obtain ⟨hnet, hbalanced⟩ := posted_apart hon hpost hcredits (fun hne => absurd rfl hne) hwhole
  have hopened := requireOpen_ok (doIssue_open hopen hok)
  generalize hcodeIssued : (if issuedTotal st.items ≠ 0 then wipCode else none) = code
    at hcodes hclosing hreceipts hopened
  obtain ⟨hrun, hentries⟩ := emitted honly.toOnlyLots entries (.issued st.items (some (issuedTotal st.items)) code)
  rw [applyManufacturingEvent] at hrun
  refine .of_open (by rw [hrun, hclosing, hnone]) (.inl hopened) ?_ ?_ ?_ ?_ ?_ ?_
  · rw [hrun]
    have hcodeSome : issuedTotal st.items ≠ 0 → code ≠ none := by
      intro hne
      rw [← hcodeIssued, if_pos hne]
      exact hcode hne
    have hkeptIssued := hkept.issue hinputs (hids ▸ hnodup) hmem hvalues hcodeSome
    exact (show w.currency = _ from honly.currency.symm) ▸ hkeptIssued
  · rw [hrun, hreceipts]
    refine hstanding.congr (fun r hr => ?_) fun r hr => ?_
    · exact (congrFun honly.touched _).trans (hstanding r hr).1
    · refine hothers _ fun hmem => ?_
      obtain ⟨line, hline, hid⟩ := List.mem_map.1 hmem
      exact (hkept.receipts r hr).2.2.2.2 (hid ▸ hplanned line hline)
  · rw [hrun, hreceipts]
    intro r hr
    have hplace := congrFun honly.place? r.lotItemId
    obtain ⟨code, hcode, hapart⟩ := h.apart r hr
    exact ⟨code, (congrArg (·.bind (·.inventoryAccount)) hplace).trans hcode, hapart⟩
  · rw [hrun, hentries, netMoved_append, hnet, wip_issue, hcodes]
    intro haccount
    by_cases hzero : issuedTotal st.items = 0
    · rw [← hcodeIssued, if_neg (not_not.2 hzero), Option.none_or] at haccount
      rw [hzero, ite_self, h.moved haccount]
    · rw [← hcodeIssued, if_pos hzero, Option.or_of_isSome (Option.isSome_iff_ne_none.2 (hcode hzero))] at haccount
      rw [haccount, Option.getD_some, if_pos rfl, h.net_eq hnone]
      by_contra hother
      rw [not_or] at hother
      exact hother.2 ((hsame hother.1).symm.trans haccount)
  · rw [hrun, hentries, netMoved_append, hnet, hcodes, Option.or_eq_none_iff]
    rintro ⟨hcodeNone, hold⟩
    have hzero : issuedTotal st.items = 0 := by
      by_contra hne
      rw [← hcodeIssued, if_pos hne] at hcodeNone
      exact hcode hne hcodeNone
    rw [hzero, ite_self, add_zero, h.unmoved hold]
  · rw [hentries, List.forall_mem_append]
    exact ⟨h.balanced, hbalanced⟩

/-! ## Returning -/

/-- What one line of a return does: the lot's stock changes, and its value goes to the account
    the lot records. -/
theorem giveBack_ok {line : ValuedLine} {st st' : Returning} (h : st.giveBack b line = .ok st') :
    st.plant.OnlyStock st'.plant ∧ (st'.debits = st.debits ∨ line.value ≠ 0 ∧
      ∃ code, (st.plant.place? line.itemId).bind (·.inventoryAccount) = some code ∧
        st'.debits = Amounts.add code line.value st.debits) := by
  have honly : ∀ quantity costBase unknown, st.plant.OnlyStock
      (st.plant.writeLot line.itemId (.quantityAdjusted quantity costBase none unknown none)) :=
    fun quantity costBase unknown => onlyStock_writeLot fun t => kind_quantityAdjusted t quantity costBase unknown
  unfold Returning.giveBack at h
  cases hlot : st.plant.lots.get? line.itemId with
  | none =>
    rw [hlot] at h
    cases h
  | some lot =>
    rw [hlot] at h
    dsimp only at h
    by_cases hoff : lot.offBooks line.value
    · rw [if_pos hoff] at h
      obtain rfl := Except.ok.inj h
      exact ⟨honly _ _ _, .inl rfl⟩
    · rw [if_neg hoff] at h
      split at h
      · cases h
      · next after hafter =>
        split_ifs at h with hvalue hmoves
        · obtain ⟨code, hcode, rfl⟩ := map_eq_ok.1 h
          refine ⟨honly _ _ _, .inr ⟨hmoves.1, code, ?_, rfl⟩⟩
          rw [← congrFun (honly _ _ _).place? line.itemId, Plant.place?, hafter]
          exact account_ok hcode
        · obtain rfl := Except.ok.inj h
          exact ⟨honly _ _ _, .inl rfl⟩

/-- What the lines of a return do, each for a lot kept apart where it has value. -/
theorem returning_ok {lines : List ValuedLine} {st st' : Returning}
    (h : lines.foldlM (Returning.giveBack b) st = .ok st')
    (hapart : ∀ line ∈ lines, line.value ≠ 0 → ∀ code ∈ (st.plant.place? line.itemId).bind (·.inventoryAccount),
      ApartFrom account code) (hdebits : ∀ p ∈ st.debits, ApartFrom account p.1) :
    st.plant.OnlyStock st'.plant ∧ ∀ p ∈ st'.debits, ApartFrom account p.1 := by
  refine keeps_of_foldlM_eq_ok (I := fun t => st.plant.OnlyStock t.plant ∧ ∀ p ∈ t.debits, ApartFrom account p.1) ?_ h
    ⟨.refl _, hdebits⟩
  rintro line hline t t' ht ⟨honly, hkept⟩
  obtain ⟨honly', heq | ⟨hne, code, hcode, heq⟩⟩ := giveBack_ok ht
  · exact ⟨honly.trans honly', heq ▸ hkept⟩
  · rw [honly.place?] at hcode
    exact ⟨honly.trans honly', heq ▸ apart_add hkept (hapart line hline hne code hcode)⟩

/-- A line that is returned: a component's, with a share of what it records. -/
theorem returnedValue_ok {line : String × ℚ} {l : ValuedLine} (h : returnedValue w line = .ok l) :
    l.itemId = line.1 ∧ ∃ inp ∈ w.run.inputs, inp.itemId = line.1 ∧
      ∃ v, inp.issuedValue = some v ∧ l.value = inp.shareOf line.2 w.currency v := by
  unfold returnedValue at h
  cases hvalue : (w.run.input? line.1).bind fun inp => inp.issuedValue.map (inp.shareOf line.2 w.currency) with
  | none =>
    rw [hvalue] at h
    cases h
  | some value =>
    rw [hvalue] at h
    obtain rfl := Except.ok.inj h
    obtain ⟨inp, hinp, hvalue⟩ := Option.bind_eq_some_iff.1 hvalue
    obtain ⟨v, hv, rfl⟩ := Option.map_eq_some_iff.1 hvalue
    refine ⟨rfl, inp, List.mem_reverse.1 (List.mem_of_find?_eq_some hinp), ?_, v, hv, rfl⟩
    simpa using List.find?_some hinp

theorem wip_returned (s : RunState) (lines : List ValuedLine) :
    (applyManufacturingEvent s (.returned lines (totalValue lines))).wip = s.wip - totalValue lines := by
  simp only [applyManufacturingEvent, RunState.wip, RunState.addIssued, Option.getD_some]
  ring

/-- **A return keeps a run's values in agreement**: no component gives back more than it
    records. -/
theorem RunState.Kept.giveBack {lines : List ValuedLine} (h : s.Kept c) (hinputs : (s.inputs.map (·.itemId)).Nodup)
    (hlines : (lines.map (·.itemId)).Nodup) (hreceipts : s.receipts = [])
    (hshares : ∀ line ∈ lines, ∃ inp ∈ s.inputs, inp.itemId = line.itemId ∧ 0 ≤ line.value ∧
      line.value ≤ inp.issuedValue.getD 0 ∧ IsWhole c line.value) :
    (applyManufacturingEvent s (.returned lines (totalValue lines))).Kept c := by
  have hafter : returnInputs (linesByItem lines) s.inputs = s.inputs.map (·.afterReturn lines) :=
    inputs_giveBack hinputs hlines
  have hids : (returnInputs (linesByItem lines) s.inputs).map (·.itemId) = s.inputs.map (·.itemId) := by
    rw [hafter, List.map_map]
    exact List.map_congr_left fun inp _ => (afterReturn_plan inp lines).1
  have hmem : ∀ line ∈ lines, line.itemId ∈ s.inputs.map (·.itemId) := by
    intro line hline
    obtain ⟨inp, hinp, hid, -⟩ := hshares line hline
    exact hid ▸ List.mem_map_of_mem hinp
  have hissued := issuedValues_giveBack hinputs hlines hmem
  have htotal : 0 ≤ totalValue lines := List.sum_nonneg (List.forall_mem_map.2 fun line hline => by
    obtain ⟨-, -, -, hnn, -⟩ := hshares line hline
    exact hnn)
  have hwip : s.wip = s.wipIssued.getD 0 := by
    rw [RunState.wip, h.transferred, hreceipts, h.wasted, List.map_nil, List.sum_nil, sub_zero, sub_zero]
  have hwip' := wip_returned s lines
  have hvalues : ∀ inp ∈ s.inputs, 0 ≤ (inp.afterReturn lines).issuedValue.getD 0 ∧
      IsWhole c ((inp.afterReturn lines).issuedValue.getD 0) := by
    intro inp hinp
    obtain ⟨hnn, hwhole⟩ := h.values inp hinp
    rcases afterReturn_cases inp lines with ⟨hsame, -⟩ | ⟨line, hline, -, hid, hvalue⟩
    · rw [hsame]
      exact ⟨hnn, hwhole⟩
    · obtain ⟨inp', hinp', hid', -, hle, hlineWhole⟩ := hshares line hline
      obtain rfl := List.inj_on_of_nodup_map hinputs hinp' hinp (hid'.trans hid)
      rw [hvalue, Option.getD_some]
      exact ⟨sub_nonneg.2 hle, hwhole.sub hlineWhole⟩
  have hnonneg : 0 ≤ s.wip - totalValue lines := by
    rw [hwip, ← h.issued, ← hissued, issuedValues, hafter, List.map_map]
    exact List.sum_nonneg (List.forall_mem_map.2 fun inp hinp => (hvalues inp hinp).1)
  constructor
  case unique => exact .inr (hids ▸ hinputs)
  case valued =>
    change ∀ i ∈ returnInputs (linesByItem lines) s.inputs, i.issuedValue = none → i.issuedQty = 0
    rw [hafter, List.forall_mem_map]
    intro inp hinp hnone
    rcases afterReturn_cases inp lines with ⟨hsame, -⟩ | ⟨line, -, -, -, hvalue⟩
    · rw [hsame] at hnone ⊢
      exact h.valued inp hinp hnone
    · rw [hvalue] at hnone
      cases hnone
  case values =>
    change ∀ i ∈ returnInputs (linesByItem lines) s.inputs,
      0 ≤ i.issuedValue.getD 0 ∧ IsWhole c (i.issuedValue.getD 0)
    rw [hafter, List.forall_mem_map]
    exact hvalues
  case issued =>
    change issuedValues (returnInputs (linesByItem lines) s.inputs) =
      (some (s.wipIssued.getD 0 + -totalValue lines)).getD 0
    rw [hissued, h.issued, Option.getD_some, sub_eq_add_neg]
  case receipts =>
    change ∀ r ∈ s.receipts, _
    rw [hreceipts]
    exact fun r hr => absurd hr List.not_mem_nil
  case transferred => exact h.transferred
  case wasted => exact h.wasted
  case nonneg =>
    rw [hwip']
    exact hnonneg
  case account =>
    intro hcode
    rw [hwip']
    have hzero : s.wip = 0 := h.account hcode
    linarith

/-- The lines that are returned are shares of components, each of a component of its own. -/
theorem returnedValues_ok {wanted : List (String × ℚ)} {lines : List ValuedLine} (hkept : w.run.Kept w.currency)
    (hq : ∀ line ∈ wanted, 0 ≤ line.2) (h : wanted.mapM (returnedValue w) = .ok lines) :
    lines.map (·.itemId) = wanted.map Prod.fst ∧ ∀ line ∈ lines, ∃ inp ∈ w.run.inputs, inp.itemId = line.itemId ∧
      inp.issuedValue ≠ none ∧ 0 ≤ line.value ∧ line.value ≤ inp.issuedValue.getD 0 ∧
      IsWhole w.currency line.value := by
  refine ⟨map_of_mapM_eq_ok (fun line _ l hl => (returnedValue_ok hl).1) h, fun l hl => ?_⟩
  obtain ⟨line, hline, hvalue⟩ := Grouping.exists_of_mem_right (forall₂_of_mapM_eq_ok h) hl
  obtain ⟨hid, inp, hinp, hinpId, v, hv, hshare⟩ := returnedValue_ok hvalue
  obtain ⟨hnn, hwhole⟩ := hkept.values inp hinp
  rw [hv, Option.getD_some] at hnn hwhole
  obtain ⟨hshareNn, hshareLe, hshareWhole⟩ := @shareOf_le inp _ _ _ (hq line hline) hnn hwhole
  refine ⟨inp, hinp, hinpId.trans hid.symm, by rw [hv]; exact Option.some_ne_none v, ?_, ?_, ?_⟩
  · rwa [hshare]
  · rwa [hshare, hv, Option.getD_some]
  · rwa [hshare]

/-- **A return keeps a run in the books**, where the components with value go back to lots kept
    apart. -/
theorem Plant.InBooks.doReturn {wanted : List (String × ℚ)} (h : w.InBooks account) (hsound : w.Sound)
    (hopen : w.run.requireOpen = .ok ()) (hon : b.on) (hnodup : (wanted.map Prod.fst).Nodup)
    (hq : ∀ line ∈ wanted, 0 ≤ line.2)
    (hapart : ∀ inp ∈ w.run.inputs, inp.issuedValue.getD 0 ≠ 0 →
      ∀ code ∈ (w.place? inp.itemId).bind (·.inventoryAccount), ApartFrom account code)
    (hok : w.doReturn b wanted key = .ok w') : w'.InBooks account := by
  by_cases hwanted : wanted = []
  · subst hwanted
    rwa [← Except.ok.inj hok]
  obtain ⟨first, hfirst⟩ := List.exists_mem_of_ne_nil wanted hwanted
  rcases doReturn_ok hok with
    ⟨hnil, -⟩ | ⟨lines, wipCode, st, entries, hlines, hwip, hst, hpost, hreceipts, honly, rfl⟩
  · exact absurd hnil hwanted
  have hnone := hsound.closing (requireOpen_ok hopen)
  have hkept := h.keptRun hnone
  obtain ⟨hids, hshares⟩ := returnedValues_ok hkept hq hlines
  obtain rfl := keepWip_ok hwip
  have hlots : ∀ line ∈ lines, line.value ≠ 0 → ∀ code ∈ (w.place? line.itemId).bind (·.inventoryAccount),
      ApartFrom account code := by
    intro line hline hne code hcode
    obtain ⟨inp, hinp, hid, -, hnn, hle, -⟩ := hshares line hline
    refine hapart inp hinp (fun hzero => hne (le_antisymm (hle.trans_eq hzero) hnn)) code ?_
    rwa [hid]
  obtain ⟨-, hdebits⟩ := returning_ok hst hlots fun p hp => absurd hp List.not_mem_nil
  have hwhole : IsWhole w.currency (totalValue lines) := IsWhole.sum (List.forall_mem_map.2 fun line hline => by
    obtain ⟨-, -, -, -, -, -, hlineWhole⟩ := hshares line hline
    exact hlineWhole)
  obtain ⟨hnet, hbalanced⟩ := posted_apart hon hpost hdebits (fun hne => absurd rfl hne) hwhole.neg
  obtain ⟨hrun, hentries⟩ := emitted honly entries (.returned lines (totalValue lines))
  have hinputs : (w.run.inputs.map (·.itemId)).Nodup := by
    refine hkept.unique.resolve_left fun hall => ?_
    obtain ⟨line, hline, -⟩ := Grouping.exists_of_mem_right (forall₂_of_mapM_eq_ok hlines).flip hfirst
    obtain ⟨inp, hinp, -, hsome, -⟩ := hshares line hline
    exact hsome (hall inp hinp)
  have hkept' := hkept.giveBack hinputs (hids ▸ hnodup) hreceipts fun line hline => by
    obtain ⟨inp, hinp, hid, -, hbounds⟩ := hshares line hline
    exact ⟨inp, hinp, hid, hbounds⟩
  have hwip' := wip_returned w.run lines
  have hreceipts' : (applyManufacturingEvent w.run (.returned lines (totalValue lines))).receipts = [] := hreceipts
  refine .of_open (by rw [hrun]; exact hnone) (.inl (by rw [hrun]; exact requireOpen_ok hopen)) ?_ ?_ ?_ ?_ ?_ ?_
  · rw [hrun]
    exact (show w.currency = _ from honly.currency.symm) ▸ hkept'
  · rw [hrun, hreceipts']
    exact fun r hr => absurd hr List.not_mem_nil
  · rw [hrun, hreceipts']
    exact fun r hr => absurd hr List.not_mem_nil
  · rw [hrun, hentries, netMoved_append, hnet, hwip']
    intro hcode
    have hcode' : w.run.wipAccountCode = some account := hcode
    rw [h.moved hcode', hcode', Option.getD_some, if_pos rfl, sub_eq_add_neg]
  · rw [hrun, hentries, netMoved_append, hnet]
    intro hcode
    have hcode' : w.run.wipAccountCode = none := hcode
    have hzero := hkept'.account hcode'
    rw [hwip', hkept.account hcode', zero_sub] at hzero
    rw [h.unmoved hcode', hzero, ite_self, add_zero]
  · rw [hentries, List.forall_mem_append]
    exact ⟨h.balanced, hbalanced⟩

end

end Celerp
