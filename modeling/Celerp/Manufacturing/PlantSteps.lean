/-
  Steps of a production run (`celerp_manufacturing/movements.py`): its movements, what else
  is written to it while it is open, and what happens to its lots in between.

  `Step` is one of them and `Reachable` says how a plant comes about, from a run just
  created.  Every reachable plant is `Sound` (`sound_of_reachable`): its receipts name
  different lots, none of which is gone, and only a completed run has a closing.

  Issuing, receiving and closing are steps of their own: `complete_ok` and `receive_ok` take
  apart the movements that do several of them.
-/
import Celerp.Inventory.RestatedOnce
import Celerp.Manufacturing.Movements

namespace Celerp

open Outcome Relation

namespace Plant

/-! ## Steps -/

/-- Nothing of a plant but its lots was changed, and none of them is gone. -/
structure OnlyLots (w w' : Plant) : Prop where
  currency : w'.currency = w.currency
  run : w'.run = w.run
  entries : w'.entries = w.entries
  found : ∀ id, (w.lots.get? id).isSome → (w'.lots.get? id).isSome

/-- What the recording of its account leaves of a lot: an account it already records stays. -/
def AccountRecorded (s s' : ItemState) : Prop :=
  s' = s ∨ s.inventoryAccount = none ∧ ∃ code, s' = { s with inventoryAccount := some code }

/-- What happens to the lots outside the run: a lot nothing has touched is as it was, but
    for the recording of its account. -/
structure Elsewhere (w w' : Plant) : Prop extends OnlyLots w w' where
  touched : ∀ id, w.touched id → w'.touched id
  untouched : ∀ id lot lot', w'.touched id = false → w.lots.get? id = some lot → w'.lots.get? id = some lot' →
    AccountRecorded lot.state lot'.state

/-- The receipts an older run is given: each names a lot of its own. -/
def ReceiptsOf (w : Plant) (receipts : List Receipt) : Prop :=
  (receipts.map (·.lotItemId)).Nodup ∧ ∀ r ∈ receipts, (w.lots.get? r.lotItemId).isSome

/-- The events of an open run that no movement writes: starting, holding, resuming,
    rescheduling and cancelling it, and what settles an older run. -/
inductive Upkeep (w : Plant) : RunEvent → Prop
  | started : Upkeep w .started
  | onHold (reason) : Upkeep w (.onHold reason)
  | resumed : Upkeep w .resumed
  | scheduled (dueDate plannedStart priority) : Upkeep w (.scheduled dueDate plannedStart priority)
  | cancelled (reason) : Upkeep w (.cancelled reason)
  | wipUnresolved (reason) : Upkeep w (.wipUnresolved reason)
  | outputRepaired (discarded outputItemId expectedOutputs) :
    Upkeep w (.outputRepaired discarded outputItemId expectedOutputs)
  | wipOpened {data components} (h : w.ReceiptsOf data.receipts) : Upkeep w (.wipOpened data components)
  | wipReconciled {data} (h : w.ReceiptsOf data.receipts) : Upkeep w (.wipReconciled data)

/-- One step of a plant. -/
inductive Step : Plant → Plant → Prop
  | issued {w w' b wanted key} (hopen : w.run.requireOpen = .ok ()) (h : w.doIssue b wanted key = .ok w') : Step w w'
  | returned {w w' b wanted key} (hopen : w.run.requireOpen = .ok ()) (h : w.doReturn b wanted key = .ok w') :
    Step w w'
  | received {w w' b qty lotId key} (hopen : w.run.requireOpen = .ok ())
    (h : w.doReceive b qty lotId key = .ok w') : Step w w'
  | completed {w w' b payload wasted key} (hopen : w.run.requireOpen = .ok ())
    (h : w.doClose b payload wasted key = .ok w') : Step w w'
  | undone {w w' b lotId key} (h : w.undoReceipt b lotId key = .ok w') : Step w w'
  | reopened {w w' b key} (h : w.reopen b key = .ok w') : Step w w'
  | keptUp {w w' e} (hopen : w.run.requireOpen = .ok ()) (he : w'.Upkeep e)
    (hrun : w'.run = applyManufacturingEvent w.run e) (hcurrency : w'.currency = w.currency)
    (hfound : ∀ id, (w.lots.get? id).isSome → (w'.lots.get? id).isSome) : Step w w'
  | elsewhere {w w'} (h : Elsewhere w w') : Step w w'

/-- A plant whose run was just created. -/
def Created (w : Plant) : Prop := w.entries = [] ∧ ∃ data, w.run = .ofOrder data

/-- A plant that comes about. -/
def Reachable (w : Plant) : Prop := ∃ w₀, Created w₀ ∧ ReflTransGen Step w₀ w

/-- What every reachable plant keeps to. -/
structure Sound (w : Plant) : Prop where
  nodup : (w.run.receipts.map (·.lotItemId)).Nodup
  found : ∀ r ∈ w.run.receipts, (w.lots.get? r.lotItemId).isSome
  closing : w.run.status ≠ some .completed → w.run.closing = none

/-! ## Lots -/

section
variable {w w' w'' : Plant} {b : RunBooks} {id l : String}

theorem OnlyLots.refl (w : Plant) : OnlyLots w w := ⟨rfl, rfl, rfl, fun _ h => h⟩

theorem OnlyLots.trans (h : OnlyLots w w') (h' : OnlyLots w' w'') : OnlyLots w w'' where
  currency := h'.currency.trans h.currency
  run := h'.run.trans h.run
  entries := h'.entries.trans h.entries
  found := fun id hid => h'.found id (h.found id hid)

theorem get?_addLot {lots lots' : LotBooks} {lot : CostedLot} (h : lots.addLot id lot = some lots') :
    lots.get? id = none ∧ ∀ l, lots'.get? l = if l = id then some lot else lots.get? l := by
  unfold LotBooks.addLot at h
  split_ifs at h with hid
  have hnone : lots.get? id = none := Tally.lookup_eq_none_of_not_mem hid
  refine ⟨hnone, fun l => ?_⟩
  rw [← Option.some.inj h]
  unfold LotBooks.get? at hnone ⊢
  rw [List.lookup_append]
  by_cases hl : l = id
  · subst hl
    simp [hnone]
  · simp [hl, List.lookup_cons, beq_eq_false_iff_ne.2 hl]

theorem isSome_write {lots : LotBooks} {row : HistoryRow} : ((lots.write id row).get? l).isSome = (lots.get? l).isSome := by
  rw [LotBooks.get?_write]
  split_ifs <;> simp

theorem onlyLots_writeLot (e : ItemEvent) : OnlyLots w (w.writeLot id e) :=
  ⟨rfl, rfl, rfl, fun l hl => by rw [writeLot, isSome_write]; exact hl⟩

/-- What is read of a lot to tell where its value is kept. -/
structure Place where
  status : String
  mergedInto : Option String
  consignedIn : Bool
  inventoryAccount : Option String
  deriving DecidableEq

/-- The place of a lot. -/
def placeOf (s : ItemState) : Place := ⟨s.status, s.mergedInto, s.consignedIn, s.inventoryAccount⟩

/-- A change of its cost leaves a lot where it is. -/
theorem placeOf_costAdjusted (s : ItemState) (t : ℚ) (unknown : Option Bool) :
    placeOf ((applyItemEvent roundBasis s (.costAdjusted t unknown)).getD s) = placeOf s := by
  simp [applyItemEvent, ItemState.applyEvent, ItemState.setUnknown, ItemState.recomputeCost, ItemState.recomputedBase,
    ItemState.landedPoolsFromUnits, placeOf]

theorem place_write {lots : LotBooks} {t : ℚ} {unknown : Option Bool} {row : HistoryRow}
    (hrow : row.event = .costAdjusted t unknown) (l : String) :
    ((lots.write id row).get? l).map (placeOf ·.state) = (lots.get? l).map (placeOf ·.state) := by
  rw [LotBooks.get?_write]
  split_ifs with hl
  · rw [Option.map_map]
    congr 1
    funext lot
    simp only [Function.comp_apply, LotBooks.written, hrow, placeOf_costAdjusted]
  · rfl

theorem place_writeCarried {lots : LotBooks} {carried : List LotBooks.Carried} :
    ((lots.writeCarried id carried).get? l).map (placeOf ·.state) = (lots.get? l).map (placeOf ·.state) := by
  induction carried generalizing lots with
  | nil => rfl
  | cons c carried ih =>
    rw [LotBooks.writeCarried, List.foldl_cons, ← LotBooks.writeCarried, ih]
    exact @place_write _ _ _ c.unknown (c.row id) rfl l

/-! ## Restating -/

/-- Nothing but the cost of lots was changed. -/
structure OnlyCosts (w w' : Plant) : Prop extends OnlyLots w w' where
  place : ∀ id, (w'.lots.get? id).map (placeOf ·.state) = (w.lots.get? id).map (placeOf ·.state)
  touched : ∀ id, w.touched id → w'.touched id

theorem OnlyCosts.refl (w : Plant) : OnlyCosts w w := ⟨.refl w, fun _ => rfl, fun _ h => h⟩

theorem OnlyCosts.trans (h : OnlyCosts w w') (h' : OnlyCosts w' w'') : OnlyCosts w w'' where
  toOnlyLots := h.toOnlyLots.trans h'.toOnlyLots
  place := fun id => (h'.place id).trans (h.place id)
  touched := fun id hid => h'.touched id (h.touched id hid)

/-- A change of a lot's cost leaves every lot where it is. -/
theorem restateItemCost_place {lots : LotBooks} {t : ℚ} {r : LotBooks.Restatement × LotBooks}
    (h : lots.restateItemCost id (.costAdjusted t none) = .ok r) (l : String) :
    (r.2.get? l).map (placeOf ·.state) = (lots.get? l).map (placeOf ·.state) := by
  unfold LotBooks.restateItemCost at h
  obtain ⟨plan, -, h⟩ := bind_eq_ok.1 h
  obtain rfl := Except.ok.inj h
  exact place_writeCarried.trans (place_write rfl l)

theorem isSome_of_place {lots lots' : LotBooks}
    (h : (lots'.get? l).map (placeOf ·.state) = (lots.get? l).map (placeOf ·.state)) :
    (lots'.get? l).isSome = (lots.get? l).isSome := by
  simpa using congrArg Option.isSome h

/-- What a change of a lot's cost does: the lot its value is now in tells the account. -/
theorem restate_ok {delta : ℚ} {r : Plant × Option String} (h : w.restate b id delta = .ok r) :
    OnlyCosts w r.1 ∧ ∃ last, w.lots.lineageEnd (w.lots.lots.length + 1) [] id = .ok last ∧
      if b.on then ∃ code, last.account = .ok code ∧ r.2 = some code else r.2 = none := by
  unfold restate at h
  obtain ⟨last, hlast, h⟩ := bind_eq_ok.1 h
  obtain ⟨restated, hrestated, h⟩ := bind_eq_ok.1 h
  have hplace := restateItemCost_place (mapError_eq_ok.1 hrestated)
  have honly : OnlyCosts w { w with
      lots := restated.2
      touched := fun id => w.touched id || restated.1.carried.any (·.lotId = id) } :=
    ⟨⟨rfl, rfl, rfl, fun l hl => by rw [isSome_of_place (hplace l)]; exact hl⟩, hplace, fun l hl => by simp [hl]⟩
  by_cases hon : b.on
  · rw [if_pos hon] at h
    obtain ⟨code, hcode, rfl⟩ := map_eq_ok.1 h
    refine ⟨honly, last, hlast, ?_⟩
    rw [if_pos hon]
    exact ⟨code, hcode, rfl⟩
  · rw [if_neg hon] at h
    obtain rfl := Except.ok.inj h
    refine ⟨honly, last, hlast, ?_⟩
    rw [if_neg hon]

theorem onlyCosts_of_restate {lots : List RestatedLot} {st st' : Restating}
    (h : lots.foldlM (Restating.restateLot b) st = .ok st') : OnlyCosts st.plant st'.plant := by
  refine keeps_of_foldlM_eq_ok (I := fun t => OnlyCosts st.plant t.plant) ?_ h (.refl st.plant)
  intro lot _ t t' ht hI
  obtain ⟨r, hr, rfl⟩ := map_eq_ok.1 ht
  exact hI.trans (restate_ok hr).1

/-! ## What a movement does -/

theorem refuseIf_ok {p : Prop} [Decidable p] {e : RunRefusal} {u : Unit} : refuseIf p e = .ok u ↔ ¬p := by
  unfold refuseIf
  split_ifs with hp <;> simp [hp]

theorem onlyLots_of_consume {line : String × ℚ} {st st' : Issuing} (h : st.consume b line = .ok st') :
    OnlyLots st.plant st'.plant := by
  unfold Issuing.consume at h
  cases hlot : st.plant.lots.get? line.1 with
  | none =>
    rw [hlot] at h
    cases h
  | some lot =>
    rw [hlot] at h
    dsimp only at h
    split_ifs at h
    · obtain ⟨code, -, rfl⟩ := map_eq_ok.1 h
      exact onlyLots_writeLot _
    · obtain rfl := Except.ok.inj h
      exact onlyLots_writeLot _

/-- What an issue does. -/
theorem doIssue_ok {wanted : List (String × ℚ)} {key : String} (h : w.doIssue b wanted key = .ok w') :
    wanted = [] ∧ w' = w ∨ ∃ befores wipCode st entries, wanted.mapM (checkIssue w b) = .ok befores ∧
      issueWip b w.run befores = .ok wipCode ∧ wanted.foldlM (Issuing.consume b) ⟨w, [], []⟩ = .ok st ∧
      b.post w.currency ("issue:" ++ key) wipCode (issuedTotal st.items) st.credits 0 = .ok entries ∧
      OnlyLots w st.plant ∧ w' = (st.plant.posted entries).emitRun (.issued st.items (some (issuedTotal st.items))
        (if issuedTotal st.items ≠ 0 then wipCode else none)) := by
  unfold doIssue at h
  obtain ⟨-, -, h⟩ := bind_eq_ok.1 h
  split_ifs at h with hwanted
  · exact .inl ⟨hwanted, (Except.ok.inj h).symm⟩
  · obtain ⟨befores, hbefores, h⟩ := bind_eq_ok.1 h
    obtain ⟨wipCode, hwipCode, h⟩ := bind_eq_ok.1 h
    obtain ⟨st, hst, h⟩ := bind_eq_ok.1 h
    obtain ⟨entries, hentries, h⟩ := bind_eq_ok.1 h
    have honly : OnlyLots w st.plant := keeps_of_foldlM_eq_ok (I := fun t => OnlyLots w t.plant)
      (fun line _ t t' ht hI => hI.trans (onlyLots_of_consume ht)) hst (.refl w)
    exact .inr ⟨befores, wipCode, st, entries, hbefores, hwipCode, hst, hentries, honly, (Except.ok.inj h).symm⟩

theorem onlyLots_of_giveBack {line : ValuedLine} {st st' : Returning} (h : st.giveBack b line = .ok st') :
    OnlyLots st.plant st'.plant := by
  unfold Returning.giveBack at h
  cases hlot : st.plant.lots.get? line.itemId with
  | none =>
    rw [hlot] at h
    cases h
  | some lot =>
    rw [hlot] at h
    dsimp only at h
    by_cases hoff : lot.offBooks line.value
    · rw [if_pos hoff] at h
      obtain rfl := Except.ok.inj h
      exact onlyLots_writeLot _
    · rw [if_neg hoff] at h
      split at h
      · cases h
      · split_ifs at h
        · obtain ⟨code, -, rfl⟩ := map_eq_ok.1 h
          exact onlyLots_writeLot _
        · obtain rfl := Except.ok.inj h
          exact onlyLots_writeLot _

/-- What a return does. -/
theorem doReturn_ok {wanted : List (String × ℚ)} {key : String} (h : w.doReturn b wanted key = .ok w') :
    wanted = [] ∧ w' = w ∨ ∃ lines wipCode st entries, wanted.mapM (returnedValue w) = .ok lines ∧
      b.keepWip (totalValue lines ≠ 0) w.run.wipAccountCode = .ok wipCode ∧
      lines.foldlM (Returning.giveBack b) ⟨w, []⟩ = .ok st ∧
      b.post w.currency ("return:" ++ key) wipCode (-totalValue lines) st.debits 0 = .ok entries ∧
      w.run.receipts = [] ∧ OnlyLots w st.plant ∧
      w' = (st.plant.posted entries).emitRun (.returned lines (totalValue lines)) := by
  unfold doReturn at h
  obtain ⟨-, -, h⟩ := bind_eq_ok.1 h
  split_ifs at h with hwanted hreceived
  · exact .inl ⟨hwanted, (Except.ok.inj h).symm⟩
  · obtain ⟨lines, hlines, h⟩ := bind_eq_ok.1 h
    obtain ⟨-, -, h⟩ := bind_eq_ok.1 h
    obtain ⟨wipCode, hwipCode, h⟩ := bind_eq_ok.1 h
    obtain ⟨st, hst, h⟩ := bind_eq_ok.1 h
    obtain ⟨entries, hentries, h⟩ := bind_eq_ok.1 h
    have honly : OnlyLots w st.plant := keeps_of_foldlM_eq_ok (I := fun t => OnlyLots w t.plant)
      (fun line _ t t' ht hI => hI.trans (onlyLots_of_giveBack ht)) hst (.refl w)
    have hnone : w.run.receipts = [] := not_not.1 fun hne => hreceived (.inr hne)
    exact .inr ⟨lines, wipCode, st, entries, hlines, hwipCode, hst, hentries, hnone, honly, (Except.ok.inj h).symm⟩

/-- What a receipt does. -/
theorem doReceive_ok {qty : ℚ} {lotId key : String} (h : w.doReceive b qty lotId key = .ok w') :
    ∃ (product : CostedLot) (code wipCode : Option String) (lots : LotBooks) (entries : List RunEntry),
      w.run.outputItemId.bind w.lots.get? = some product ∧ 0 < qty ∧ qty ≤ w.run.outstandingOutput + EPS ∧
      b.newLotAccount = .ok code ∧
      b.keepWip (w.run.receiptValue qty w.currency ≠ 0) w.run.wipAccountCode = .ok wipCode ∧
      w.lots.addLot lotId (.ofEvents product.state.sku
        (outputEvents w.run product.state qty (w.run.receiptValue qty w.currency) code)) = some lots ∧
      b.post w.currency ("receive:" ++ key) wipCode (-w.run.receiptValue qty w.currency)
        (code.toList.map fun c => (c, w.run.receiptValue qty w.currency)) 0 = .ok entries ∧
      w' = ({ w with lots := lots, touched := fun id => id ≠ lotId && w.touched id }.posted entries).emitRun
        (.received qty (some lotId) (some (w.run.receiptValue qty w.currency))) := by
  unfold doReceive at h
  obtain ⟨⟨⟩, hqty, h⟩ := bind_eq_ok.1 h
  obtain ⟨⟨⟩, hover, h⟩ := bind_eq_ok.1 h
  obtain ⟨-, -, h⟩ := bind_eq_ok.1 h
  have hpos : 0 < qty := not_le.1 (refuseIf_ok.1 hqty)
  have hle : qty ≤ w.run.outstandingOutput + EPS := not_lt.1 (refuseIf_ok.1 hover)
  cases hproduct : w.run.outputItemId.bind w.lots.get? with
  | none =>
    rw [hproduct] at h
    cases h
  | some product =>
    rw [hproduct] at h
    dsimp only at h
    split_ifs at h
    obtain ⟨code, hcode, h⟩ := bind_eq_ok.1 h
    obtain ⟨wipCode, hwipCode, h⟩ := bind_eq_ok.1 h
    obtain ⟨lots, hlots, h⟩ := bind_eq_ok.1 h
    obtain ⟨entries, hentries, h⟩ := bind_eq_ok.1 h
    refine ⟨product, code, wipCode, lots, entries, rfl, hpos, hle, hcode, hwipCode, ?_, hentries, (Except.ok.inj h).symm⟩
    cases hadd : w.lots.addLot lotId (.ofEvents product.state.sku
        (outputEvents w.run product.state qty (w.run.receiptValue qty w.currency) code)) with
    | none =>
      rw [hadd] at hlots
      cases hlots
    | some lots' =>
      rw [hadd] at hlots
      rw [Except.ok.inj hlots]

/-- What completion does. -/
theorem doClose_ok {payload : ClosingDetails} {wasted : List (String × ℚ)} {key : String}
    (h : w.doClose b payload wasted key = .ok w') :
    ∃ lines waste st wipCode entries data, valueWaste w.run wasted w.currency = .ok lines ∧
      waste = w.run.closingWaste (totalValue lines) ∧
      totalValue lines ≤ w.run.wipIssued.getD 0 - keptValue w.run.closingReceipts ∧
      (w.run.closingReceipts = [] → w.run.wipIssued.getD 0 - waste = 0) ∧
      (w.run.restatedLots waste w.currency).foldlM (Restating.restateLot b) ⟨w, []⟩ = .ok st ∧
      b.keepWip (w.run.wip ≠ 0) w.run.wipAccountCode = .ok wipCode ∧
      b.post w.currency ("complete:" ++ key) wipCode (-w.run.wip) st.amounts waste = .ok entries ∧
      OnlyCosts w st.plant ∧ data.transferred = some (w.run.wipIssued.getD 0 - waste) ∧ data.wasted = some waste ∧
      data.closing = some ⟨w.run.wip, waste, w.run.restatedLots waste w.currency, b.on⟩ ∧
      w' = (st.plant.posted entries).emitRun (.completed data) := by
  unfold doClose at h
  obtain ⟨lines, hlines, h⟩ := bind_eq_ok.1 h
  obtain ⟨⟨⟩, hkept, h⟩ := bind_eq_ok.1 h
  obtain ⟨⟨⟩, hunaccounted, h⟩ := bind_eq_ok.1 h
  obtain ⟨st, hst, h⟩ := bind_eq_ok.1 h
  obtain ⟨wipCode, hwipCode, h⟩ := bind_eq_ok.1 h
  obtain ⟨entries, hentries, h⟩ := bind_eq_ok.1 h
  refine ⟨lines, _, st, wipCode, entries, _, hlines, rfl, not_lt.1 (refuseIf_ok.1 hkept), fun hreceipts => ?_, hst,
    hwipCode, hentries, onlyCosts_of_restate hst, rfl, rfl, rfl, (Except.ok.inj h).symm⟩
  by_contra hne
  exact refuseIf_ok.1 hunaccounted ⟨hne, hreceipts⟩

/-- What an undone receipt does. -/
theorem undoReceipt_ok {lotId key : String} (h : w.undoReceipt b lotId key = .ok w') :
    ∃ receipt code wipCode entries, w.run.requireOpen = .ok () ∧
      w.run.receipts.find? (·.lotItemId = lotId) = some receipt ∧
      w.untouched b lotId receipt.quantity receipt.value ∧ w.accountOf b lotId receipt.value = .ok code ∧
      b.keepWip (receipt.value ≠ 0) w.run.wipAccountCode = .ok wipCode ∧
      b.post w.currency ("unreceive:" ++ key) wipCode receipt.value
        (code.toList.map fun c => (c, -receipt.value)) 0 = .ok entries ∧
      w' = (((w.writeLot lotId (.quantityAdjusted 0 (some 0) none none none)).writeLot lotId
        (.statusSet "archived" {})).posted entries).emitRun (.receiptUndone lotId receipt.quantity receipt.value) := by
  unfold undoReceipt at h
  obtain ⟨-, -, h⟩ := bind_eq_ok.1 h
  obtain ⟨⟨⟩, hopen, h⟩ := bind_eq_ok.1 h
  obtain ⟨-, -, h⟩ := bind_eq_ok.1 h
  cases hreceipt : w.run.receipts.find? (·.lotItemId = lotId) with
  | none =>
    rw [hreceipt] at h
    cases h
  | some receipt =>
    rw [hreceipt] at h
    dsimp only at h
    split_ifs at h with huntouched
    obtain ⟨code, hcode, h⟩ := bind_eq_ok.1 h
    obtain ⟨wipCode, hwipCode, h⟩ := bind_eq_ok.1 h
    obtain ⟨entries, hentries, h⟩ := bind_eq_ok.1 h
    exact ⟨receipt, code, wipCode, entries, hopen, rfl, by simpa using huntouched, hcode, hwipCode, hentries,
      (Except.ok.inj h).symm⟩

/-- What a reopening does. -/
theorem reopen_ok {key : String} (h : w.reopen b key = .ok w') :
    ∃ closing st wipCode entries, w.run.status = some .completed ∧ w.run.closing = some closing ∧
      closing.booked = b.on ∧ w.checkLots b closing = .ok () ∧
      ((lotsByItem closing.lots).map fun lot => (⟨lot.lotItemId, -lot.delta⟩ : RestatedLot)).foldlM
        (Restating.restateLot b) ⟨w, []⟩ = .ok st ∧
      b.keepWip (closing.held ≠ 0) w.run.wipAccountCode = .ok wipCode ∧
      b.post w.currency ("reopen:" ++ key) wipCode closing.held st.amounts (-closing.wasted) = .ok entries ∧
      OnlyCosts w st.plant ∧ w' = (st.plant.posted entries).emitRun .reopened := by
  unfold reopen at h
  obtain ⟨⟨⟩, hcompleted, h⟩ := bind_eq_ok.1 h
  cases hclosing : w.run.closing.filter fun closing => closing.booked = b.on with
  | none =>
    rw [hclosing] at h
    cases h
  | some closing =>
    rw [hclosing] at h
    obtain ⟨hsome, hbooked⟩ := Option.filter_eq_some_iff.1 hclosing
    obtain ⟨-, -, h⟩ := bind_eq_ok.1 h
    obtain ⟨-, -, h⟩ := bind_eq_ok.1 h
    obtain ⟨⟨⟩, hlots, h⟩ := bind_eq_ok.1 h
    obtain ⟨st, hst, h⟩ := bind_eq_ok.1 h
    obtain ⟨wipCode, hwipCode, h⟩ := bind_eq_ok.1 h
    obtain ⟨entries, hentries, h⟩ := bind_eq_ok.1 h
    exact ⟨closing, st, wipCode, entries, not_not.1 (refuseIf_ok.1 hcompleted), hsome, by simpa using hbooked, hlots,
      hst, hwipCode, hentries, onlyCosts_of_restate hst, (Except.ok.inj h).symm⟩

/-! ## What every reachable plant keeps to -/

section
variable {s : RunState}

theorem requireOpen_ok (h : s.requireOpen = .ok ()) : s.status ≠ some .completed := by
  unfold RunState.requireOpen at h
  split_ifs at h with hclosed
  exact fun hcompleted => hclosed (.inl hcompleted)

theorem closing_issue (items : List IssuedLine) (value : Option ℚ) (code : Option String) :
    (s.issue items value code).closing = s.closing ∧ (s.issue items value code).receipts = s.receipts := by
  unfold RunState.issue RunState.start
  cases value <;> simp only <;> split_ifs <;> exact ⟨rfl, rfl⟩

theorem closing_receive (qty : ℚ) (lotId : String) (v : ℚ) :
    (s.receive qty (some lotId) (some v)).closing = s.closing ∧
      (s.receive qty (some lotId) (some v)).receipts = s.receipts ++ [⟨lotId, qty, v, false⟩] :=
  ⟨rfl, rfl⟩

end

theorem Sound.of_onlyLots (h : w.Sound) (honly : OnlyLots w w') : w'.Sound where
  nodup := honly.run ▸ h.nodup
  found := fun r hr => honly.found _ (h.found r (honly.run ▸ hr))
  closing := honly.run ▸ h.closing

/-- The soundness of a plant whose run was open and keeps its receipts. -/
theorem Sound.of_kept (h : w.Sound) (hopen : w.run.status ≠ some .completed)
    (hclosing : w'.run.closing = w.run.closing) (hreceipts : w'.run.receipts.Sublist w.run.receipts)
    (hfound : ∀ id, (w.lots.get? id).isSome → (w'.lots.get? id).isSome) : w'.Sound where
  nodup := h.nodup.sublist (hreceipts.map _)
  found := fun r hr => hfound _ (h.found r (hreceipts.subset hr))
  closing := fun _ => hclosing.trans (h.closing hopen)

theorem Upkeep.closing {e : RunEvent} (he : w.Upkeep e) (s : RunState) :
    (applyManufacturingEvent s e).closing = s.closing ∧
      ((applyManufacturingEvent s e).receipts = s.receipts ∨ w.ReceiptsOf (applyManufacturingEvent s e).receipts) := by
  cases he with
  | wipOpened h => exact ⟨rfl, .inr h⟩
  | wipReconciled h => exact ⟨rfl, .inr h⟩
  | _ => exact ⟨rfl, .inl rfl⟩

/-- Every step keeps a plant sound. -/
theorem Step.sound (hstep : Step w w') (h : w.Sound) : w'.Sound := by
  cases hstep with
  | issued hopen hok =>
    rcases doIssue_ok hok with ⟨-, rfl⟩ | ⟨befores, wipCode, st, entries, -, -, -, -, honly, rfl⟩
    · exact h
    · have hrun : (st.plant.posted entries).run = w.run := honly.run
      obtain ⟨hclosing, hreceipts⟩ := closing_issue (s := w.run) st.items (some (issuedTotal st.items))
        (if issuedTotal st.items ≠ 0 then wipCode else none)
      refine h.of_kept (requireOpen_ok hopen) ?_ ?_ honly.found
      · rw [emitRun, hrun]
        exact hclosing
      · rw [emitRun, hrun]
        exact hreceipts ▸ .refl _
  | returned hopen hok =>
    rcases doReturn_ok hok with ⟨-, rfl⟩ | ⟨lines, wipCode, st, entries, -, -, -, -, -, honly, rfl⟩
    · exact h
    · have hrun : (st.plant.posted entries).run = w.run := honly.run
      refine h.of_kept (requireOpen_ok hopen) ?_ ?_ honly.found
      · rw [emitRun, hrun]
        rfl
      · rw [emitRun, hrun]
        exact .refl _
  | received hopen hok =>
    obtain ⟨product, code, wipCode, lots, entries, -, -, -, -, -, hadd, -, rfl⟩ := doReceive_ok hok
    obtain ⟨hnone, hget⟩ := get?_addLot hadd
    have hfound : ∀ id, (w.lots.get? id).isSome → (lots.get? id).isSome := by
      intro id hid
      rw [hget]
      split_ifs
      · rfl
      · exact hid
    refine ⟨?_, ?_, fun _ => h.closing (requireOpen_ok hopen)⟩
    · rw [emitRun, applyManufacturingEvent, (closing_receive _ _ _).2, List.map_append]
      refine List.nodup_append.2 ⟨h.nodup, List.nodup_singleton _, ?_⟩
      intro a ha c hc heq
      obtain rfl : c = _ := List.mem_singleton.1 hc
      obtain ⟨r, hr, rfl⟩ := List.mem_map.1 ha
      have hsome := h.found r hr
      rw [heq, hnone] at hsome
      cases hsome
    · intro r hr
      rw [emitRun, applyManufacturingEvent, (closing_receive _ _ _).2, List.mem_append] at hr
      rcases hr with hr | hr
      · exact hfound _ (h.found r hr)
      · obtain rfl := List.mem_singleton.1 hr
        exact (congrArg Option.isSome (hget _)).trans (by simp)
  | completed hopen hok =>
    obtain ⟨lines, waste, st, wipCode, entries, data, -, -, -, -, -, -, -, honly, -, -, -, rfl⟩ := doClose_ok hok
    have hsound := h.of_onlyLots honly.toOnlyLots
    exact ⟨hsound.nodup, hsound.found, fun hne => absurd rfl hne⟩
  | undone hok =>
    obtain ⟨receipt, code, wipCode, entries, hopen, -, -, -, -, -, rfl⟩ := undoReceipt_ok hok
    refine h.of_kept (requireOpen_ok hopen) rfl List.filter_sublist fun id hid => ?_
    exact ((onlyLots_writeLot _).trans (onlyLots_writeLot _)).found id hid
  | reopened hok =>
    obtain ⟨closing, st, wipCode, entries, -, -, -, -, -, -, -, honly, rfl⟩ := reopen_ok hok
    have hsound := h.of_onlyLots honly.toOnlyLots
    exact ⟨hsound.nodup, hsound.found, fun _ => rfl⟩
  | keptUp hopen he hrun hcurrency hfound =>
    obtain ⟨hclosing, hreceipts⟩ := he.closing w.run
    rw [← hrun] at hclosing hreceipts
    rcases hreceipts with hreceipts | ⟨hnodup, hlots⟩
    · exact h.of_kept (requireOpen_ok hopen) hclosing (hreceipts ▸ .refl _) hfound
    · exact ⟨hnodup, hlots, fun _ => hclosing.trans (h.closing (requireOpen_ok hopen))⟩
  | elsewhere helse => exact h.of_onlyLots helse.toOnlyLots

theorem Created.sound (h : w.Created) : w.Sound := by
  obtain ⟨-, data, hrun⟩ := h
  refine ⟨?_, ?_, fun _ => ?_⟩ <;> rw [hrun]
  · exact List.nodup_nil
  · exact fun r hr => absurd hr List.not_mem_nil
  · rfl

/-- **Every reachable plant is sound.** -/
theorem sound_of_reachable (h : w.Reachable) : w.Sound := by
  obtain ⟨w₀, hcreated, hsteps⟩ := h
  induction hsteps with
  | refl => exact hcreated.sound
  | tail _ hstep ih => exact hstep.sound ih

theorem Reachable.step (h : w.Reachable) (hstep : Step w w') : w'.Reachable := by
  obtain ⟨w₀, hcreated, hsteps⟩ := h
  exact ⟨w₀, hcreated, hsteps.tail hstep⟩

/-! ## Movements that take several steps -/

theorem isOpen_start {s : RunState} (h : s.requireOpen = .ok ()) (items : List IssuedLine) (value : Option ℚ)
    (code : Option String) : (s.issue items value code).requireOpen = .ok () := by
  have hstatus : (s.issue items value code).status = s.status ∨
      (s.issue items value code).status = some .inProgress := by
    unfold RunState.issue RunState.start
    cases value <;> simp only <;> split_ifs
    all_goals first
      | exact .inr rfl
      | exact .inl rfl
  unfold RunState.requireOpen at h ⊢
  rcases hstatus with hstatus | hstatus <;> rw [hstatus]
  · exact h
  · rfl

/-- Issuing leaves a run open. -/
theorem doIssue_open {wanted : List (String × ℚ)} {key : String} (hopen : w.run.requireOpen = .ok ())
    (h : w.doIssue b wanted key = .ok w') : w'.run.requireOpen = .ok () := by
  rcases doIssue_ok h with ⟨-, rfl⟩ | ⟨befores, wipCode, st, entries, -, -, -, -, honly, rfl⟩
  · exact hopen
  · have hrun : (st.plant.posted entries).run = w.run := honly.run
    rw [emitRun, hrun]
    exact isOpen_start hopen _ _ _

/-- A receipt leaves a run open. -/
theorem doReceive_open {qty : ℚ} {lotId key : String} (hopen : w.run.requireOpen = .ok ())
    (h : w.doReceive b qty lotId key = .ok w') : w'.run.requireOpen = .ok () := by
  obtain ⟨product, code, wipCode, lots, entries, -, -, -, -, -, -, -, rfl⟩ := doReceive_ok h
  exact hopen

/-- **Completion is issuing and receiving what is left, and then closing an open run.** -/
theorem complete_ok {payload : ClosingDetails} {quantity : Option ℚ} {lotId key : String}
    (h : w.complete b payload quantity lotId key = .ok w') :
    ∃ wasted ready, ReflTransGen Step w ready ∧ ready.run.requireOpen = .ok () ∧
      ready.doClose b payload wasted key = .ok w' := by
  unfold complete at h
  obtain ⟨⟨⟩, hopen, h⟩ := bind_eq_ok.1 h
  obtain ⟨-, -, h⟩ := bind_eq_ok.1 h
  obtain ⟨-, -, h⟩ := bind_eq_ok.1 h
  obtain ⟨wasted, -, h⟩ := bind_eq_ok.1 h
  obtain ⟨-, -, h⟩ := bind_eq_ok.1 h
  obtain ⟨issued, hissued, h⟩ := bind_eq_ok.1 h
  obtain ⟨received, hreceived, h⟩ := bind_eq_ok.1 h
  have hissuedSteps : ReflTransGen Step w issued ∧ issued.run.requireOpen = .ok () := by
    unfold issueOutstanding at hissued
    split_ifs at hissued
    · obtain rfl := Except.ok.inj hissued
      exact ⟨.refl, hopen⟩
    · exact ⟨.single (.issued hopen hissued), doIssue_open hopen hissued⟩
  unfold receiveRest at hreceived
  split_ifs at hreceived
  · exact ⟨wasted, received, hissuedSteps.1.tail (.received hissuedSteps.2 hreceived),
      doReceive_open hissuedSteps.2 hreceived, h⟩
  · obtain rfl := Except.ok.inj hreceived
    exact ⟨wasted, issued, hissuedSteps.1, hissuedSteps.2, h⟩

/-- **A receipt receives, and closes a run whose output is then fully received.** -/
theorem receive_ok {quantity : Option ℚ} {lotId key : String} (h : w.receive b quantity lotId key = .ok w') :
    ∃ ready, Step w ready ∧ ready.run.requireOpen = .ok () ∧
      (w' = ready ∨ ready.doClose b .plain [] ("receive:" ++ key) = .ok w') := by
  unfold receive at h
  obtain ⟨⟨⟩, hopen, h⟩ := bind_eq_ok.1 h
  obtain ⟨-, -, h⟩ := bind_eq_ok.1 h
  obtain ⟨-, -, h⟩ := bind_eq_ok.1 h
  obtain ⟨received, hreceived, h⟩ := bind_eq_ok.1 h
  refine ⟨received, .received hopen hreceived, doReceive_open hopen hreceived, ?_⟩
  split_ifs at h
  · exact .inr h
  · exact .inl (Except.ok.inj h).symm

/-- **The movements of a run are steps of its plant.** -/
theorem Reachable.movement (h : w.Reachable) :
    (∀ b items key w', w.issue b items key = .ok w' → w'.Reachable) ∧
    (∀ b items key w', w.returnMaterials b items key = .ok w' → w'.Reachable) ∧
    (∀ b quantity lotId key w', w.receive b quantity lotId key = .ok w' → w'.Reachable) ∧
    (∀ b payload quantity lotId key w', w.complete b payload quantity lotId key = .ok w' → w'.Reachable) ∧
    (∀ b lotId key w', w.undoReceipt b lotId key = .ok w' → w'.Reachable) ∧
    ∀ b key w', w.reopen b key = .ok w' → w'.Reachable := by
  refine ⟨?_, ?_, ?_, ?_, fun b lotId key w' hok => h.step (.undone hok), fun b key w' hok => h.step (.reopened hok)⟩
  · intro b items key w' hok
    obtain ⟨⟨⟩, hopen, hok⟩ := bind_eq_ok.1 hok
    obtain ⟨-, -, hok⟩ := bind_eq_ok.1 hok
    obtain ⟨-, -, hok⟩ := bind_eq_ok.1 hok
    obtain ⟨wanted, -, hok⟩ := bind_eq_ok.1 hok
    exact h.step (.issued hopen hok)
  · intro b items key w' hok
    obtain ⟨⟨⟩, hopen, hok⟩ := bind_eq_ok.1 hok
    obtain ⟨-, -, hok⟩ := bind_eq_ok.1 hok
    obtain ⟨wanted, -, hok⟩ := bind_eq_ok.1 hok
    exact h.step (.returned hopen hok)
  · intro b quantity lotId key w' hok
    obtain ⟨received, hstep, hopen, rfl | hclose⟩ := receive_ok hok
    · exact h.step hstep
    · exact (h.step hstep).step (.completed hopen hclose)
  · intro b payload quantity lotId key w' hok
    obtain ⟨wasted, ready, hsteps, hopen, hclose⟩ := complete_ok hok
    obtain ⟨w₀, hcreated, hbefore⟩ := h
    exact ⟨w₀, hcreated, (hbefore.trans hsteps).tail (.completed hopen hclose)⟩

end

end Plant

end Celerp
