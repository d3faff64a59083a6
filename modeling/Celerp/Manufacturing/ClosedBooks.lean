/-
  What receiving, completing and undoing keep of a production run
  (`celerp_manufacturing/movements.py`).

  Each keeps the run in the books: a receipt takes no more than the run holds
  (`InBooks.doReceive`), closing leaves all that is not wasted on the lots
  (`InBooks.doClose`), and undoing a receipt and reopening put back what they moved
  (`InBooks.undoReceipt`, `InBooks.reopen`).  What happens elsewhere does too, where it leaves
  the run's lots as they are (`InBooks.elsewhere`).
-/
import Celerp.Manufacturing.KeptBooks

namespace Celerp

open AccountRole Outcome Plant

section
variable {w w' : Plant} {b : RunBooks} {account c key id : String} {s : RunState} {q v waste : ℚ}
  {amounts : List (String × ℚ)} {closing : Closing}

/-! ## Receiving -/

/-- What a run that is not completed holds is in whole minor units. -/
theorem RunState.Kept.wip_eq (h : s.Kept c) :
    s.wip = issuedValues s.inputs - (s.receipts.map (·.value)).sum ∧ IsWhole c s.wip := by
  have hwip : s.wip = issuedValues s.inputs - (s.receipts.map (·.value)).sum := by
    rw [RunState.wip, h.issued, h.transferred, h.wasted, sub_zero]
  refine ⟨hwip, ?_⟩
  rw [hwip]
  refine IsWhole.sub (IsWhole.sum (List.forall_mem_map.2 fun i hi => (h.values i hi).2)) (IsWhole.sum ?_)
  exact List.forall_mem_map.2 fun r hr => (h.receipts r hr).2.2.1

/-- **A receipt takes no more than the run holds**, in whole minor units. -/
theorem RunState.Kept.receiptValue (h : s.Kept c) (hq : 0 < q) :
    0 ≤ s.receiptValue q c ∧ s.receiptValue q c ≤ s.wip ∧ IsWhole c (s.receiptValue q c) := by
  have hwhole := h.wip_eq.2
  have hnn := h.nonneg
  unfold RunState.receiptValue
  split_ifs with hlast
  · exact ⟨hnn, le_rfl, hwhole⟩
  · have hless : q ≤ s.outstandingOutput := by linarith [EPS_pos, not_le.1 hlast]
    obtain ⟨hshare, hshareLe⟩ := share_bounds hnn hq.le hless (hq.trans_le hless)
    exact ⟨roundMoney_nonneg c hshare, (roundMoney_mono c hshareLe).trans_eq (roundMoney_of_isWhole hwhole),
      isWhole_roundMoney _ c⟩

theorem wip_receive (s : RunState) (qty : ℚ) (lotId : String) (v : ℚ) :
    (s.receive qty (some lotId) (some v)).wip = s.wip - v := by
  simp only [RunState.receive, RunState.wip, RunState.addTransferred, Option.getD_some]
  ring

/-- **A receipt keeps a run's values in agreement.** -/
theorem RunState.Kept.receive (h : s.Kept c) (hq : 0 < q) (hv : 0 ≤ v) (hle : v ≤ s.wip) (hwhole : IsWhole c v)
    (hfresh : id ∉ s.inputs.map (·.itemId)) : (s.receive q (some id) (some v)).Kept c := by
  have hreceipts := (closing_receive (s := s) q id v).2
  have hwip := wip_receive s q id v
  constructor
  case unique => exact h.unique
  case valued => exact h.valued
  case values => exact h.values
  case issued => exact h.issued
  case receipts =>
    rw [hreceipts, List.forall_mem_append]
    exact ⟨h.receipts, List.forall_mem_singleton.2 ⟨hq, hv, hwhole, rfl, hfresh⟩⟩
  case transferred =>
    rw [hreceipts, List.map_append, List.sum_append, ← h.transferred, List.map_singleton, List.sum_singleton]
    rfl
  case wasted => exact h.wasted
  case nonneg =>
    rw [hwip]
    exact sub_nonneg.2 hle
  case account =>
    intro hcode
    have hzero := h.account hcode
    rw [hwip]
    linarith

/-- A lot of output is kept on the account of the day. -/
theorem account_outputEvents {product : ItemState} {sku : String} {code : Option String} :
    (CostedLot.ofEvents sku (outputEvents s product q v code)).state.inventoryAccount = code := by
  have hcreated : ∀ t : ItemState,
      (t.migrateSellBy.recomputeCost roundBasis).inventoryAccount = t.inventoryAccount := by
    intro t
    have hplace := congrArg Place.inventoryAccount (kind_recomputeCost t.migrateSellBy).1
    refine hplace.trans ?_
    unfold ItemState.migrateSellBy
    split_ifs <;> rfl
  exact hcreated _

theorem newLotAccount_ok {code : Option String} (hon : b.on) (h : b.newLotAccount = .ok code) :
    ∃ purchased, code = some purchased ∧ b.roles.roleMap.lookup inventoryPurchased = some purchased := by
  unfold RunBooks.newLotAccount at h
  rw [if_pos hon] at h
  obtain ⟨purchased, hpurchased, rfl⟩ := map_eq_ok.1 h
  exact ⟨purchased, rfl, resolve_ok hpurchased⟩

/-- **A receipt keeps a run in the books**, where its lot is new to the run, of a product that
    is stock, and kept apart. -/
theorem Plant.InBooks.doReceive (h : w.InBooks account) (hsound : w.Sound) (hopen : w.run.requireOpen = .ok ())
    (hon : b.on) (hstock : ∀ product ∈ w.run.outputItemId.bind w.lots.get?, product.state.isStockType)
    (hfresh : id ∉ w.run.inputs.map (·.itemId))
    (hpurchased : ∀ code, b.roles.roleMap.lookup inventoryPurchased = some code → ApartFrom account code)
    (hok : w.doReceive b q id key = .ok w') : w'.InBooks account := by
  obtain ⟨product, code, wipCode, lots, entries, hproduct, hpos, -, hcode, hwip, hadd, hpost, rfl⟩ := doReceive_ok hok
  have hnone := hsound.closing (requireOpen_ok hopen)
  have hkept := h.keptRun hnone
  obtain ⟨hv, hle, hwhole⟩ := hkept.receiptValue hpos
  obtain ⟨purchased, rfl, hrole⟩ := newLotAccount_ok hon hcode
  obtain rfl := keepWip_ok hwip
  obtain ⟨hnew, hget⟩ := get?_addLot hadd
  have hold : ∀ r ∈ w.run.receipts, r.lotItemId ≠ id := by
    rintro r hr rfl
    have hfound := hsound.found r hr
    rw [hnew] at hfound
    cases hfound
  generalize hamount : w.run.receiptValue q w.currency = amount at *
  obtain ⟨hnet, hbalanced⟩ := posted_apart hon hpost
    (List.forall_mem_singleton.2 (hpurchased purchased hrole)) (fun hne => absurd rfl hne) hwhole.neg
  have hkept' := hkept.receive hpos hv hle hwhole hfresh
  have hreceipts := (closing_receive (s := w.run) q id amount).2
  refine .of_open hnone (.inl (requireOpen_ok hopen)) hkept' ?_ ?_ ?_ ?_ ?_
  · change Plant.Standing _ (w.run.receive q (some id) (some amount)).receipts _
    rw [hreceipts]
    intro r hr
    rcases List.mem_append.1 hr with hr | hr
    · obtain ⟨huntouched, lot, hlot, hstands⟩ := h.lotsStand hnone r hr
      refine ⟨Bool.and_eq_false_iff.2 (.inr huntouched), lot, ?_, hstands⟩
      exact (hget r.lotItemId).trans ((if_neg (hold r hr)).trans hlot)
    · obtain rfl := List.mem_singleton.1 hr
      refine ⟨by simp [Plant.emitRun, Plant.posted], _, (hget id).trans (if_pos rfl), ?_⟩
      exact stands_outputEvents hwhole.onBasis (hstock product hproduct)
  · change ∀ r ∈ (w.run.receive q (some id) (some amount)).receipts, _
    rw [hreceipts, List.forall_mem_append]
    constructor
    · intro r hr
      obtain ⟨code, hcode, hapart⟩ := h.apart r hr
      refine ⟨code, ?_, hapart⟩
      rw [← hcode]
      exact congrArg (fun lot => (lot.map (placeOf ·.state)).bind (·.inventoryAccount))
        ((hget r.lotItemId).trans (if_neg (hold r hr)))
    · refine List.forall_mem_singleton.2 ⟨purchased, ?_, hpurchased purchased hrole⟩
      have hlot := (hget id).trans (if_pos rfl)
      refine (congrArg (fun lot => (lot.map (placeOf ·.state)).bind (·.inventoryAccount)) hlot).trans ?_
      exact @account_outputEvents _ q amount _ product.state.sku _
  · intro hcode
    have hcode' : w.run.wipAccountCode = some account := hcode
    change netMoved account (w.entries ++ entries) = (w.run.receive q (some id) (some amount)).wip
    rw [netMoved_append, hnet, wip_receive, h.moved hcode', hcode', Option.getD_some, if_pos rfl, sub_eq_add_neg]
  · intro hcode
    have hcode' : w.run.wipAccountCode = none := hcode
    have hzero : amount = 0 := le_antisymm (hle.trans_eq (hkept.account hcode')) hv
    change netMoved account (w.entries ++ entries) = 0
    rw [netMoved_append, hnet, h.unmoved hcode', hzero, neg_zero, ite_self, add_zero]
  · exact List.forall_mem_append.2 ⟨h.balanced, hbalanced⟩

/-! ## Closing -/

/-- Every receipt of a run that is not completed takes its share of the final cost. -/
theorem RunState.Kept.closingReceipts (h : s.Kept c) :
    s.closingReceipts = s.receipts ∧ liveReceipts s.receipts = s.receipts ∧ keptValue s.receipts = 0 := by
  refine ⟨List.filter_eq_self.2 fun r hr => ?_, List.filter_eq_self.2 fun r hr => ?_, ?_⟩
  · exact decide_eq_true (h.receipts r hr).1
  · simp [(h.receipts r hr).2.2.2.1]
  · unfold keptValue
    rw [List.filter_eq_nil_iff.2 fun r hr => by simp [(h.receipts r hr).2.2.2.1]]
    rfl

/-- Shares given to receipts come to what the lots change by, over the receipts' values. -/
theorem sum_deltas {receipts : List Receipt} {shares : List ℚ} (h : shares.length = receipts.length) :
    (((receipts.zip shares).map fun p => (⟨p.1.lotItemId, p.2 - p.1.value⟩ : RestatedLot)).map (·.delta)).sum =
      shares.sum - (receipts.map (·.value)).sum := by
  induction receipts generalizing shares with
  | nil =>
    rw [List.length_nil, List.length_eq_zero_iff] at h
    simp [h]
  | cons r receipts ih =>
    cases shares with
    | nil => cases h
    | cons share shares =>
      have hrest := ih (by simpa using h)
      simp only [List.zip_cons_cons, List.map_cons, List.sum_cons, hrest]
      ring

/-- **The lots of a run that is completed take all that is not wasted.** -/
theorem RunState.Kept.restated (h : s.Kept c) (hwaste : IsWhole c waste)
    (hnone : s.receipts = [] → s.wipIssued.getD 0 - waste = 0) :
    (∀ l ∈ s.restatedLots waste c, IsWhole c l.delta) ∧
      (s.receipts.map (·.value)).sum + ((s.restatedLots waste c).map (·.delta)).sum = s.wipIssued.getD 0 - waste := by
  obtain ⟨hclosing, hlive, hkept⟩ := h.closingReceipts
  have hissued : IsWhole c (s.wipIssued.getD 0) := by
    rw [← h.issued]
    exact IsWhole.sum (List.forall_mem_map.2 fun i hi => (h.values i hi).2)
  unfold RunState.restatedLots
  rw [hclosing, hlive]
  constructor
  · intro l hl
    obtain ⟨p, hp, rfl⟩ := List.mem_map.1 (List.mem_of_mem_filter hl)
    obtain ⟨hr, hshare⟩ := List.of_mem_zip hp
    unfold RunState.closingShares at hshare
    split_ifs at hshare
    · exact (isWhole_of_mem_allocateProRata hshare).sub (h.receipts p.1 hr).2.2.1
    · cases hshare
  · by_cases hreceipts : s.receipts = []
    · rw [hnone hreceipts, hreceipts]
      simp
    · have hshares : s.closingShares waste c =
          allocateProRata (s.wipIssued.getD 0 - waste) (s.receipts.map (·.quantity)) c := by
        unfold RunState.closingShares
        rw [hclosing, hlive, hkept, if_pos hreceipts, sub_zero]
      have hweights : (s.receipts.map (·.quantity)).sum ≠ 0 := by
        refine ne_of_gt (List.sum_pos _ (List.forall_mem_map.2 fun r hr => (h.receipts r hr).1) ?_)
        simpa using hreceipts
      rw [Tally.sum_filter_of_zero fun l _ hl => by simpa using hl, hshares, sum_deltas (by rw [length_allocateProRata, List.length_map]),
        sum_allocateProRata hweights, roundMoney_of_isWhole (hissued.sub hwaste), add_sub_cancel]

/-- What is wasted of a run that is not completed is what its components carried in. -/
theorem RunState.Kept.closingWaste {lines : List ValuedLine} (h : s.Kept c) :
    s.closingWaste (totalValue lines) = totalValue lines := by
  obtain ⟨hclosing, hlive, -⟩ := h.closingReceipts
  unfold RunState.closingWaste
  rw [hclosing, hlive, if_neg fun hboth => hboth.1 hboth.2]

/-- The lots a completion changes are lots of the run's receipts. -/
theorem RunState.Kept.restated_mem (h : s.Kept c) :
    ∀ l ∈ s.restatedLots waste c, l.lotItemId ∈ s.receipts.map (·.lotItemId) := by
  obtain ⟨hclosing, hlive, -⟩ := h.closingReceipts
  intro l hl
  have hmem := restatedLots_sublist.subset (List.mem_map_of_mem (f := RestatedLot.lotItemId) hl)
  rwa [hclosing, hlive] at hmem

/-- **A completed run holds nothing**: what its lots are worth and what it wasted come to what
    was issued. -/
theorem RunState.Kept.complete {data : CompletedData} {record : ClosingRecord} (h : s.Kept c)
    (hopen : s.closing = none) (hstatus : s.status ≠ some .completed) (hnodup : (s.receipts.map (·.lotItemId)).Nodup) (hwaste : IsWhole c waste)
    (hnone : s.receipts = [] → s.wipIssued.getD 0 - waste = 0)
    (htransferred : data.transferred = some (s.wipIssued.getD 0 - waste)) (hwasted : data.wasted = some waste)
    (hrecord : data.closing = some record) (hheld : record.held = s.wip) (hrecordWaste : record.wasted = waste)
    (hlots : record.lots = s.restatedLots waste c) :
    (applyManufacturingEvent s (.completed data)).closing = some ⟨record, s.closed⟩ ∧
      (applyManufacturingEvent s (.completed data)).Closed c ⟨record, s.closed⟩ := by
  have hclosing : (applyManufacturingEvent s (.completed data)).closing = some ⟨record, s.closed⟩ := by
    simp only [applyManufacturingEvent, RunState.complete, hrecord]
  obtain ⟨hdeltas, hsum⟩ := h.restated hwaste hnone
  refine ⟨hclosing, ?_⟩
  constructor
  case before => rwa [reopened_completed hopen hrecord]
  case held => rw [reopened_completed hopen hrecord, hheld]
  case wip => simp [applyManufacturingEvent, RunState.complete, RunState.wip, htransferred, hwasted]
  case wasted => simp [applyManufacturingEvent, RunState.complete, htransferred, hwasted, hrecordWaste]
  case lots =>
    rw [hlots]
    exact fun l hl => ⟨h.restated_mem l hl, hdeltas l hl⟩
  case nodup =>
    rw [hlots]
    exact restatedLots_nodup hnodup
  case made =>
    have hworth : (applyManufacturingEvent s (.completed data)).worth =
        fun r => r.value + changeOf (s.restatedLots waste c) r := by
      funext r
      rw [RunState.worth, RunState.changes, hclosing, Option.elim_some, hlots]
    change (s.receipts.map _).sum + record.wasted = s.wipIssued.getD 0
    rw [hworth, List.sum_map_add, sum_changeOf hnodup h.restated_mem, hsum, hrecordWaste, sub_add_cancel]

theorem apart_foldl_add {moves : List (String × ℚ)} (hmoves : ∀ e ∈ moves, ApartFrom account e.1)
    (hamounts : ∀ p ∈ amounts, ApartFrom account p.1) :
    ∀ p ∈ moves.foldl (fun d e => Amounts.add e.1 e.2 d) amounts, ApartFrom account p.1 := by
  induction moves generalizing amounts with
  | nil => exact hamounts
  | cons e moves ih =>
    rw [List.forall_mem_cons] at hmoves
    exact ih hmoves.2 (apart_add hamounts hmoves.1)

/-- A lot that stands at a value is free. -/
theorem free_of_stands {lot : CostedLot} (hlot : w.lots.get? id = some lot) (hstands : lot.state.Stands v) :
    w.Free id := by
  refine ⟨lot, hlot, ?_⟩
  have havailable : "available".toLower ∈ ACTIVE_STATUSES := by decide +kernel
  unfold LotState.isItemAvailable
  rw [hstands.status]
  simp [havailable]

/-- **The change of the cost of receipts' lots** moves accounts the lots are kept on. -/
theorem Plant.InBooks.restated_apart {lots : List RestatedLot} {st : Restating} (h : w.InBooks account)
    (hon : b.on) (hst : lots.foldlM (Restating.restateLot b) ⟨w, []⟩ = .ok st)
    (hids : ∀ l ∈ lots, l.lotItemId ∈ w.run.receipts.map (·.lotItemId)) : ∀ p ∈ st.amounts, ApartFrom account p.1 := by
  have hamounts := amounts_of_restate hst fun l hl => by
    obtain ⟨r, hr, hid⟩ := List.mem_map.1 (hids l hl)
    obtain ⟨-, lot, hlot, hstands⟩ := h.standing r hr
    exact hid ▸ free_of_stands hlot hstands
  rw [if_pos hon] at hamounts
  rw [hamounts.1]
  refine apart_foldl_add (List.forall_mem_map.2 fun l hl => ?_) fun p hp => absurd hp List.not_mem_nil
  obtain ⟨r, hr, hid⟩ := List.mem_map.1 (hids l hl)
  obtain ⟨code, hcode, hapart⟩ := h.apart r hr
  dsimp only
  rw [← hid, Plant.codeOf, hcode, Option.getD_some]
  exact hapart

/-- What is wasted is in whole minor units, and nothing where nothing is listed. -/
theorem valueWaste_ok {wasted : List (String × ℚ)} {lines : List ValuedLine} (hkept : w.run.Kept w.currency)
    (h : valueWaste w.run wasted w.currency = .ok lines) :
    IsWhole w.currency (totalValue lines) ∧ (wasted = [] → totalValue lines = 0) := by
  obtain ⟨checked, hchecked, hlines⟩ := bind_eq_ok.1 h
  obtain ⟨-, -, hmerged⟩ := bind_eq_ok.1 hchecked
  obtain rfl := Except.ok.inj hmerged
  constructor
  · refine IsWhole.sum (List.forall_mem_map.2 fun l hl => ?_)
    obtain ⟨line, -, hvalue⟩ := Grouping.exists_of_mem_right (forall₂_of_mapM_eq_ok hlines) hl
    obtain ⟨-, inp, hinp, -, v, hv, hshare⟩ := returnedValue_ok hvalue
    have hwhole := (hkept.values inp hinp).2
    rw [hv, Option.getD_some] at hwhole
    rw [hshare]
    unfold RunInput.shareOf
    split_ifs
    · exact hwhole
    · exact isWhole_roundMoney _ _
  · rintro rfl
    obtain rfl : [] = lines := Except.ok.inj hlines
    rfl

/-- **Closing keeps a run in the books**, where what is wasted goes to another account. -/
theorem Plant.InBooks.doClose {payload : ClosingDetails} {wasted : List (String × ℚ)} (h : w.InBooks account)
    (hsound : w.Sound) (hopen : w.run.requireOpen = .ok ()) (hon : b.on)
    (hcogs : wasted ≠ [] → ∀ code, b.roles.roleMap.lookup cogs = some code → code ≠ account)
    (hok : w.doClose b payload wasted key = .ok w') : w'.InBooks account := by
  obtain ⟨lines, waste, st, wipCode, entries, data, hlines, hwasteEq, -, hunaccounted, hst, hwip, hpost, honly,
    htransferred, hwasted, hrecord, rfl⟩ := doClose_ok hok
  have hnone := hsound.closing (requireOpen_ok hopen)
  have hkept := h.keptRun hnone
  obtain rfl := keepWip_ok hwip
  obtain ⟨hclosingReceipts, -, -⟩ := hkept.closingReceipts
  rw [hkept.closingWaste] at hwasteEq
  subst hwasteEq
  obtain ⟨hwhole, hwasteNone⟩ := valueWaste_ok hkept hlines
  rw [hclosingReceipts] at hunaccounted
  obtain ⟨hclosing, hclosed⟩ := hkept.complete hnone (requireOpen_ok hopen) hsound.nodup hwhole hunaccounted
    htransferred hwasted hrecord rfl rfl rfl
  obtain ⟨hnet, hbalanced⟩ := posted_apart hon hpost (h.restated_apart hon hst hkept.restated_mem)
    (fun hne => hcogs fun hnil => hne (hwasteNone hnil)) hkept.wip_eq.2.neg
  obtain ⟨hrun, hentries⟩ := emitted honly.toOnlyLots entries (.completed data)
  have hcurrency : w.currency = _ := honly.currency.symm
  have hworth : (applyManufacturingEvent w.run (.completed data)).worth =
      fun r => r.value + changeOf (w.run.restatedLots (totalValue lines) w.currency) r := by
    funext r
    rw [RunState.worth, RunState.changes, hclosing, Option.elim_some]
  constructor
  case kept =>
    rw [hrun, RunState.unclosed, hclosing, Option.isSome_some, if_pos rfl, reopened_completed hnone hrecord]
    exact hcurrency ▸ hkept
  case opened =>
    rw [hrun, hclosing]
    exact fun hopened => absurd hopened (Option.some_ne_none _)
  case closed =>
    intro closing hmem
    rw [hrun, hclosing] at hmem
    obtain rfl := Option.some.inj hmem
    rw [hrun]
    exact hcurrency ▸ hclosed
  case standing =>
    rw [hrun, hworth]
    exact standing_restated hst (h.lotsStand hnone) hkept.restated_mem (fun r hr => (hkept.receipts r hr).2.2.1)
      (hkept.restated hwhole hunaccounted).1
  case apart =>
    rw [hrun]
    intro r hr
    obtain ⟨code, hcode, hapart⟩ := h.apart r hr
    have hplace := congrFun (place?_of_onlyCosts honly) r.lotItemId
    exact ⟨code, (congrArg (·.bind (·.inventoryAccount)) hplace).trans hcode, hapart⟩
  case moved =>
    rw [hrun, hentries, netMoved_append, hnet, hclosed.wip]
    intro hcode
    have hcode' : w.run.wipAccountCode = some account := hcode
    rw [h.moved hcode', hcode', Option.getD_some, if_pos rfl, add_neg_cancel]
  case unmoved =>
    rw [hrun, hentries, netMoved_append, hnet]
    intro hcode
    have hcode' : w.run.wipAccountCode = none := hcode
    rw [h.unmoved hcode', hkept.account hcode', neg_zero, ite_self, add_zero]
  case balanced =>
    rw [hentries, List.forall_mem_append]
    exact ⟨h.balanced, hbalanced⟩

/-! ## Undoing a receipt -/

/-- A receipt that is undone takes its value out of what the receipts took. -/
theorem sum_undone {receipts : List Receipt} {r : Receipt} (hnodup : (receipts.map (·.lotItemId)).Nodup)
    (hr : r ∈ receipts) : ((receipts.filter (·.lotItemId ≠ r.lotItemId)).map (·.value)).sum = (receipts.map (·.value)).sum - r.value := by
  have hother : receipts.filter (·.lotItemId ≠ r.lotItemId) = receipts.erase r := by
    rw [(hnodup.of_map _).erase_eq_filter]
    refine List.filter_congr fun r' hr' => ?_
    have hid : r'.lotItemId = r.lotItemId ↔ r' = r :=
      ⟨fun heq => List.inj_on_of_nodup_map hnodup hr' hr heq, fun heq => heq ▸ rfl⟩
    rw [Bool.eq_iff_iff]
    simp [hid]
  rw [hother, ← List.sum_map_erase (fun r : Receipt => r.value) hr, add_sub_cancel_left]

theorem wip_undoReceipt (s : RunState) (qty : ℚ) (lotId : String) (v : ℚ) :
    (s.undoReceipt lotId qty v).wip = s.wip + v := by
  simp only [RunState.undoReceipt, RunState.wip, RunState.addTransferred, Option.getD_some]
  ring

/-- **A receipt that is undone keeps a run's values in agreement.** -/
theorem RunState.Kept.undoReceipt {r : Receipt} (h : s.Kept c) (hnodup : (s.receipts.map (·.lotItemId)).Nodup)
    (hr : r ∈ s.receipts) (hcode : s.wipAccountCode = none → r.value = 0) :
    (s.undoReceipt r.lotItemId r.quantity r.value).Kept c := by
  have hwip := wip_undoReceipt s r.quantity r.lotItemId r.value
  have hreceipts : (s.undoReceipt r.lotItemId r.quantity r.value).receipts =
      s.receipts.filter (·.lotItemId ≠ r.lotItemId) := rfl
  constructor
  case unique => exact h.unique
  case valued => exact h.valued
  case values => exact h.values
  case issued => exact h.issued
  case receipts =>
    rw [hreceipts]
    exact fun r' hr' => h.receipts r' (List.mem_of_mem_filter hr')
  case transferred =>
    rw [hreceipts, sum_undone hnodup hr, ← h.transferred, sub_eq_add_neg]
    rfl
  case wasted => exact h.wasted
  case nonneg =>
    rw [hwip]
    exact add_nonneg h.nonneg (h.receipts r hr).2.1
  case account =>
    intro hnone
    rw [hwip, h.account hnone, hcode hnone, add_zero]

/-- The work in progress moves on an account. -/
theorem keepWip_moves {moves : Bool} {code code' : Option String} (hon : b.on) (hmoves : moves)
    (h : b.keepWip moves code = .ok code') : code ≠ none := by
  rintro rfl
  unfold RunBooks.keepWip at h
  rw [if_pos ⟨hon, hmoves⟩] at h
  cases h

/-- The value of a lot moves on the account it records. -/
theorem accountOf_ok {code : Option String} (h : w.accountOf b id v = .ok code) :
    code = none ∨ ∃ account, code = some account ∧ (w.place? id).bind (·.inventoryAccount) = some account := by
  unfold Plant.accountOf at h
  split_ifs at h
  · cases hlot : w.lots.get? id with
    | none =>
      rw [hlot] at h
      cases h
    | some lot =>
      rw [hlot] at h
      obtain ⟨account, haccount, rfl⟩ := map_eq_ok.1 h
      refine .inr ⟨account, rfl, ?_⟩
      rw [Plant.place?, hlot]
      exact account_ok haccount
  · exact .inl (Except.ok.inj h).symm

/-- **A receipt that is undone keeps a run in the books.** -/
theorem Plant.InBooks.undoReceipt (h : w.InBooks account) (hsound : w.Sound) (hon : b.on)
    (hok : w.undoReceipt b id key = .ok w') : w'.InBooks account := by
  obtain ⟨r, code, wipCode, entries, hopen, hfind, -, hcode, hwip, hpost, rfl⟩ := undoReceipt_ok hok
  have hnone := hsound.closing (requireOpen_ok hopen)
  have hkept := h.keptRun hnone
  have hr := List.mem_of_find?_eq_some hfind
  obtain rfl : r.lotItemId = id := by simpa using List.find?_some hfind
  obtain rfl := keepWip_ok hwip
  have hmoves : w.run.wipAccountCode = none → r.value = 0 := by
    intro hcodeNone
    by_contra hne
    exact keepWip_moves hon (decide_eq_true hne) hwip hcodeNone
  have hlots : ∀ p ∈ code.toList.map fun c => (c, -r.value), ApartFrom account p.1 := by
    rcases accountOf_ok hcode with rfl | ⟨lotAccount, rfl, hlotAccount⟩
    · exact fun p hp => absurd hp List.not_mem_nil
    · obtain ⟨code, hplace, hapart⟩ := h.apart r hr
      obtain rfl := Option.some.inj (hlotAccount.symm.trans hplace)
      exact List.forall_mem_singleton.2 hapart
  obtain ⟨hnet, hbalanced⟩ := posted_apart hon hpost hlots (fun hne => absurd rfl hne) (hkept.receipts r hr).2.2.1
  have hkept' := hkept.undoReceipt hsound.nodup hr hmoves
  have hothers : ∀ r' ∈ w.run.receipts.filter (·.lotItemId ≠ r.lotItemId),
      (((w.writeLot r.lotItemId (.quantityAdjusted 0 (some 0) none none none)).writeLot r.lotItemId
        (.statusSet "archived" {})).lots.get? r'.lotItemId) = w.lots.get? r'.lotItemId := by
    intro r' hr'
    have hne : r'.lotItemId ≠ r.lotItemId := by simpa using (List.mem_filter.1 hr').2
    exact (LotBooks.get?_write_of_ne hne).trans (LotBooks.get?_write_of_ne hne)
  refine .of_open hnone (.inl (requireOpen_ok hopen)) hkept' ?_ ?_ ?_ ?_ ?_
  · exact Plant.Standing.congr (fun r' hr' => h.lotsStand hnone r' (List.mem_of_mem_filter hr'))
      (fun r' hr' => (h.lotsStand hnone r' (List.mem_of_mem_filter hr')).1) hothers
  · intro r' hr'
    obtain ⟨code, hplace, hapart⟩ := h.apart r' (List.mem_of_mem_filter hr')
    refine ⟨code, ?_, hapart⟩
    rw [← hplace]
    exact congrArg (fun lot => (lot.map (placeOf ·.state)).bind (·.inventoryAccount)) (hothers r' hr')
  · intro hcode
    have hcode' : w.run.wipAccountCode = some account := hcode
    change netMoved account (w.entries ++ entries) = (w.run.undoReceipt r.lotItemId r.quantity r.value).wip
    rw [netMoved_append, hnet, wip_undoReceipt, h.moved hcode', hcode', Option.getD_some, if_pos rfl]
  · intro hcode
    have hcode' : w.run.wipAccountCode = none := hcode
    change netMoved account (w.entries ++ entries) = 0
    rw [netMoved_append, hnet, h.unmoved hcode', hmoves hcode', ite_self, add_zero]
  · exact List.forall_mem_append.2 ⟨h.balanced, hbalanced⟩

/-! ## Reopening -/

theorem isWhole_changeOf {lots : List RestatedLot} {r : Receipt} (h : ∀ l ∈ lots, IsWhole c l.delta) :
    IsWhole c (changeOf lots r) := by
  unfold changeOf
  induction lots with
  | nil => exact isWhole_zero c
  | cons l lots ih =>
    rw [List.forall_mem_cons] at h
    rw [List.map_cons, Tally.total_cons]
    refine IsWhole.add ?_ (ih h.2)
    split_ifs
    · exact h.1
    · exact isWhole_zero c

/-- A run that is reopened keeps the values it had before it was completed. -/
theorem Plant.InBooks.keptReopened (h : w.InBooks account) (hclosing : w.run.closing = some closing) :
    w.run.reopened.Kept w.currency := by
  have hkept := h.kept
  rwa [RunState.unclosed, hclosing, Option.isSome_some, if_pos rfl] at hkept

/-- **Reopening keeps a run in the books**, where what was wasted comes off another account. -/
theorem Plant.InBooks.reopen (h : w.InBooks account) (hon : b.on)
    (hcogs : ∀ closing ∈ w.run.closing, closing.wasted ≠ 0 →
      ∀ code, b.roles.roleMap.lookup cogs = some code → code ≠ account)
    (hok : w.reopen b key = .ok w') : w'.InBooks account := by
  obtain ⟨closing, st, wipCode, entries, -, hclosing, -, -, hst, hwip, hpost, honly, rfl⟩ := reopen_ok hok
  have hkept := h.keptReopened hclosing
  have hclosed := h.closed closing hclosing
  obtain rfl := keepWip_ok hwip
  rw [lotsByItem_of_nodup hclosed.nodup] at hst
  have hids : ∀ l ∈ closing.lots.map fun lot => (⟨lot.lotItemId, -lot.delta⟩ : RestatedLot),
      l.lotItemId ∈ w.run.receipts.map (·.lotItemId) := List.forall_mem_map.2 fun l hl => (hclosed.lots l hl).1
  have hdeltas : ∀ l ∈ closing.lots.map fun lot => (⟨lot.lotItemId, -lot.delta⟩ : RestatedLot),
      IsWhole w.currency l.delta := List.forall_mem_map.2 fun l hl => (hclosed.lots l hl).2.neg
  have hworth : w.run.worth = fun r => r.value + changeOf closing.lots r := by
    funext r
    rw [RunState.worth, RunState.changes, hclosing, Option.elim_some]
  have hstanding := standing_restated hst h.standing hids (fun r hr => by
    rw [hworth]
    exact (hkept.receipts r hr).2.2.1.add (isWhole_changeOf fun l hl => (hclosed.lots l hl).2)) hdeltas
  have hback : (fun r => w.run.worth r + changeOf (closing.lots.map fun lot => ⟨lot.lotItemId, -lot.delta⟩) r) =
      (·.value) := by
    funext r
    rw [hworth, changeOf_neg, add_neg_cancel_right]
  rw [hback] at hstanding
  obtain ⟨hnet, hbalanced⟩ := posted_apart hon hpost (h.restated_apart hon hst hids)
    (fun hne => hcogs closing hclosing (neg_ne_zero.1 hne)) (hclosed.held ▸ hkept.wip_eq.2)
  obtain ⟨hrun, hentries⟩ := emitted honly.toOnlyLots entries .reopened
  have hcurrency : w.currency = _ := honly.currency.symm
  refine .of_open (by rw [hrun]; rfl) (.inl (by rw [hrun]; exact hclosed.before)) ?_ ?_ ?_ ?_ ?_ ?_
  · rw [hrun]
    exact hcurrency ▸ hkept
  · rw [hrun]
    exact hstanding
  · rw [hrun]
    intro r hr
    obtain ⟨code, hcode, hapart⟩ := h.apart r hr
    have hplace := congrFun (place?_of_onlyCosts honly) r.lotItemId
    exact ⟨code, (congrArg (·.bind (·.inventoryAccount)) hplace).trans hcode, hapart⟩
  · rw [hrun, hentries, netMoved_append, hnet]
    intro hcode
    have hcode' : w.run.wipAccountCode = some account := hcode
    rw [h.moved hcode', hclosed.wip, hcode', Option.getD_some, if_pos rfl, zero_add, hclosed.held]
    rfl
  · rw [hrun, hentries, netMoved_append, hnet]
    intro hcode
    have hcode' : w.run.wipAccountCode = none := hcode
    rw [h.unmoved hcode', hclosed.held, hkept.account hcode', ite_self, add_zero]
  · rw [hentries, List.forall_mem_append]
    exact ⟨h.balanced, hbalanced⟩

/-! ## What happens elsewhere -/

/-- What happens elsewhere leaves a run in the books, where it has not touched the lots of its
    receipts. -/
theorem Plant.InBooks.elsewhere (h : w.InBooks account) (hsound : w.Sound) (helse : Elsewhere w w')
    (huntouched : ∀ r ∈ w.run.receipts, w'.touched r.lotItemId = false) : w'.InBooks account where
  kept := by
    rw [helse.run, helse.currency]
    exact h.kept
  opened := by
    rw [helse.run]
    exact h.opened
  closed := by
    rw [helse.run, helse.currency]
    exact h.closed
  standing := by
    rw [helse.run]
    exact h.standing.elsewhere helse huntouched
  apart := by
    rw [helse.run]
    intro r hr
    obtain ⟨code, hcode, hapart⟩ := h.apart r hr
    obtain ⟨p, p', hp, hp', -, hkeeps⟩ := place_of_elsewhere helse (hsound.found r hr) (huntouched r hr)
    rw [hp, Option.bind_some] at hcode
    refine ⟨code, ?_, hapart⟩
    rw [hp', Option.bind_some]
    exact hkeeps code hcode
  moved := by
    rw [helse.run, helse.entries]
    exact h.moved
  unmoved := by
    rw [helse.run, helse.entries]
    exact h.unmoved
  balanced := by
    rw [helse.entries]
    exact h.balanced

end

end Celerp
