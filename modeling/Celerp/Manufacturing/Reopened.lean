/-
  Reopening a run undoes its completion (`celerp_manufacturing/movements.py`,
  `celerp_manufacturing/projection_handler.py`).

  A lot that reopening takes back is just as completion left it, so it is kept on the
  account completion changed it on (`codeOf_of_elsewhere`), and its entry turns completion's
  around (`netMoved_reopened`), but for the waste: completion sends it to the cost of goods sold
  account of the day, reopening takes it off that of its own.  `WasteReturns` says that these
  are one.
-/
import Celerp.Manufacturing.MovementEntries

namespace Celerp

open AccountRole Amounts Outcome Plant Relation

namespace Plant

/-! ## Where a lot is kept -/

/-- The place of a lot. -/
def place? (w : Plant) (id : String) : Option Place := (w.lots.get? id).map (placeOf ·.state)

/-- The account a lot records. -/
def codeOf (w : Plant) (id : String) : String := ((w.place? id).bind (·.inventoryAccount)).getD ""

/-- A lot that is free. -/
def Free (w : Plant) (id : String) : Prop := ∃ lot, w.lots.get? id = some lot ∧ lot.state.isItemAvailable

section
variable {w w' : Plant} {b : RunBooks} {id : String} {lot : CostedLot}

theorem place?_of_onlyCosts (h : OnlyCosts w w') : w'.place? = w.place? := funext h.place

theorem codeOf_of_onlyCosts (h : OnlyCosts w w') : w'.codeOf = w.codeOf := by
  unfold codeOf
  rw [place?_of_onlyCosts h]

theorem isItemAvailable_of_place {s s' : ItemState} (h : (placeOf s').status = (placeOf s).status) :
    s'.isItemAvailable = s.isItemAvailable := by
  have hstatus : s'.status = s.status := h
  unfold LotState.isItemAvailable
  rw [hstatus]

theorem free_iff_place : w.Free id ↔ ∃ p s, w.place? id = some p ∧ placeOf s = p ∧ s.isItemAvailable := by
  constructor
  · rintro ⟨lot, hlot, havailable⟩
    exact ⟨_, lot.state, by rw [place?, hlot]; rfl, rfl, havailable⟩
  · rintro ⟨p, s, hplace, hs, havailable⟩
    obtain ⟨lot, hlot, heq⟩ := Option.map_eq_some_iff.1 hplace
    refine ⟨lot, hlot, ?_⟩
    rwa [isItemAvailable_of_place (s := s) (by rw [heq, hs])]

theorem free_of_onlyCosts (h : OnlyCosts w w') : w'.Free id ↔ w.Free id := by
  rw [free_iff_place, free_iff_place, place?_of_onlyCosts h]

theorem not_merged_of_available {s : LotState} (h : s.isItemAvailable) : s.status.toLower ≠ "merged" := by
  intro hmerged
  unfold LotState.isItemAvailable at h
  split_ifs at h with hempty
  · rw [hempty] at hmerged
    exact absurd hmerged (by decide +kernel)
  · rw [hmerged] at h
    exact absurd h (by decide)

/-- The value of a free lot is where the lot is. -/
theorem lineageEnd_of_available {lots : LotBooks} {last : CostedLot} {fuel : ℕ} (hlot : lots.get? id = some lot)
    (havailable : lot.state.isItemAvailable) (h : lots.lineageEnd fuel [] id = .ok last) : last = lot := by
  cases fuel with
  | zero => cases h
  | succ fuel =>
    unfold LotBooks.lineageEnd at h
    rw [hlot] at h
    have hnext : LotBooks.mergedNext lot.state = none := if_neg (not_merged_of_available havailable)
    simp only [List.not_mem_nil, ↓reduceIte, hnext] at h
    split_ifs at h
    exact (Except.ok.inj h).symm

theorem account_ok {code : String} (h : lot.account = .ok code) : lot.state.inventoryAccount = some code := by
  unfold CostedLot.account lotAccount at h
  rw [mapError_eq_ok] at h
  split_ifs at h
  cases haccount : lot.state.inventoryAccount with
  | none =>
    rw [haccount] at h
    cases h
  | some account =>
    rw [haccount] at h
    rw [Except.ok.inj h]

/-- **The change of free lots' cost** moves each on the account it records. -/
theorem amounts_of_restate {lots : List RestatedLot} {st st' : Restating}
    (h : lots.foldlM (Restating.restateLot b) st = .ok st') (hfree : ∀ l ∈ lots, st.plant.Free l.lotItemId) :
    if b.on then
      st'.amounts = (lots.map fun l => (st.plant.codeOf l.lotItemId, l.delta)).foldl (fun d e => add e.1 e.2 d) st.amounts ∧
        ∀ l ∈ lots, ((st.plant.place? l.lotItemId).bind (·.inventoryAccount)).isSome
    else st'.amounts = st.amounts := by
  induction lots generalizing st with
  | nil =>
    obtain rfl : st = st' := by simpa [pure, Except.pure] using h
    split_ifs
    · exact ⟨rfl, fun l hl => absurd hl List.not_mem_nil⟩
    · rfl
  | cons l lots ih =>
    rw [List.forall_mem_cons] at hfree
    rw [List.foldlM_cons, bind_eq_ok] at h
    obtain ⟨t, ht, h⟩ := h
    obtain ⟨r, hr, rfl⟩ := map_eq_ok.1 ht
    obtain ⟨honly, last, hlast, hcode⟩ := restate_ok hr
    obtain ⟨⟨lot, hlot, havailable⟩, hrest⟩ := hfree
    obtain rfl := lineageEnd_of_available hlot havailable hlast
    have hih := ih h fun m hm => (free_of_onlyCosts honly).2 (hrest m hm)
    dsimp only at hih
    rw [codeOf_of_onlyCosts honly, place?_of_onlyCosts honly] at hih
    by_cases hon : b.on
    · rw [if_pos hon] at hcode hih ⊢
      obtain ⟨code, haccount, hsome⟩ := hcode
      have hplace : (st.plant.place? l.lotItemId).bind (·.inventoryAccount) = some code := by
        rw [place?, hlot]
        exact account_ok haccount
      rw [hsome] at hih
      refine ⟨?_, List.forall_mem_cons.2 ⟨by rw [hplace]; rfl, hih.2⟩⟩
      rw [List.map_cons, List.foldl_cons, hih.1, codeOf, hplace]
      rfl
    · rw [if_neg hon] at hcode hih ⊢
      rw [hcode] at hih
      exact hih

/-! ## Lots completion left -/

theorem untouched_ok {quantity value : ℚ} (h : w.untouched b id quantity value) :
    w.Free id ∧ w.touched id = false := by
  unfold untouched at h
  obtain ⟨lot, hlot, h⟩ := (Option.any_eq_true _ _).1 h
  simp only [Bool.and_eq_true, Bool.not_eq_true'] at h
  exact ⟨⟨lot, hlot, h.1.1.2⟩, h.1.1.1.1.1.1.2⟩

/-- What happens elsewhere leaves a free lot nothing has touched free. -/
theorem place_of_elsewhere (h : Elsewhere w w') (hfound : (w.lots.get? id).isSome) (htouched : w'.touched id = false) :
    ∃ p p', w.place? id = some p ∧ w'.place? id = some p' ∧ p'.status = p.status ∧
      ∀ code, p.inventoryAccount = some code → p'.inventoryAccount = some code := by
  obtain ⟨lot, hlot⟩ := Option.isSome_iff_exists.1 hfound
  obtain ⟨lot', hlot'⟩ := Option.isSome_iff_exists.1 (h.found id hfound)
  refine ⟨placeOf lot.state, placeOf lot'.state, by rw [place?, hlot]; rfl, by rw [place?, hlot']; rfl, ?_⟩
  rcases h.untouched id lot lot' htouched hlot hlot' with heq | ⟨hnone, code, heq⟩
  · rw [heq]
    exact ⟨rfl, fun code hcode => hcode⟩
  · rw [heq]
    refine ⟨rfl, fun code' hcode => ?_⟩
    rw [show (placeOf lot.state).inventoryAccount = lot.state.inventoryAccount from rfl, hnone] at hcode
    cases hcode

/-- **A free lot that nothing touched is on the account it was on**, if it recorded one. -/
theorem codeOf_of_elsewhere {before : Plant} (hplace : w'.place? = w.place?) (helse : Elsewhere w' before)
    (hfound : (w.lots.get? id).isSome) (hfree : before.Free id) (htouched : before.touched id = false) :
    w.Free id ∧ (((w.place? id).bind (·.inventoryAccount)).isSome → before.codeOf id = w.codeOf id) := by
  have hfound' : (w'.lots.get? id).isSome := by
    rw [isSome_of_place (congrFun hplace id)]
    exact hfound
  obtain ⟨p, p', hp, hp', hstatus, hcode⟩ := place_of_elsewhere helse hfound' htouched
  rw [hplace] at hp
  constructor
  · obtain ⟨q, s, hq, rfl, havailable⟩ := free_iff_place.1 hfree
    obtain rfl := Option.some.inj (hq.symm.trans hp')
    obtain ⟨lot, hlot, rfl⟩ := Option.map_eq_some_iff.1 hp
    refine ⟨lot, hlot, ?_⟩
    rwa [← isItemAvailable_of_place hstatus]
  · intro hrecorded
    rw [hp] at hrecorded
    obtain ⟨code, haccount⟩ := Option.isSome_iff_exists.1 hrecorded
    have hsome : p.inventoryAccount = some code := haccount
    rw [codeOf, codeOf, hp, hp', Option.bind_some, Option.bind_some, hsome, hcode code hsome]

end

end Plant

/-! ## The lots a completion changes -/

section
variable {s : RunState} {waste : ℚ} {c : String} {lots : List RestatedLot}

/-- Records that each name a lot of their own are all kept. -/
theorem lotsByItem_of_nodup (h : (lots.map (·.lotItemId)).Nodup) : lotsByItem lots = lots :=
  Tally.foldl_last_of_nodup RestatedLot.lotItemId h

theorem map_zip_sublist {α β γ : Type*} (f : α → γ) : ∀ (l : List α) (l' : List β),
    ((l.zip l').map fun p => f p.1).Sublist (l.map f)
  | [], _ => by simp
  | _ :: _, [] => by simp
  | a :: l, b :: l' => by
    rw [List.zip_cons_cons, List.map_cons, List.map_cons]
    exact (map_zip_sublist f l l').cons_cons _

/-- The lots a completion changes are lots of its receipts. -/
theorem restatedLots_sublist :
    ((s.restatedLots waste c).map (·.lotItemId)).Sublist ((liveReceipts s.closingReceipts).map (·.lotItemId)) := by
  refine (List.filter_sublist.map _).trans ?_
  rw [List.map_map]
  exact map_zip_sublist Receipt.lotItemId _ _

theorem restatedLots_nodup (h : (s.receipts.map (·.lotItemId)).Nodup) :
    ((s.restatedLots waste c).map (·.lotItemId)).Nodup :=
  h.sublist (restatedLots_sublist.trans ((List.filter_sublist.trans List.filter_sublist).map _))

end

/-! ## Completing and reopening -/

/-- A run closed with the books `b`, from `w` to `closed`, and, after what happened to its
    lots elsewhere, reopened with the books `b'`, from `before` to `w'`. -/
structure ClosedAndReopened (b b' : RunBooks) (w closed before w' : Plant) : Prop where
  ready : w.run.requireOpen = .ok ()
  closes : ∃ payload wasted key, w.doClose b payload wasted key = .ok closed
  elsewhere : Elsewhere closed before
  reopens : ∃ key, before.reopen b' key = .ok w'

/-- The waste of a completion goes back to the account it went to. -/
def WasteReturns (currency : String) (closing : Closing) (b b' : RunBooks) : Prop :=
  closing.booked → roundMoney closing.wasted currency ≠ 0 →
    b'.roles.roleMap.lookup cogs = b.roles.roleMap.lookup cogs

/-- What happens elsewhere, or a completion and its reopening whose waste goes back. -/
inductive Round : Plant → Plant → Prop
  | elsewhere {w w'} (h : Elsewhere w w') : Round w w'
  | reopened {b b' w closed before w' closing} (h : ClosedAndReopened b b' w closed before w')
    (hclosing : closed.run.closing = some closing) (hwaste : WasteReturns w.currency closing b b') : Round w w'

section
variable {b b' : RunBooks} {w closed before w' : Plant}

/-- A lot completion changed is free where it is reopened, and is on the account it was on. -/
theorem kept_of_checked {waste : ℚ} {c : String} {closing : Closing} (hsound : w.Sound) (hplace : closed.place? = w.place?)
    (helse : Elsewhere closed before) (hreceipts : before.run.receipts = w.run.receipts)
    (hlots : before.checkLots b' closing = .ok ()) :
    ∀ l ∈ w.run.restatedLots waste c, before.Free l.lotItemId ∧ w.Free l.lotItemId ∧
      (((w.place? l.lotItemId).bind (·.inventoryAccount)).isSome → before.codeOf l.lotItemId = w.codeOf l.lotItemId) := by
  intro l hl
  -- it is a receipt's lot, which reopening found untouched
  obtain ⟨r, hr, hid⟩ := List.mem_map.1 (restatedLots_sublist.subset (List.mem_map_of_mem hl))
  have hclosing : before.run.closingReceipts = w.run.closingReceipts := congrArg (List.filter _) hreceipts
  have huntouched : before.untouched b' r.lotItemId r.quantity (r.value + deltaOf closing.lots r.lotItemId) := by
    have hok := forall_of_forM_eq_ok hlots r (by rw [hclosing]; exact hr)
    by_contra hnot
    rw [if_neg hnot] at hok
    cases hok
  have hfound : (w.lots.get? r.lotItemId).isSome :=
    hsound.found r (List.mem_of_mem_filter (List.mem_of_mem_filter hr))
  obtain ⟨hfree, htouched⟩ := untouched_ok huntouched
  rw [← hid]
  exact ⟨hfree, codeOf_of_elsewhere hplace helse hfound hfree htouched⟩

/-- The changes of lots on the accounts they are kept on are turned around there. -/
theorem amounts_turned {lots : List RestatedLot} {st st' : Restating} (hon : b.on) (hon' : b'.on)
    (hst : lots.foldlM (Restating.restateLot b) ⟨w, []⟩ = .ok st)
    (hst' : (lots.map fun lot => (⟨lot.lotItemId, -lot.delta⟩ : RestatedLot)).foldlM (Restating.restateLot b')
      ⟨before, []⟩ = .ok st')
    (hkept : ∀ l ∈ lots, before.Free l.lotItemId ∧ w.Free l.lotItemId ∧
      (((w.place? l.lotItemId).bind (·.inventoryAccount)).isSome → before.codeOf l.lotItemId = w.codeOf l.lotItemId)) :
    st'.amounts = st.amounts.map fun e => (e.1, -e.2) := by
  have hcompleted := amounts_of_restate hst fun l hl => (hkept l hl).2.1
  have hturned := amounts_of_restate hst' (List.forall_mem_map.2 fun l hl => (hkept l hl).1)
  rw [if_pos hon] at hcompleted
  rw [if_pos hon'] at hturned
  rw [hturned.1, hcompleted.1, List.map_map]
  refine Eq.trans ?_ (ofList_map (negAddMonoidHom : ℚ →+ ℚ))
  rw [List.map_map]
  refine congrArg ofList (List.map_congr_left fun l hl => ?_)
  exact congrArg (·, -l.delta) ((hkept l hl).2.2 (hcompleted.2 l hl))

/-- What a completion and its reopening do: the lots and the work in progress are turned
    around, and the waste is taken off an account of its own. -/
theorem reopened_ok (hsound : w.Sound) (h : ClosedAndReopened b b' w closed before w') :
    w'.run = w.run ∧ ∃ completion reopening closing,
      closed.entries = w.entries ++ completion ∧ w'.entries = before.entries ++ reopening ∧
      closed.run.closing = some closing ∧
      if closing.booked then ∃ cogsCode cogsCode',
        (closing.wasted ≠ 0 → b.roles.roleMap.lookup cogs = some cogsCode) ∧
        (closing.wasted ≠ 0 → b'.roles.roleMap.lookup cogs = some cogsCode') ∧
        ∀ account, netMoved account reopening = -netMoved account completion +
          ((if cogsCode = account then roundMoney closing.wasted w.currency else 0) -
            if cogsCode' = account then roundMoney closing.wasted w.currency else 0)
      else completion = [] ∧ reopening = [] := by
  obtain ⟨hopen, ⟨payload, wasted, key, hclose⟩, helse, key', hreopen⟩ := h
  obtain ⟨lines, waste, st, wipCode, completion, data, -, -, -, -, hst, hwip, hpost, honly, -, -, hrecord, rfl⟩ :=
    doClose_ok hclose
  obtain ⟨closing, st', wipCode', reopening, -, hclosing, hbooked, hlots, hst', hwip', hpost', honly', rfl⟩ :=
    reopen_ok hreopen
  obtain rfl := keepWip_ok hwip
  obtain rfl := keepWip_ok hwip'
  have hrun : before.run = applyManufacturingEvent w.run (.completed data) := by
    rw [helse.run, emitRun, posted, honly.run]
  have hreverted : w.run = before.run.reopened := by
    rw [hrun, reopened_completed (hsound.closing (requireOpen_ok hopen)) hrecord]
  have hclosed : closing = ⟨⟨w.run.wip, waste, w.run.restatedLots waste w.currency, b.on⟩, w.run.closed⟩ := by
    rw [hrun] at hclosing
    simp only [applyManufacturingEvent, RunState.complete, hrecord, Option.some.injEq] at hclosing
    exact hclosing.symm
  have hcurrency : before.currency = w.currency := helse.currency.trans honly.currency
  have hplace : ((st.plant.posted completion).emitRun (.completed data)).place? = w.place? := funext honly.place
  have hkept := @kept_of_checked b' w _ before waste w.currency closing hsound hplace helse (by rw [hrun]; rfl) hlots
  have hentries := post_ok hpost
  have hentries' := post_ok hpost'
  refine ⟨?_, completion, reopening, closing, ?_, ?_, ?_, ?_⟩
  · rw [hreverted, emitRun, posted, honly'.run]
    rfl
  · rw [emitRun, posted, honly.entries]
  · rw [emitRun, posted, honly'.entries]
  · rw [← hclosing, helse.run]
  · subst hclosed
    rw [lotsByItem_of_nodup (restatedLots_nodup hsound.nodup)] at hst'
    rw [← hbooked] at hentries'
    by_cases hon : b.on
    · rw [if_pos hon] at hentries hentries' ⊢
      obtain ⟨cogsCode, hcogs, hnet, -⟩ := hentries
      obtain ⟨cogsCode', hcogs', hnet', -⟩ := hentries'
      have hcode : before.run.wipAccountCode = w.run.wipAccountCode := by rw [hrun]; rfl
      have hamounts := amounts_turned hon (hbooked ▸ hon) hst hst' hkept
      refine ⟨cogsCode, cogsCode', hcogs, fun hne => hcogs' (neg_ne_zero.2 hne), fun account => ?_⟩
      have hneg := @movedBy_neg w.currency cogsCode cogsCode' w.run.wipAccountCode (-w.run.wip) waste st.amounts account
      rw [neg_neg] at hneg
      rw [hnet', hnet, hamounts, hcurrency, hcode]
      exact hneg
    · rw [if_neg hon] at hentries hentries' ⊢
      exact ⟨hentries, hentries'⟩

/-- **A reopening turns its completion's entry around exactly when the waste goes back.** -/
theorem netMoved_reopened (hsound : w.Sound) (h : ClosedAndReopened b b' w closed before w') :
    ∃ completion reopening closing, closed.entries = w.entries ++ completion ∧
      w'.entries = before.entries ++ reopening ∧ closed.run.closing = some closing ∧
      ((∀ account, netMoved account reopening = -netMoved account completion) ↔ WasteReturns w.currency closing b b') := by
  obtain ⟨-, completion, reopening, closing, hcompletion, hreopening, hclosing, hnet⟩ := reopened_ok hsound h
  refine ⟨completion, reopening, closing, hcompletion, hreopening, hclosing, ?_⟩
  unfold WasteReturns
  by_cases hbooked : closing.booked
  · rw [if_pos hbooked] at hnet
    obtain ⟨cogsCode, cogsCode', hcogs, hcogs', hnet⟩ := hnet
    constructor
    · intro hback _ hwaste
      have hne : closing.wasted ≠ 0 := fun hzero => hwaste (by rw [hzero, roundMoney_zero])
      have hgap := hnet cogsCode
      rw [hback, left_eq_add, if_pos rfl, sub_eq_zero] at hgap
      have heq : cogsCode' = cogsCode := by
        by_contra hother
        rw [if_neg hother] at hgap
        exact hwaste hgap
      rw [hcogs hne, hcogs' hne, heq]
    · intro hreturns account
      rw [hnet, add_eq_left]
      by_cases hwaste : roundMoney closing.wasted w.currency = 0
      · rw [hwaste, ite_self, ite_self, sub_zero]
      · have hne : closing.wasted ≠ 0 := fun hzero => hwaste (by rw [hzero, roundMoney_zero])
        have heq := hreturns hbooked hwaste
        rw [hcogs hne, hcogs' hne, Option.some.injEq] at heq
        rw [heq, sub_self]
  · rw [if_neg hbooked] at hnet
    obtain ⟨rfl, rfl⟩ := hnet
    exact ⟨fun _ hon => absurd hon hbooked, fun _ account => by simp⟩

theorem reachable_reopened (hreach : w.Reachable) (h : ClosedAndReopened b b' w closed before w') : w'.Reachable := by
  obtain ⟨hopen, ⟨payload, wasted, key, hclose⟩, helse, key', hreopen⟩ := h
  exact ((hreach.step (.completed hopen hclose)).step (.elsewhere helse)).step (.reopened hreopen)

/-- A round leaves the run and the books as they were. -/
theorem Round.unchanged (h : Round w w') (hreach : w.Reachable) :
    w'.Reachable ∧ w'.run = w.run ∧ ∀ account, netMoved account w'.entries = netMoved account w.entries := by
  cases h with
  | elsewhere h => exact ⟨hreach.step (.elsewhere h), h.run, fun account => by rw [h.entries]⟩
  | reopened h hclosing hwaste =>
    have hsound := sound_of_reachable hreach
    refine ⟨reachable_reopened hreach h, (reopened_ok hsound h).1, fun account => ?_⟩
    obtain ⟨completion, reopening, closing, hcompletion, hreopening, hclosing', hnet⟩ := netMoved_reopened hsound h
    rw [hclosing', Option.some.injEq] at hclosing
    rw [hreopening, h.elsewhere.entries, hcompletion, netMoved_append, netMoved_append,
      hnet.2 (hclosing ▸ hwaste) account, add_neg_cancel_right]

/-- **Reopening undoes completion.**  The run is what it was; the entry is completion's turned
    around exactly when the waste goes back to the account it went to; and rounds of this kind
    leave the run and the books as they were, however many there are. -/
theorem reopen_reverses_iff (hreach : w.Reachable) :
    (∀ (s : RunState) (data : CompletedData) (record : ClosingRecord), s.closing = none →
      data.closing = some record → (applyManufacturingEvent s (.completed data)).reopened = s) ∧
    (∀ b b' closed before w', ClosedAndReopened b b' w closed before w' →
      w'.run = w.run ∧ ∃ completion reopening closing, closed.entries = w.entries ++ completion ∧
        w'.entries = before.entries ++ reopening ∧ closed.run.closing = some closing ∧
        ((∀ account, netMoved account reopening = -netMoved account completion) ↔ WasteReturns w.currency closing b b')) ∧
    ∀ w', ReflTransGen Round w w' →
      w'.run = w.run ∧ ∀ account, netMoved account w'.entries = netMoved account w.entries := by
  have hsound := sound_of_reachable hreach
  refine ⟨fun s data record hclosing hrecord => reopened_completed hclosing hrecord, ?_, ?_⟩
  · intro b b' closed before w' h
    exact ⟨(reopened_ok hsound h).1, netMoved_reopened hsound h⟩
  · intro w' hrounds
    have hall : w'.Reachable ∧ w'.run = w.run ∧ ∀ account, netMoved account w'.entries = netMoved account w.entries := by
      induction hrounds with
      | refl => exact ⟨hreach, rfl, fun _ => rfl⟩
      | tail _ hround ih =>
        obtain ⟨hreach', hrun, hnet⟩ := ih
        obtain ⟨hreach'', hrun', hnet'⟩ := hround.unchanged hreach'
        exact ⟨hreach'', hrun'.trans hrun, fun account => (hnet' account).trans (hnet account)⟩
    exact hall.2

end

/-! ## A bakery -/

/-- A lot on hand. -/
def shelved (sku : String) (quantity value : ℚ) : CostedLot where
  state := { ItemState.empty with
    sku := sku, quantity := quantity, costBase := some value, costTotal := some value, status := "available",
    inventoryType := some "stocked", inventoryAccount := some "1130" }
  history := []

/-- A run of one loaf from two bags of flour, just created. -/
def loafRun : Plant where
  currency := "USD"
  run := .ofOrder ⟨.absent, [("flour", 2)], none, none, some "bread", [⟨"BREAD", 1⟩], none, none, none, none, none, []⟩
  lots := .ofLots [("flour", shelved "FLOUR" 2 20), ("bread", shelved "BREAD" 0 0)] (by decide)
  touched _ := true
  entries := []

/-- The bakery's books, the cost of goods sold kept on an account. -/
def bakeryBooks (cogsCode : String) : RunBooks where
  on := true
  roles := ⟨[(inventoryPurchased, "1130"), (workInProgress, "1140"), (cogs, cogsCode)], fun _ => []⟩
  chart := ⟨[⟨"1130", .asset, none, true⟩, ⟨"1140", .asset, none, true⟩, ⟨"5000", .cogs, none, true⟩,
    ⟨"5001", .cogs, none, true⟩], by decide⟩
  listed _ := false
  precise _ _ := true
  unitOf _ := none
  fitsUnits _ := true
  requireIssued := false

/-- One bag wasted. -/
def oneBagWasted : ClosingDetails := ⟨[("flour", 1)], none, none, none, none⟩

/-- The flour issued, the loaf received and the run closed with one bag wasted, then reopened:
    the plant before it was closed, after, and at the end. -/
def loafRounds (b b' : RunBooks) : Except RunRefusal (Plant × Plant × Plant) := do
  let issued ← loafRun.doIssue b [("flour", 2)] "issue"
  let received ← issued.doReceive b 1 "lot" "receive"
  let closed ← received.doClose b oneBagWasted oneBagWasted.wasteItems "complete"
  let reopened ← closed.reopen b' "reopen"
  pure (received, closed, reopened)

theorem loafRounds_ok {b b' : RunBooks} {w closed w' : Plant} (h : loafRounds b b' = .ok (w, closed, w')) :
    w.Reachable ∧ ClosedAndReopened b b' w closed closed w' := by
  obtain ⟨issued, hissued, h⟩ := bind_eq_ok.1 h
  obtain ⟨received, hreceived, h⟩ := bind_eq_ok.1 h
  obtain ⟨closed', hclosed, h⟩ := bind_eq_ok.1 h
  obtain ⟨reopened, hreopened, h⟩ := bind_eq_ok.1 h
  obtain ⟨rfl, rfl, rfl⟩ : received = w ∧ closed' = closed ∧ reopened = w' := by
    have heq := Except.ok.inj h
    simp only [Prod.mk.injEq] at heq
    exact heq
  have hopen : loafRun.run.requireOpen = .ok () := rfl
  have hopenIssued := doIssue_open hopen hissued
  have hcreated : loafRun.Reachable := ⟨loafRun, ⟨rfl, _, rfl⟩, .refl⟩
  refine ⟨(hcreated.step (.issued hopen hissued)).step (.received hopenIssued hreceived), ?_⟩
  exact ⟨doReceive_open hopenIssued hreceived, ⟨_, _, _, hclosed⟩,
    ⟨.refl _, fun _ htouched => htouched, fun id lot lot' _ hlot hlot' => .inl (by rw [Option.some.inj (hlot.symm.trans hlot')])⟩,
    ⟨_, hreopened⟩⟩

theorem loaf_reopened : ∃ w closed w', loafRounds (bakeryBooks "5000") (bakeryBooks "5000") = .ok (w, closed, w') ∧
    w'.run = w.run ∧ ∀ account, netMoved account w'.entries = netMoved account w.entries := by
  have hsucceeds : Succeeds (loafRounds (bakeryBooks "5000") (bakeryBooks "5000")) := by decide +kernel
  obtain ⟨⟨w, closed, w'⟩, hok⟩ := hsucceeds
  obtain ⟨hreach, hcycle⟩ := loafRounds_ok hok
  obtain ⟨-, hreopened, hrounds⟩ := reopen_reverses_iff hreach
  obtain ⟨-, -, -, closing, -, -, hclosing, -⟩ := hreopened _ _ _ _ _ hcycle
  exact ⟨w, closed, w', hok, hrounds w' (.single (.reopened hcycle hclosing fun _ _ => rfl))⟩

/-- The cost of goods sold moved to another account before the run is reopened: the waste is
    taken off the new account, and stays on the old one. -/
theorem waste_reopened_elsewhere : ∃ w closed w', w.Reachable ∧
    ClosedAndReopened (bakeryBooks "5000") (bakeryBooks "5001") w closed closed w' ∧
    netMoved "5000" closed.entries - netMoved "5000" w.entries = 10 ∧
    netMoved "5000" w'.entries - netMoved "5000" closed.entries = 0 ∧
    netMoved "5001" w'.entries - netMoved "5001" closed.entries = -10 := by
  have hmoved : ((loafRounds (bakeryBooks "5000") (bakeryBooks "5001")).toOption.map fun p =>
      (netMoved "5000" p.2.1.entries - netMoved "5000" p.1.entries,
        netMoved "5000" p.2.2.entries - netMoved "5000" p.2.1.entries,
        netMoved "5001" p.2.2.entries - netMoved "5001" p.2.1.entries)) = some (10, 0, -10) := by decide +kernel
  obtain ⟨⟨w, closed, w'⟩, hok, hmoved⟩ := ok_of_toOption_map hmoved
  obtain ⟨hreach, hcycle⟩ := loafRounds_ok hok
  simp only [Prod.mk.injEq] at hmoved
  exact ⟨w, closed, w', hreach, hcycle, hmoved⟩

end Celerp
