/-
  A production run conserves cost (`celerp_manufacturing/movements.py`).

  `RunRequest` is what is asked of a run, and `Worked` one step of it with the books on: a
  request performed, or what happens elsewhere, which leaves the lots the run made as they are.
  Every request that `Fits` keeps the run in the books (`Ready.perform`), so every run of them
  conserves its cost (`Plant.Conserves`): what it holds is never less than nothing and is what
  its entries moved to its account, and its completion leaves all of it on its lots or wasted.

  What does not fit: a lot that comes to record more as some of it is drawn (its landed pools
  are rounded one by one), or one that records less than nothing; and lots, or waste, kept on
  the account of the work in progress itself.
-/
import Celerp.Manufacturing.ClosedBooks

namespace Celerp

open AccountRole Outcome Plant Relation

/-! ## Requests -/

/-- What is asked of a run. -/
inductive RunRequest where
  | issue (items : List (String × ℚ)) (key : String)
  | returnMaterials (items : List (String × ℚ)) (key : String)
  | receive (quantity : Option ℚ) (lotId key : String)
  | complete (payload : ClosingDetails) (quantity : Option ℚ) (lotId key : String)
  | undoReceipt (lotId key : String)
  | reopen (key : String)

/-- The lot a request may make. -/
def RunRequest.newLot : RunRequest → Option String
  | .receive _ lotId _ => some lotId
  | .complete _ _ lotId _ => some lotId
  | _ => none

namespace Plant

/-- A request performed. -/
def perform (w : Plant) (b : RunBooks) : RunRequest → Except RunRefusal Plant
  | .issue items key => w.issue b items key
  | .returnMaterials items key => w.returnMaterials b items key
  | .receive quantity lotId key => w.receive b quantity lotId key
  | .complete payload quantity lotId key => w.complete b payload quantity lotId key
  | .undoReceipt lotId key => w.undoReceipt b lotId key
  | .reopen key => w.reopen b key

/-- One step of a run with the books on, its requests as `ok` allows: a request performed, the
    lot it may make new to the run, or what happens elsewhere. -/
inductive Worked (ok : Plant → RunBooks → RunRequest → Prop) : Plant → Plant → Prop
  | performed {w w' b req} (hon : b.on) (hfresh : ∀ id ∈ req.newLot, id ∉ w.run.inputs.map (·.itemId))
    (hok : ok w b req) (h : w.perform b req = .ok w') : Worked ok w w'
  | elsewhere {w w'} (h : Elsewhere w w') (huntouched : ∀ r ∈ w.run.receipts, w'.touched r.lotItemId = false) :
    Worked ok w w'

/-- A run conserves its cost: what it holds is not less than nothing and is what its entries
    moved to the account its work in progress is kept on, its components record what was issued,
    its entries balance, and completed it holds nothing and its lots stand at what was not
    wasted. -/
structure Conserves (account : String) (w : Plant) : Prop where
  nonneg : 0 ≤ w.run.wip
  kept : w.run.wipAccountCode = some account → netMoved account w.entries = w.run.wip
  unkept : w.run.wipAccountCode = none → w.run.wip = 0
  issued : issuedValues w.run.inputs = w.run.wipIssued.getD 0
  balanced : ∀ e ∈ w.entries, exchangeGap (e.lines.map (·.toLine)) = 0
  completed : w.run.status = some .completed → w.run.wip = 0 ∧
    w.heldOn w.run.receipts + w.run.closed.wipWasted.getD 0 = w.run.wipIssued.getD 0

/-- Each line of an issue draws on a lot that can be drawn on. -/
def Drawable (account : String) (w : Plant) (wanted : List (String × ℚ)) : Prop :=
  ∀ line ∈ wanted, ∀ lot ∈ w.lots.get? line.1, lot.Draws account w.currency line.2

end Plant

/-- What a role posts to is apart from an account. -/
def RunBooks.RoleApart (account : String) (b : RunBooks) (role : AccountRole) : Prop :=
  ∀ code, b.roles.roleMap.lookup role = some code → ApartFrom account code

/-- Waste goes to another account. -/
def RunBooks.WasteApart (account : String) (b : RunBooks) : Prop :=
  ∀ code, b.roles.roleMap.lookup cogs = some code → code ≠ account

/-- The requests that keep a run in the books: what is drawn can be, and what is moved is kept
    apart from the account of the work in progress. -/
def Fits (account : String) (w : Plant) (b : RunBooks) : RunRequest → Prop
  | .issue items _ => ∀ wanted, w.run.requested items = .ok wanted → w.Drawable account wanted
  | .returnMaterials _ _ => ∀ inp ∈ w.run.inputs, inp.issuedValue.getD 0 ≠ 0 →
    ∀ code ∈ (w.place? inp.itemId).bind (·.inventoryAccount), ApartFrom account code
  | .receive _ _ _ => b.RoleApart account inventoryPurchased
  | .complete payload _ _ _ => w.Drawable account w.run.outstandingInputs ∧ b.RoleApart account inventoryPurchased ∧
    ∀ wasted, wasteRequest b w.run payload = .ok wasted → wasted ≠ [] → b.WasteApart account
  | .undoReceipt _ _ => True
  | .reopen _ => ∀ closing ∈ w.run.closing, closing.wasted ≠ 0 → b.WasteApart account

section
variable {w w' w₀ : Plant} {b : RunBooks} {account key id : String} {s : RunState} {items wanted : List (String × ℚ)}
  {q : ℚ} {data : OrderData}

/-! ## What is planned -/

/-- Components that are all needed are each listed once. -/
def RunState.Planned (s : RunState) : Prop := (∀ i ∈ s.inputs, 0 < i.quantity) → (s.inputs.map (·.itemId)).Nodup

/-- What is planned of a component. -/
def RunInput.plan (i : RunInput) : String × ℚ := (i.itemId, i.quantity)

theorem plan_issueInputs {values issued : List (String × ℚ)} {unknown : List String} (inputs : List RunInput) :
    (issueInputs values unknown issued inputs).map (·.plan) = inputs.map (·.plan) := by
  induction inputs generalizing issued with
  | nil => rfl
  | cons inp inputs ih =>
    rw [issueInputs]
    split
    · rw [List.map_cons, ih, List.map_cons]
      rfl
    · rw [List.map_cons, ih, List.map_cons]

theorem plan_returnInputs {returned : List ValuedLine} (inputs : List RunInput) :
    (returnInputs returned inputs).map (·.plan) = inputs.map (·.plan) := by
  induction inputs generalizing returned with
  | nil => rfl
  | cons inp inputs ih =>
    rw [returnInputs]
    split
    · rw [List.map_cons, ih, List.map_cons]
      rfl
    · rw [List.map_cons, ih, List.map_cons]

/-- A run whose plan is the same is planned as it was. -/
theorem RunState.Planned.congr {s' : RunState} (h : s.Planned)
    (hplan : s'.inputs.map (·.plan) = s.inputs.map (·.plan)) : s'.Planned := by
  have hids : ∀ t : RunState, t.inputs.map (·.itemId) = (t.inputs.map (·.plan)).map Prod.fst := by
    intro t
    rw [List.map_map]
    rfl
  have hneeded : ∀ t : RunState, (∀ i ∈ t.inputs, 0 < i.quantity) ↔ ∀ p ∈ t.inputs.map (·.plan), 0 < p.2 := by
    intro t
    rw [List.forall_mem_map]
    rfl
  unfold RunState.Planned
  rw [hids, hneeded, hplan, ← hneeded, ← hids]
  exact h

/-- A run just created is planned. -/
theorem planned_ofOrder (data : OrderData) : (RunState.ofOrder data).Planned := by
  intro hneeded
  have hnone : data.inputs.filter (¬0 < ·.2) = [] := by
    rw [List.filter_eq_nil_iff]
    intro p hp hnot
    refine of_decide_eq_true hnot (hneeded (.planned p) ?_)
    exact List.mem_map_of_mem (List.mem_append_right _ (List.mem_filter.2 ⟨hp, hnot⟩))
  have hmerged : ((mergeInputs (data.inputs.filter (0 < ·.2))).map Prod.fst).Nodup :=
    (mergeInputs_ok fun p hp => (of_decide_eq_true (List.mem_filter.1 hp).2).le).1
  change (((mergeInputs _ ++ _).map RunInput.planned).map _).Nodup
  rw [hnone, List.append_nil, List.map_map]
  exact hmerged

/-! ## What is asked for -/

theorem roundDigits_nonneg {v : ℚ} (hv : 0 ≤ v) : 0 ≤ roundDigits v 6 :=
  Rounding.roundEvenTo_nonneg (by norm_num) hv

/-- What is outstanding is for components of the run, each once. -/
theorem outstandingInputs_ok (hinputs : (s.inputs.map (·.itemId)).Nodup) :
    (s.outstandingInputs.map Prod.fst).Nodup ∧ ∀ line ∈ s.outstandingInputs, 0 ≤ line.2 := by
  unfold RunState.outstandingInputs
  constructor
  · rw [List.map_map]
    exact hinputs.sublist (List.filter_sublist.map _)
  · rw [List.forall_mem_map]
    intro i hi
    have hleft : EPS < i.quantity - i.issuedQty := of_decide_eq_true (List.mem_filter.1 hi).2
    exact roundDigits_nonneg (EPS_pos.trans hleft).le

/-- A request of positive quantities, merged and rounded, names each item once. -/
theorem merged_ok (h : ¬items.any fun i => !decide (0 < i.2)) :
    (((mergeInputs items).map fun i => (i.1, roundDigits i.2 6)).map Prod.fst).Nodup ∧
      ∀ line ∈ (mergeInputs items).map fun i => (i.1, roundDigits i.2 6), 0 ≤ line.2 := by
  have hpos : ∀ p ∈ items, 0 ≤ p.2 := by
    intro p hp
    by_contra hneg
    refine h (List.any_eq_true.2 ⟨p, hp, ?_⟩)
    simp [not_lt.2 (not_le.1 hneg).le]
  obtain ⟨hnodup, hnn⟩ := mergeInputs_ok hpos
  constructor
  · rw [List.map_map]
    exact hnodup
  · rw [List.forall_mem_map]
    exact fun p hp => roundDigits_nonneg (hnn p hp)

theorem requested_ok (hinputs : (s.inputs.map (·.itemId)).Nodup) (h : s.requested items = .ok wanted) :
    (wanted.map Prod.fst).Nodup ∧ ∀ line ∈ wanted, 0 ≤ line.2 := by
  unfold RunState.requested at h
  split_ifs at h with hall hbad
  · obtain rfl := Except.ok.inj h
    exact outstandingInputs_ok hinputs
  · obtain rfl := Except.ok.inj h
    exact merged_ok hbad

/-- What is returned names each item once. -/
theorem toReturn_ok {c : String} (hkept : s.Kept c) (h : toReturn s items = .ok wanted) :
    (wanted.map Prod.fst).Nodup ∧ ∀ line ∈ wanted, 0 ≤ line.2 := by
  unfold toReturn at h
  split_ifs at h with hall hbad
  · obtain rfl := Except.ok.inj h
    constructor
    · rw [List.map_map]
      rcases hkept.unique with hnone | hinputs
      · -- nothing was issued
        rw [List.filter_eq_nil_iff.2]
        · exact List.nodup_nil
        · intro i hi hissued
          rw [hkept.valued i hi (hnone i hi)] at hissued
          exact absurd (of_decide_eq_true hissued) (not_lt.2 EPS_pos.le)
      · exact hinputs.sublist (List.filter_sublist.map _)
    · rw [List.forall_mem_map]
      intro i hi
      have hissued : EPS < i.issuedQty := of_decide_eq_true (List.mem_filter.1 hi).2
      exact roundDigits_nonneg (EPS_pos.trans hissued).le
  · obtain rfl := Except.ok.inj h
    exact merged_ok hbad

/-- A run that can be carried out needs its components, and its product is stock. -/
theorem requireExecutableShape_ok (h : w.requireExecutableShape = .ok ()) :
    (∀ i ∈ w.run.inputs, 0 < i.quantity) ∧
      ∀ product ∈ w.run.outputItemId.bind w.lots.get?, product.state.isStockType := by
  obtain ⟨⟨⟩, hneeded, h⟩ := bind_eq_ok.1 h
  obtain ⟨-, -, h⟩ := bind_eq_ok.1 h
  constructor
  · intro i hi
    by_contra hnot
    refine refuseIf_ok.1 hneeded (List.any_eq_true.2 ⟨i, hi, ?_⟩)
    simp [not_lt.1 hnot]
  · intro product hproduct
    obtain ⟨out, hout, hlot⟩ := Option.bind_eq_some_iff.1 hproduct
    rw [hout] at h
    dsimp only at h
    split_ifs at h with hmissing hstock
    by_contra hnot
    refine hstock (List.any_eq_true.2 ⟨out, List.mem_cons_self, ?_⟩)
    rw [hlot]
    simpa using hnot

/-! ## What a request keeps -/

/-- A run that is in the books, whose plant is sound and whose components are planned. -/
structure Plant.Ready (account : String) (w : Plant) : Prop where
  inBooks : w.InBooks account
  sound : w.Sound
  planned : w.run.Planned

/-- What an issue leaves as it is: where the lots are, what the run makes and what it needs. -/
theorem doIssue_frame (h : w.doIssue b wanted key = .ok w') :
    (∀ id, (w'.lots.get? id).map kindOf = (w.lots.get? id).map kindOf) ∧
      w'.run.outputItemId = w.run.outputItemId ∧ w'.run.inputs.map (·.plan) = w.run.inputs.map (·.plan) := by
  rcases doIssue_ok h with ⟨-, rfl⟩ | ⟨befores, wipCode, st, entries, -, -, hst, -, honly, rfl⟩
  · exact ⟨fun _ => rfl, rfl, rfl⟩
  · have hstock : w.OnlyStock st.plant := by
      refine keeps_of_foldlM_eq_ok (I := fun t => w.OnlyStock t.plant) (fun line _ t t' ht hkept => ?_) hst (.refl w)
      obtain ⟨lot, -, hplant, -⟩ := consume_ok ht
      rw [hplant]
      exact hkept.trans (onlyStock_writeLot fun s => kind_consumed s _ _ _)
    obtain ⟨hrun, -⟩ := emitted honly entries (.issued st.items (some (issuedTotal st.items))
      (if issuedTotal st.items ≠ 0 then wipCode else none))
    refine ⟨hstock.kind, ?_, ?_⟩
    · rw [hrun, applyManufacturingEvent]
      unfold RunState.issue RunState.start RunState.addIssued
      dsimp only
      split_ifs <;> rfl
    · rw [hrun, applyManufacturingEvent]
      have hinputs : ∀ (code : Option String) (v : ℚ), (w.run.issue st.items (some v) code).inputs.map (·.plan) =
          w.run.inputs.map (·.plan) := by
        intro code v
        unfold RunState.issue RunState.start RunState.addIssued
        dsimp only
        exact plan_issueInputs _
      exact hinputs _ _

/-- A lot that is the same kind of stock is stock where it was. -/
theorem stock_of_kind {product : CostedLot} (hkind : (w'.lots.get? id).map kindOf = (w.lots.get? id).map kindOf)
    (hproduct : w'.lots.get? id = some product)
    (h : ∀ product ∈ w.lots.get? id, product.state.isStockType) : product.state.isStockType := by
  rw [hproduct, Option.map_some] at hkind
  obtain ⟨before, hbefore, heq⟩ := Option.map_eq_some_iff.1 hkind.symm
  have htype : before.state.inventoryType = product.state.inventoryType := congrArg Prod.snd heq
  have hstock := h before hbefore
  unfold LotState.isStockType at hstock ⊢
  rwa [← htype]

theorem Plant.Ready.doIssue (h : w.Ready account) (hopen : w.run.requireOpen = .ok ()) (hon : b.on)
    (hneeded : ∀ i ∈ w.run.inputs, 0 < i.quantity)
    (hwanted : (wanted.map Prod.fst).Nodup ∧ ∀ line ∈ wanted, 0 ≤ line.2) (hdraws : w.Drawable account wanted) (hok : w.doIssue b wanted key = .ok w') : w'.Ready account :=
  ⟨h.inBooks.doIssue h.sound hopen hon (h.planned hneeded) hwanted.1 hwanted.2 hdraws hok,
    (Step.issued hopen hok).sound h.sound, h.planned.congr (doIssue_frame hok).2.2⟩

theorem Plant.Ready.doReceive (h : w.Ready account) (hopen : w.run.requireOpen = .ok ()) (hon : b.on)
    (hstock : ∀ product ∈ w.run.outputItemId.bind w.lots.get?, product.state.isStockType)
    (hfresh : id ∉ w.run.inputs.map (·.itemId)) (hpurchased : b.RoleApart account inventoryPurchased)
    (hok : w.doReceive b q id key = .ok w') : w'.Ready account := by
  refine ⟨h.inBooks.doReceive h.sound hopen hon hstock hfresh hpurchased hok,
    (Step.received hopen hok).sound h.sound, h.planned.congr ?_⟩
  obtain ⟨product, code, wipCode, lots, entries, -, -, -, -, -, -, -, rfl⟩ := doReceive_ok hok
  rfl

theorem Plant.Ready.doClose {payload : ClosingDetails} {wasted : List (String × ℚ)} (h : w.Ready account)
    (hopen : w.run.requireOpen = .ok ()) (hon : b.on) (hcogs : wasted ≠ [] → b.WasteApart account)
    (hok : w.doClose b payload wasted key = .ok w') : w'.Ready account := by
  refine ⟨h.inBooks.doClose h.sound hopen hon hcogs hok, (Step.completed hopen hok).sound h.sound, h.planned.congr ?_⟩
  obtain ⟨lines, waste, st, wipCode, entries, data, -, -, -, -, -, -, -, honly, -, -, -, rfl⟩ := doClose_ok hok
  rw [(emitted honly.toOnlyLots _ (.completed data)).1]
  rfl

/-- **An issue keeps a run ready.** -/
theorem Plant.Ready.issue (h : w.Ready account) (hon : b.on) (hfits : Fits account w b (.issue items key))
    (hok : w.issue b items key = .ok w') : w'.Ready account := by
  obtain ⟨⟨⟩, hopen, hok⟩ := bind_eq_ok.1 hok
  obtain ⟨⟨⟩, hshape, hok⟩ := bind_eq_ok.1 hok
  obtain ⟨-, -, hok⟩ := bind_eq_ok.1 hok
  obtain ⟨wanted, hwanted, hok⟩ := bind_eq_ok.1 hok
  obtain ⟨hneeded, -⟩ := requireExecutableShape_ok hshape
  exact h.doIssue hopen hon hneeded (requested_ok (h.planned hneeded) hwanted) (hfits wanted hwanted) hok

/-- **A return keeps a run ready.** -/
theorem Plant.Ready.returnMaterials (h : w.Ready account) (hon : b.on)
    (hfits : Fits account w b (.returnMaterials items key)) (hok : w.returnMaterials b items key = .ok w') :
    w'.Ready account := by
  obtain ⟨⟨⟩, hopen, hok⟩ := bind_eq_ok.1 hok
  obtain ⟨-, -, hok⟩ := bind_eq_ok.1 hok
  obtain ⟨wanted, hwanted, hok⟩ := bind_eq_ok.1 hok
  obtain ⟨hnodup, hq⟩ := toReturn_ok (h.inBooks.keptRun (h.sound.closing (requireOpen_ok hopen))) hwanted
  refine ⟨h.inBooks.doReturn h.sound hopen hon hnodup hq hfits hok, (Step.returned hopen hok).sound h.sound,
    h.planned.congr ?_⟩
  rcases doReturn_ok hok with ⟨-, rfl⟩ | ⟨lines, wipCode, st, entries, -, -, -, -, -, honly, rfl⟩
  · rfl
  · rw [(emitted honly _ (.returned lines (totalValue lines))).1]
    exact plan_returnInputs _

/-- **A receipt keeps a run ready**, also where it completes it. -/
theorem Plant.Ready.receive {quantity : Option ℚ} (h : w.Ready account) (hon : b.on)
    (hfresh : id ∉ w.run.inputs.map (·.itemId)) (hfits : Fits account w b (.receive quantity id key))
    (hok : w.receive b quantity id key = .ok w') : w'.Ready account := by
  obtain ⟨⟨⟩, hopen, hok⟩ := bind_eq_ok.1 hok
  obtain ⟨⟨⟩, hshape, hok⟩ := bind_eq_ok.1 hok
  obtain ⟨-, -, hok⟩ := bind_eq_ok.1 hok
  obtain ⟨received, hreceived, hok⟩ := bind_eq_ok.1 hok
  have hready := h.doReceive hopen hon (requireExecutableShape_ok hshape).2 hfresh hfits hreceived
  split_ifs at hok
  · exact hready.doClose (doReceive_open hopen hreceived) hon (fun hne => absurd rfl hne) hok
  · exact Except.ok.inj hok ▸ hready

/-- **Completing keeps a run ready**: issuing and receiving what is left, and closing. -/
theorem Plant.Ready.complete {payload : ClosingDetails} {quantity : Option ℚ} (h : w.Ready account) (hon : b.on)
    (hfresh : id ∉ w.run.inputs.map (·.itemId)) (hfits : Fits account w b (.complete payload quantity id key))
    (hok : w.complete b payload quantity id key = .ok w') : w'.Ready account := by
  obtain ⟨hdraws, hpurchased, hcogs⟩ := hfits
  obtain ⟨⟨⟩, hopen, hok⟩ := bind_eq_ok.1 hok
  obtain ⟨⟨⟩, hshape, hok⟩ := bind_eq_ok.1 hok
  obtain ⟨-, -, hok⟩ := bind_eq_ok.1 hok
  obtain ⟨wasted, hwasted, hok⟩ := bind_eq_ok.1 hok
  obtain ⟨-, -, hok⟩ := bind_eq_ok.1 hok
  obtain ⟨issued, hissued, hok⟩ := bind_eq_ok.1 hok
  obtain ⟨received, hreceived, hok⟩ := bind_eq_ok.1 hok
  obtain ⟨hneeded, hstock⟩ := requireExecutableShape_ok hshape
  have hready : issued.Ready account ∧ issued.run.requireOpen = .ok () ∧ id ∉ issued.run.inputs.map (·.itemId) ∧
      ∀ product ∈ issued.run.outputItemId.bind issued.lots.get?, product.state.isStockType := by
    unfold issueOutstanding at hissued
    split_ifs at hissued
    · obtain rfl := Except.ok.inj hissued
      exact ⟨h, hopen, hfresh, hstock⟩
    · obtain ⟨hkind, houtput, hplan⟩ := doIssue_frame hissued
      have hids : issued.run.inputs.map (·.itemId) = w.run.inputs.map (·.itemId) := by
        have hfst := congrArg (List.map Prod.fst) hplan
        rwa [List.map_map, List.map_map] at hfst
      refine ⟨h.doIssue hopen hon hneeded (outstandingInputs_ok (h.planned hneeded)) hdraws hissued,
        doIssue_open hopen hissued, hids ▸ hfresh, fun product hproduct => ?_⟩
      rw [houtput] at hproduct
      obtain ⟨out, hout, hlot⟩ := Option.bind_eq_some_iff.1 hproduct
      refine stock_of_kind (hkind out) hlot fun before hbefore => hstock before ?_
      rw [hout]
      exact hbefore
  obtain ⟨hissuedReady, hissuedOpen, hissuedFresh, hissuedStock⟩ := hready
  unfold receiveRest at hreceived
  split_ifs at hreceived
  · have hreceivedReady := hissuedReady.doReceive hissuedOpen hon hissuedStock hissuedFresh hpurchased hreceived
    exact hreceivedReady.doClose (doReceive_open hissuedOpen hreceived) hon (hcogs wasted hwasted) hok
  · obtain rfl := Except.ok.inj hreceived
    exact hissuedReady.doClose hissuedOpen hon (hcogs wasted hwasted) hok

/-- **A receipt that is undone keeps a run ready.** -/
theorem Plant.Ready.undoReceipt (h : w.Ready account) (hon : b.on) (hok : w.undoReceipt b id key = .ok w') :
    w'.Ready account := by
  refine ⟨h.inBooks.undoReceipt h.sound hon hok, (Step.undone hok).sound h.sound, h.planned.congr ?_⟩
  obtain ⟨receipt, code, wipCode, entries, -, -, -, -, -, -, rfl⟩ := undoReceipt_ok hok
  rfl

/-- **Reopening keeps a run ready.** -/
theorem Plant.Ready.reopen (h : w.Ready account) (hon : b.on) (hfits : Fits account w b (.reopen key))
    (hok : w.reopen b key = .ok w') : w'.Ready account := by
  refine ⟨h.inBooks.reopen hon hfits hok, (Step.reopened hok).sound h.sound, h.planned.congr ?_⟩
  obtain ⟨closing, st, wipCode, entries, -, -, -, -, -, -, -, honly, rfl⟩ := reopen_ok hok
  rw [(emitted honly.toOnlyLots _ .reopened).1]
  rfl

/-- **Every step keeps a run ready.** -/
theorem Plant.Ready.worked (h : w.Ready account) (hstep : Worked (Fits account) w w') : w'.Ready account := by
  cases hstep with
  | @performed b req hon hfresh hfits hok =>
    cases req with
    | issue items key => exact h.issue hon hfits hok
    | returnMaterials items key => exact h.returnMaterials hon hfits hok
    | receive quantity lotId key => exact h.receive hon (hfresh lotId rfl) hfits hok
    | complete payload quantity lotId key => exact h.complete hon (hfresh lotId rfl) hfits hok
    | undoReceipt lotId key => exact h.undoReceipt hon hok
    | reopen key => exact h.reopen hon hfits hok
  | elsewhere helse huntouched =>
    refine ⟨h.inBooks.elsewhere h.sound helse huntouched, (Step.elsewhere helse).sound h.sound, h.planned.congr ?_⟩
    rw [helse.run]

/-- A run just created is ready. -/
theorem Plant.Created.ready (h : w.Created) : w.Ready account := by
  have hsound := h.sound
  obtain ⟨hentries, data, hrun⟩ := h
  have hinputs : ∀ i ∈ w.run.inputs, i.issuedQty = 0 ∧ i.issuedValue = none := by
    rw [hrun]
    exact List.forall_mem_map.2 fun p _ => ⟨rfl, rfl⟩
  have hreceipts : w.run.receipts = [] := by rw [hrun]; rfl
  have hissued : w.run.wipIssued = none := by rw [hrun]; rfl
  have hwip : w.run.wip = 0 := by simp [hrun, RunState.wip, RunState.ofOrder]
  have hplanned : w.run.Planned := hrun ▸ planned_ofOrder data
  refine ⟨.of_open (by rw [hrun]; rfl) (.inr hissued) ?_ ?_ ?_ ?_ ?_ ?_, hsound, hplanned⟩
  · constructor
    case unique => exact .inl fun i hi => (hinputs i hi).2
    case valued => exact fun i hi _ => (hinputs i hi).1
    case values =>
      intro i hi
      rw [(hinputs i hi).2]
      exact ⟨le_rfl, isWhole_zero _⟩
    case issued =>
      rw [hissued, issuedValues, List.map_congr_left fun i hi => by rw [(hinputs i hi).2]]
      simp
    case receipts =>
      rw [hreceipts]
      exact fun r hr => absurd hr List.not_mem_nil
    case transferred =>
      rw [hreceipts, hrun]
      rfl
    case wasted =>
      rw [hrun]
      rfl
    case nonneg => rw [hwip]
    case account => exact fun _ => hwip
  · rw [hreceipts]
    exact fun r hr => absurd hr List.not_mem_nil
  · rw [hreceipts]
    exact fun r hr => absurd hr List.not_mem_nil
  · intro _
    rw [hentries, hwip, netMoved_nil]
  · intro _
    rw [hentries, netMoved_nil]
  · rw [hentries]
    exact fun e he => absurd he List.not_mem_nil

/-! ## What is conserved -/

/-- A run in the books conserves its cost. -/
theorem Plant.InBooks.conserves (h : w.InBooks account) : w.Conserves account := by
  cases hclosing : w.run.closing with
  | none =>
    have hkept := h.keptRun hclosing
    refine ⟨hkept.nonneg, h.moved, hkept.account, hkept.issued, h.balanced, fun hcompleted => ?_⟩
    -- a run created as completed: nothing was issued
    have hissued := (h.opened hclosing).resolve_left (not_not.2 hcompleted)
    have hreceived : 0 ≤ (w.run.receipts.map (·.value)).sum :=
      List.sum_nonneg (List.forall_mem_map.2 fun r hr => (hkept.receipts r hr).2.1)
    have hwip := hkept.wip_eq.1
    rw [hkept.issued, hissued, Option.getD_none, zero_sub] at hwip
    have hnonneg := hkept.nonneg
    have hzero : (w.run.receipts.map (·.value)).sum = 0 := by linarith
    rw [(h.lotsStand hclosing).heldOn fun r hr => (hkept.receipts r hr).2.2.1, hkept.wasted, hissued, hzero, hwip,
      hzero]
    simp
  | some closing =>
    have hkept := h.keptReopened hclosing
    have hclosed := h.closed closing hclosing
    have hworth : ∀ r ∈ w.run.receipts, IsWhole w.currency (w.run.worth r) := by
      intro r hr
      rw [RunState.worth, RunState.changes, hclosing, Option.elim_some]
      exact (hkept.receipts r hr).2.2.1.add (isWhole_changeOf fun l hl => (hclosed.lots l hl).2)
    refine ⟨hclosed.wip.ge, h.moved, fun _ => hclosed.wip, hkept.issued, h.balanced, fun _ => ⟨hclosed.wip, ?_⟩⟩
    rw [h.standing.heldOn hworth, hclosed.wasted, Option.getD_some, hclosed.made]

/-- **A run conserves its cost** as long as what is drawn on can be drawn, and what is moved is
    kept apart from the account of the work in progress. -/
theorem conserved_of_fits (hcreated : w₀.Created) (hsteps : ReflTransGen (Worked (Fits account)) w₀ w) :
    w.Conserves account := by
  have hready : w.Ready account := by
    induction hsteps with
    | refl => exact hcreated.ready
    | tail _ hstep ih => exact ih.worked hstep
  exact hready.inBooks.conserves

end

/-! ## A bakery's flour -/

/-- A run of one loaf from two bags of flour, just created. -/
def flourRun (flour : CostedLot) : Plant where
  currency := "USD"
  run := .ofOrder ⟨.absent, [("flour", 2)], none, none, some "bread", [⟨"BREAD", 1⟩], none, none, none, none, none, []⟩
  lots := .ofLots [("flour", flour), ("bread", shelved "BREAD" 0 0)] (by exact (by decide : ["flour", "bread"].Nodup))
  touched _ := true
  entries := []

/-- Two bags of flour of 20. -/
def plainFlour : CostedLot :=
  .ofEvents "FLOUR" [.created [.quantity 2, .costTotal (some 20), .inventoryAccount (some "1130")]]

/-- Two bags of flour that cost nothing but a quarter of a cent each of freight, and as much of
    duty, as earlier releases put landed costs on a lot. -/
def landedFlour : CostedLot :=
  .ofEvents "FLOUR" [.created [.quantity 2, .costTotal (some 0), .inventoryAccount (some "1130")],
    .landedCostApplied "bill" "freight" (1 / 400), .landedCostApplied "bill" "duty" (1 / 400)]

/-- The bakery's books, with what it buys kept on the account of the work in progress. -/
def sharedBooks : RunBooks :=
  { bakeryBooks "5000" with
    roles := ⟨[(inventoryPurchased, "1140"), (workInProgress, "1140"), (cogs, "5000")], fun _ => []⟩ }

/-- The flour issued, the loaf received and a bag written off: the cost of the run is conserved. -/
theorem flour_conserved : ∃ w, (flourRun plainFlour).perform (bakeryBooks "5000")
    (.complete oneBagWasted none "lot" "complete") = .ok w ∧ w.run.status = some .completed ∧ w.Conserves "1140" := by
  have hcompleted : (((flourRun plainFlour).perform (bakeryBooks "5000")
      (.complete oneBagWasted none "lot" "complete")).toOption.map fun w => w.run.status) =
        some (some .completed) := by decide +kernel
  obtain ⟨w, hok, hstatus⟩ := ok_of_toOption_map hcompleted
  have hcreated : (flourRun plainFlour).Created := ⟨rfl, _, rfl⟩
  have hdraws : plainFlour.Draws "1140" "USD" 2 := by
    refine ⟨⟨rfl, ?_, .inl (by decide +kernel), by decide +kernel, ?_⟩, fun _ code hcode => ?_⟩
    · intro base hbase
      have htwenty : plainFlour.state.costBase = some 20 := by decide +kernel
      obtain rfl : 20 = base := Option.some.inj (htwenty.symm.trans hbase)
      decide +kernel
    · have hwhole : costKept plainFlour.state (plainFlour.state.leftQty 2) "USD" = (none, none) :=
        if_pos (.inl (by decide +kernel))
      rw [hwhole]
      nofun
    · have haccount : plainFlour.state.inventoryAccount = some "1130" := by decide +kernel
      obtain rfl : "1130" = code := Option.some.inj (haccount.symm.trans hcode)
      unfold ApartFrom
      decide +kernel
  have hfits : Fits "1140" (flourRun plainFlour) (bakeryBooks "5000")
      (.complete oneBagWasted none "lot" "complete") := by
    refine ⟨?_, ?_, fun _ _ _ => ?_⟩
    · have hwanted : (flourRun plainFlour).run.outstandingInputs = [("flour", 2)] := by decide +kernel
      rw [hwanted]
      refine List.forall_mem_singleton.2 fun lot hlot => ?_
      obtain rfl : plainFlour = lot := Option.some.inj hlot
      exact hdraws
    · intro code hcode
      obtain rfl : "1130" = code := Option.some.inj hcode
      unfold ApartFrom
      decide +kernel
    · intro code hcode
      obtain rfl : "5000" = code := Option.some.inj hcode
      decide +kernel
  refine ⟨w, hok, hstatus, conserved_of_fits hcreated (.single (.performed rfl (fun id hid => ?_) hfits hok))⟩
  obtain rfl : "lot" = id := Option.some.inj hid
  decide +kernel

/-- A run that issues one of two bags whose landed costs are rounded one by one: the bag that is
    left keeps a cent of freight and one of duty, of the one cent both bags recorded, and the run
    holds a cent less than nothing.  And a run whose loaf is kept on the account of its work in
    progress: it holds nothing, and the account keeps what the loaf took. -/
theorem cost_not_conserved : (∃ w, (flourRun landedFlour).Created ∧
      Worked (fun _ _ _ => True) (flourRun landedFlour) w ∧ w.run.wip = -1 / 100 ∧ ¬w.Conserves "1140") ∧
    ∃ w, (flourRun plainFlour).Created ∧ Worked (fun _ _ _ => True) (flourRun plainFlour) w ∧ w.run.wip = 0 ∧
      w.run.wipAccountCode = some "1140" ∧ netMoved "1140" w.entries = 20 ∧ ¬w.Conserves "1140" := by
  have hissued : (((flourRun landedFlour).perform (bakeryBooks "5000") (.issue [("flour", 1)] "issue")).toOption.map
      fun w => w.run.wip) = some (-1 / 100) := by decide +kernel
  have hshared : (((flourRun plainFlour).perform sharedBooks (.complete .plain none "lot" "complete")).toOption.map
      fun w => (w.run.wip, w.run.wipAccountCode, netMoved "1140" w.entries)) = some (0, some "1140", 20) := by
    decide +kernel
  obtain ⟨w, hok, hwip⟩ := ok_of_toOption_map hissued
  obtain ⟨w', hok', hmoved⟩ := ok_of_toOption_map hshared
  simp only [Prod.mk.injEq] at hmoved
  obtain ⟨hwip', hcode, hnet⟩ := hmoved
  refine ⟨⟨w, ⟨rfl, _, rfl⟩, .performed rfl (fun id hid => by cases hid) trivial hok, hwip, fun h => ?_⟩,
    w', ⟨rfl, _, rfl⟩, .performed rfl (fun id hid => ?_) trivial hok', hwip', hcode, hnet, fun h => ?_⟩
  · have hnonneg := h.nonneg
    rw [hwip] at hnonneg
    norm_num at hnonneg
  · obtain rfl : "lot" = id := Option.some.inj hid
    decide +kernel
  · have hkept := h.kept hcode
    rw [hnet, hwip'] at hkept
    norm_num at hkept

end Celerp
