/-
  The lots a production run makes (`celerp_manufacturing/movements.py`).

  A lot of output stands at the value it is received at (`stands_outputEvents`), and a change
  of its cost leaves it standing at the value changed (`restate_stands`).  So the lots of a
  run's receipts stand at their receipts' values, with what completion changed them by while
  the run is completed (`standing_restated`), and hold that on the books (`Standing.heldOn`).
-/
import Celerp.Inventory.ItemCost
import Celerp.Manufacturing.Reopened

namespace Celerp

open Outcome

/-- A lot's state where the lot is the company's own stock, free, and costs just a value. -/
structure ItemState.Stands (value : ℚ) (s : ItemState) : Prop where
  status : s.status = "available"
  owned : s.consignedIn = false
  stock : s.isStockType
  base : s.costBase = some value
  total : s.costTotal = some value
  price : s.costPrice = none
  pools : s.landedCosts = []
  contributions : s.landedContributions = []

section
variable {s : ItemState} {lot lot' : CostedLot} {value v delta : ℚ} {c : String}

/-- A lot stands at the goods cost its total is derived from. -/
theorem stands_recomputeCost (hstatus : s.status = "available") (howned : s.consignedIn = false) (hstock : s.isStockType)
    (hbase : s.recomputedBase roundBasis = some v) (hpools : s.landedCosts = []) (hunits : s.landedContributions = [])
    (hv : OnBasis v) : (s.recomputeCost roundBasis).Stands v := by
  have hzero : roundBasis 0 = 0 := roundBasis_of_onBasis onBasis_zero
  unfold ItemState.recomputeCost
  rw [hbase]
  refine ⟨hstatus, howned, hstock, rfl, ?_, rfl, hpools, hunits⟩
  dsimp only
  rw [hpools, landed, List.map_nil, List.sum_nil, hzero, add_zero, roundBasis_of_onBasis hv]

theorem stands_migrateSellBy (hstatus : s.status = "available") (howned : s.consignedIn = false) (hstock : s.isStockType)
    (hbase : s.costBase = none) (htotal : s.costTotal = some v) (hpools : s.landedCosts = [])
    (hunits : s.landedContributions = []) (hv : OnBasis v) : (s.migrateSellBy.recomputeCost roundBasis).Stands v := by
  unfold ItemState.migrateSellBy
  split_ifs
  · refine stands_recomputeCost hstatus howned hstock ?_ hpools hunits hv
    unfold ItemState.recomputedBase
    rw [hbase, htotal]
  · refine stands_recomputeCost hstatus howned hstock ?_ hpools hunits hv
    unfold ItemState.recomputedBase
    rw [hbase, htotal]

/-- **A lot of output stands at the value it is received at.** -/
theorem stands_outputEvents {run : RunState} {product : ItemState} {qty : ℚ} {sku : String} {code : Option String}
    (hv : OnBasis v) (hstock : product.isStockType) :
    (CostedLot.ofEvents sku (outputEvents run product qty v code)).state.Stands v := by
  have htype : (product.inventoryType.or (some "stocked")).getD "stocked" = product.inventoryType.getD "stocked" := by
    cases product.inventoryType <;> rfl
  have hstock' : decide ((product.inventoryType.or (some "stocked")).getD "stocked" ∈ STOCK_TYPES) = true := by
    rw [htype]
    exact hstock
  obtain ⟨created, hcreated, hstands⟩ : ∃ created, applyItemEvent roundBasis .empty (.created [.quantity 0,
      .sellBy product.sellBy, .inventoryType product.inventoryType, .costTotal (some v), .inventoryAccount code,
      .goodsCostUnknown (run.inputs.any (·.goodsCostUnknown))]) = some created ∧ created.Stands v :=
    ⟨_, rfl, stands_migrateSellBy rfl rfl hstock' rfl rfl rfl rfl hv⟩
  have hproduced : applyItemEvent roundBasis created (.produced qty) =
      some { created with quantity := created.quantity + qty } := by
    rw [applyItemEvent, ItemState.landedPoolsFromUnits_of_nil hstands.contributions]
    rfl
  have hrun : runItemEvents roundBasis .empty (outputEvents run product qty v code) =
      some { created with quantity := created.quantity + qty } := by
    rw [runItemEvents, outputEvents, List.foldlM_cons, hcreated]
    dsimp only [bind, Option.bind]
    rw [List.foldlM_cons, hproduced]
    rfl
  unfold CostedLot.ofEvents
  rw [hrun]
  exact ⟨hstands.status, hstands.owned, hstands.stock, hstands.base, hstands.total, hstands.price, hstands.pools,
    hstands.contributions⟩

/-- A lot that stands at a value holds it on the books. -/
theorem ItemState.Stands.bookedValue (h : lot.state.Stands v) (hv : IsWhole c v) : lot.bookedValue c = v := by
  have hstock : lot.state.inStock := by
    have hbooks : "available".toLower ∉ OFF_BOOKS ∧ "available".toLower ∉ RETIRED := by decide +kernel
    unfold LotState.inStock
    rw [h.status]
    simp [hbooks]
  have hheld : lot.held = some v := by
    unfold CostedLot.held heldValue
    rw [if_pos (by simp [hstock, h.owned, h.stock])]
    by_cases hzero : v = 0 <;> simp [LotCost.recordedValue, h.total, h.price, hzero]
  rw [CostedLot.bookedValue, hheld, Option.getD_some, roundMoney_of_isWhole hv]

/-- A change of its cost leaves a lot standing at the value changed. -/
theorem ItemState.Stands.costAdjusted (h : s.Stands v) (hv : OnBasis value) :
    ((applyItemEvent roundBasis s (.costAdjusted value none)).getD s).Stands value := by
  rw [applyItemEvent, ItemState.landedPoolsFromUnits_of_nil h.contributions]
  have hset := stands_recomputeCost (s := { s with costBase := some value }) h.status h.owned h.stock rfl h.pools
    h.contributions hv
  exact ⟨hset.status, hset.owned, hset.stock, hset.base, hset.total, hset.price, hset.pools, hset.contributions⟩

theorem ItemState.Stands.goodsBasis (h : s.Stands v) (hv : OnBasis v) : s.goodsBasis = some v := by
  rw [LotCost.goodsBasis, h.base, Option.some_or, Option.map_some, roundBasis_of_onBasis hv]


/-! ## Restating -/

theorem carryFrom_stands {lots : LotBooks} {id : String} {new : ItemState} {carried : List LotBooks.Carried}
    (hstands : lot.state.Stands v) (h : lots.carryFrom id lot new = .ok carried) : carried = [] := by
  have hwalks : LotBooks.walks lot.state new = false := by
    have hstill : "available".toLower ≠ "merged" ∧ "available".toLower ≠ "sold" ∧ "available".toLower ≠ "disposed" := by
      decide +kernel
    unfold LotBooks.walks
    rw [hstands.status]
    simp [hstill]
  unfold LotBooks.carryFrom at h
  rw [hwalks] at h
  exact (Except.ok.inj h).symm

/-- What the change of the cost of a lot that stands at a value does: the lot stands at the
    value changed, and no other lot is. -/
theorem restate_stands {w : Plant} {b : RunBooks} {id : String} {r : Plant × Option String}
    (h : w.restate b id delta = .ok r) (hlot : w.lots.get? id = some lot) (hstands : lot.state.Stands v) (hv : OnBasis v)
    (hsum : OnBasis (v + delta)) :
    r.1.touched = w.touched ∧ (∃ lot', r.1.lots.get? id = some lot' ∧ lot'.state.Stands (v + delta)) ∧
      ∀ l, l ≠ id → r.1.lots.get? l = w.lots.get? l := by
  unfold Plant.restate at h
  obtain ⟨last, -, h⟩ := bind_eq_ok.1 h
  obtain ⟨⟨plan, lots⟩, hrestated, h⟩ := bind_eq_ok.1 h
  obtain ⟨hplan, rfl⟩ := LotBooks.restateItemCost_ok (mapError_eq_ok.1 hrestated)
  obtain ⟨root, new, hroot, -, -, hcarried⟩ := LotBooks.restatement_ok hplan
  obtain rfl := Option.some.inj (hlot.symm.trans hroot)
  have hnone := carryFrom_stands hstands hcarried
  have hbasis : ((w.lots.get? id).bind fun lot => lot.state.goodsBasis).getD 0 = v := by
    rw [hlot, Option.bind_some, hstands.goodsBasis hv, Option.getD_some]
  rw [hnone, hbasis] at h
  have hr : r.1 = { w with
      lots := w.lots.write id { event := .costAdjusted (v + delta) none }
      touched := fun l => w.touched l || false } := by
    dsimp only [LotBooks.writeCarried, List.foldl_nil, List.any_nil] at h
    split_ifs at h
    · obtain ⟨code, -, rfl⟩ := map_eq_ok.1 h
      rfl
    · rw [← Except.ok.inj h]
  rw [hr]
  refine ⟨funext fun l => Bool.or_false _, ⟨_, LotBooks.get?_write_self hlot, hstands.costAdjusted hsum⟩, fun l hl => ?_⟩
  exact LotBooks.get?_write_of_ne hl


/-! ## The lots of a run's receipts -/

/-- The lots of receipts, which nothing but the run has touched, stand at values. -/
def Plant.Standing (w : Plant) (receipts : List Receipt) (value : Receipt → ℚ) : Prop :=
  ∀ r ∈ receipts, w.touched r.lotItemId = false ∧
    ∃ lot, w.lots.get? r.lotItemId = some lot ∧ lot.state.Stands (value r)

/-- What changes of lots change a receipt's lot by. -/
def changeOf (lots : List RestatedLot) (r : Receipt) : ℚ :=
  Tally.total r.lotItemId (lots.map fun l => (l.lotItemId, l.delta))

section
variable {w w' : Plant} {b : RunBooks} {receipts : List Receipt} {worth : Receipt → ℚ} {lots : List RestatedLot}
  {st st' : Restating}

/-- **The change of the cost of receipts' lots**: each stands at its value changed. -/
theorem standing_restated (h : lots.foldlM (Restating.restateLot b) st = .ok st')
    (hstanding : st.plant.Standing receipts worth) (hids : ∀ l ∈ lots, l.lotItemId ∈ receipts.map (·.lotItemId))
    (hwhole : ∀ r ∈ receipts, IsWhole c (worth r)) (hdeltas : ∀ l ∈ lots, IsWhole c l.delta) :
    st'.plant.Standing receipts fun r => worth r + changeOf lots r := by
  induction lots generalizing st worth with
  | nil =>
    obtain rfl : st = st' := by simpa [pure, Except.pure] using h
    simpa [changeOf] using hstanding
  | cons l lots ih =>
    rw [List.forall_mem_cons] at hids hdeltas
    rw [List.foldlM_cons, bind_eq_ok] at h
    obtain ⟨t, ht, h⟩ := h
    obtain ⟨res, hres, rfl⟩ := map_eq_ok.1 ht
    obtain ⟨r₀, hr₀, hid⟩ := List.mem_map.1 hids.1
    obtain ⟨-, lot, hlot, hstands⟩ := hstanding r₀ hr₀
    rw [hid] at hlot
    obtain ⟨htouched, ⟨lot', hlot', hstands'⟩, hothers⟩ := restate_stands hres hlot hstands (hwhole r₀ hr₀).onBasis
      ((hwhole r₀ hr₀).add hdeltas.1).onBasis
    have hstep : res.1.Standing receipts fun r => worth r + if l.lotItemId = r.lotItemId then l.delta else 0 := by
      intro r hr
      obtain ⟨huntouched, lotr, hlotr, hstandsr⟩ := hstanding r hr
      rw [htouched]
      refine ⟨huntouched, ?_⟩
      by_cases hlr : l.lotItemId = r.lotItemId
      · rw [← hlr, hlot, Option.some.injEq] at hlotr
        subst hlotr
        refine ⟨lot', hlr ▸ hlot', ?_⟩
        have hvalue : worth r = worth r₀ := Option.some.inj (hstandsr.base.symm.trans hstands.base)
        dsimp only
        rw [if_pos hlr, hvalue]
        exact hstands'
      · dsimp only
        rw [if_neg hlr, add_zero]
        exact ⟨lotr, (hothers _ (Ne.symm hlr)).trans hlotr, hstandsr⟩
    have hwhole' : ∀ r ∈ receipts, IsWhole c (worth r + if l.lotItemId = r.lotItemId then l.delta else 0) := by
      intro r hr
      refine (hwhole r hr).add ?_
      split_ifs
      · exact hdeltas.1
      · exact isWhole_zero c
    have hrest := ih h hstep hids.2 hwhole' hdeltas.2
    intro r hr
    obtain ⟨huntouched, lotr, hlotr, hstandsr⟩ := hrest r hr
    refine ⟨huntouched, lotr, hlotr, ?_⟩
    have hchange : changeOf (l :: lots) r = (if l.lotItemId = r.lotItemId then l.delta else 0) + changeOf lots r := by
      rw [changeOf, List.map_cons, Tally.total_cons, changeOf]
    dsimp only
    rw [hchange, ← add_assoc]
    exact hstandsr

/-- Lots left as they are stand where they stood. -/
theorem Plant.Standing.congr (h : w.Standing receipts worth) (htouched : ∀ r ∈ receipts, w'.touched r.lotItemId = false)
    (hsame : ∀ r ∈ receipts, w'.lots.get? r.lotItemId = w.lots.get? r.lotItemId) : w'.Standing receipts worth := by
  intro r hr
  obtain ⟨-, lot, hlot, hstands⟩ := h r hr
  exact ⟨htouched r hr, lot, (hsame r hr).trans hlot, hstands⟩

/-- What happens elsewhere leaves the lots it has not touched where they stood. -/
theorem Plant.Standing.elsewhere (h : w.Standing receipts worth) (helse : Plant.Elsewhere w w')
    (htouched : ∀ r ∈ receipts, w'.touched r.lotItemId = false) : w'.Standing receipts worth := by
  intro r hr
  obtain ⟨-, lot, hlot, hstands⟩ := h r hr
  obtain ⟨lot', hlot'⟩ := Option.isSome_iff_exists.1 (helse.found _ (Option.isSome_iff_exists.2 ⟨lot, hlot⟩))
  refine ⟨htouched r hr, lot', hlot', ?_⟩
  rcases helse.untouched _ lot lot' (htouched r hr) hlot hlot' with hsame | ⟨-, code, hsame⟩
  · rw [hsame]
    exact hstands
  · rw [hsame]
    exact ⟨hstands.status, hstands.owned, hstands.stock, hstands.base, hstands.total, hstands.price, hstands.pools,
      hstands.contributions⟩

/-- What the lots of receipts hold on the books. -/
def Plant.heldOn (w : Plant) (receipts : List Receipt) : ℚ :=
  (receipts.map fun r => (w.lots.get? r.lotItemId).elim 0 (·.bookedValue w.currency)).sum

theorem Plant.Standing.heldOn (h : w.Standing receipts worth) (hwhole : ∀ r ∈ receipts, IsWhole w.currency (worth r)) :
    w.heldOn receipts = (receipts.map worth).sum := by
  unfold Plant.heldOn
  refine congrArg List.sum (List.map_congr_left fun r hr => ?_)
  obtain ⟨-, lot, hlot, hstands⟩ := h r hr
  rw [hlot, Option.elim_some, hstands.bookedValue (hwhole r hr)]

/-- Changes of receipts' lots come to what the receipts' lots change by. -/
theorem sum_changeOf (hreceipts : (receipts.map (·.lotItemId)).Nodup)
    (hids : ∀ l ∈ lots, l.lotItemId ∈ receipts.map (·.lotItemId)) :
    (receipts.map (changeOf lots)).sum = (lots.map (·.delta)).sum := by
  have hkeys : ∀ t ∈ lots.map fun l => (l.lotItemId, l.delta), t.1 ∈ (receipts.map (·.lotItemId)).toFinset :=
    List.forall_mem_map.2 fun l hl => List.mem_toFinset.2 (hids l hl)
  have hsum := Tally.sum_total_finset hkeys
  rw [List.sum_toFinset _ hreceipts, List.map_map, List.map_map] at hsum
  exact hsum

theorem changeOf_neg (r : Receipt) :
    changeOf (lots.map fun l => (⟨l.lotItemId, -l.delta⟩ : RestatedLot)) r = -changeOf lots r := by
  unfold changeOf
  induction lots with
  | nil => simp
  | cons l lots ih =>
    rw [List.map_cons, List.map_cons, Tally.total_cons, ih, List.map_cons, Tally.total_cons, neg_add]
    split_ifs <;> simp

end

end

end Celerp
