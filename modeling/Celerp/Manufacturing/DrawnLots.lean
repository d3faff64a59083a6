/-
  The value a component's lot gives up when some of it is issued
  (`cost_kept`, `value_moved`).

  A lot gives up what it records less what it records afterwards.  Where its cost fields agree
  and it does not record less than nothing, that is between nothing and what it recorded
  (`valueMoved_bounds`); a lot with landed pools that is drawn in part needs more, as each pool's
  share is rounded on its own: what it keeps of its goods and of its pools is not less than
  nothing, and no more than what it records (`ItemState.KeepsWithin`).
-/
import Celerp.Inventory.NegativeCost
import Celerp.Inventory.UnitCost
import Celerp.Manufacturing.Movements

namespace Celerp

/-- The quantity a lot falls to when some of it is drawn. -/
def ItemState.leftQty (s : ItemState) (q : ℚ) : ℚ := max 0 (s.quantity - q)

/-- A lot without a goods cost or pools: what its unit cost comes to, rounded as a goods cost,
    is no more than what it records. -/
structure ItemState.UnitPriced (s : ItemState) (q : ℚ) (c : String) : Prop where
  base : s.costBase = none
  total : s.costTotal = none
  pools : s.landedCosts = []
  within : roundMoney (roundBasis (s.costPrice.getD 0 * s.leftQty q)) c ≤
    roundMoney (s.costPrice.getD 0 * s.quantity) c

/-- A lot that gives up no less than nothing when a quantity of it is drawn: its cost fields
    agree, it does not record less than nothing, and what `cost_kept` leaves it is not less than
    nothing, and no more than it records. -/
structure ItemState.KeepsWithin (s : ItemState) (q : ℚ) (c : String) : Prop where
  contributions : s.landedContributions = []
  coherent : s.Coherent roundBasis
  cost : s.costBase ≠ none ∨ s.UnitPriced q c
  recorded : 0 ≤ s.recordedValue
  kept : ∀ goods ∈ (costKept s (s.leftQty q) c).1, ∀ pools ∈ (costKept s (s.leftQty q) c).2,
    0 ≤ goods + landed pools ∧ goods + landed pools ≤ roundMoney s.recordedValue c

section
variable {s t : ItemState} {base v q new goods : ℚ} {c : String} {pools : Pools}

/-! ## What a lot records -/

/-- What a state records once its total is derived from a goods cost. -/
theorem recordedValue_recomputeCost (h : t.recomputedBase roundBasis = some v) :
    (t.recomputeCost roundBasis).recordedValue = roundBasis (v + roundBasis (landed t.landedCosts)) := by
  unfold ItemState.recomputeCost
  rw [h]
  unfold LotCost.recordedValue
  dsimp only
  rw [Option.getD_some, Option.getD_none, zero_mul]
  split_ifs with hne
  · rfl
  · exact (not_not.1 hne).symm

/-- What a lot records whose cost fields agree. -/
theorem recordedValue_of_coherent (h : s.Coherent roundBasis) (hbase : s.costBase = some base) :
    s.recordedValue = roundBasis (base + roundBasis (landed s.landedCosts)) := by
  obtain ⟨-, htotal, hprice⟩ := h base hbase
  unfold LotCost.recordedValue
  rw [htotal, hprice, Option.getD_some, Option.getD_none, zero_mul]
  split_ifs with hne
  · rfl
  · exact (not_not.1 hne).symm

theorem recordedValue_of_unitPriced (h : s.UnitPriced q c) : s.recordedValue = s.costPrice.getD 0 * s.quantity := by
  unfold LotCost.recordedValue
  rw [h.total, Option.getD_none, if_neg (by simp)]

theorem leftQty_nonneg : 0 ≤ s.leftQty q := le_max_left _ _

theorem leftQty_le (hq : 0 ≤ q) (hquantity : 0 < s.quantity) : s.leftQty q ≤ s.quantity :=
  max_le hquantity.le (by linarith)

/-! ## A lot at a new quantity -/

/-- A lot at a new quantity with a goods cost and pools stated. -/
theorem recordedValue_setQuantity_stated :
    (s.setQuantity roundBasis new (some goods) (some pools)).recordedValue =
      roundBasis (goods + roundBasis (landed pools)) := by
  unfold ItemState.setQuantity
  rw [recordedValue_recomputeCost (v := goods) rfl]
  exact congrArg (fun l => roundBasis (goods + roundBasis l)) (landed_filter pools)

/-- A share of an amount by quantity is no more than the amount. -/
theorem share_bounds (hv : 0 ≤ v) (hnew : 0 ≤ new) (hle : new ≤ q) (hq : 0 < q) :
    0 ≤ v * new / q ∧ v * new / q ≤ v := by
  refine ⟨by positivity, ?_⟩
  rw [div_le_iff₀ hq]
  exact mul_le_mul_of_nonneg_left hle hv

/-- A lot with a goods cost that is not divided, at the quantity it falls to: it records
    nothing, what it recorded, or, without pools, the share of its goods cost. -/
theorem recordedValue_undivided (hbase : s.costBase = some base) (hcoherent : s.Coherent roundBasis) (hq : 0 ≤ q)
    (hwhole : s.landedCosts = [] ∨ s.quantity ≤ 0 ∨ ¬(0 < s.leftQty q ∧ s.leftQty q < s.quantity)) :
    (s.setQuantity roundBasis (s.leftQty q) none none).recordedValue = 0 ∨
      (s.setQuantity roundBasis (s.leftQty q) none none).recordedValue = s.recordedValue ∨
      s.recordedValue = roundBasis base ∧ ∃ part, 0 ≤ part ∧ part ≤ 1 ∧
        (s.setQuantity roundBasis (s.leftQty q) none none).recordedValue = roundBasis (base * part) := by
  have hbasis : s.basis = some base := by rw [ItemState.basis, hbase, Option.some_or]
  have hrecorded := recordedValue_of_coherent hcoherent hbase
  have hzero : roundBasis 0 = 0 := roundBasis_of_onBasis onBasis_zero
  unfold ItemState.setQuantity
  dsimp only
  rw [hbasis, Option.getD_none, Option.map_some]
  by_cases hunits : 0 < s.quantity ∧ ((some base ≠ none) ∨ s.landedCosts ≠ [])
  · rw [if_pos hunits]
    have hle := leftQty_le hq hunits.1
    by_cases hleft : 0 < s.leftQty q
    · rw [if_pos hleft]
      right
      by_cases hpools : s.landedCosts = []
      · right
        refine ⟨?_, s.leftQty q / s.quantity, div_nonneg hleft.le hunits.1.le, (div_le_one hunits.1).2 hle, ?_⟩
        · rw [hrecorded, hpools, landed, List.map_nil, List.sum_nil, hzero, add_zero]
        · rw [hpools, List.map_nil, ite_self, recordedValue_recomputeCost rfl, ← mul_div_assoc]
          simp [ItemState.setLandedPools, landed, hzero]
      · left
        have hall : s.leftQty q = s.quantity := by
          refine le_antisymm hle (not_lt.1 fun hless => ?_)
          exact (hwhole.resolve_left hpools).elim (not_le.2 hunits.1) fun hnot => hnot ⟨hleft, hless⟩
        rw [if_neg (by rw [hall]; simp), recordedValue_recomputeCost rfl, hall,
          mul_div_cancel_right₀ _ hunits.1.ne', hrecorded]
        exact congrArg (fun l => roundBasis (base + roundBasis l)) (landed_filter _)
    · left
      rw [if_neg hleft]
      have hnone : s.leftQty q = 0 := le_antisymm (not_lt.1 hleft) leftQty_nonneg
      unfold ItemState.recomputeCost ItemState.recomputedBase LotCost.recordedValue
      simp [ItemState.setLandedPools, hnone]
  · rw [if_neg hunits]
    refine .inr (.inl ?_)
    rw [hrecorded, recordedValue_recomputeCost (v := base)]
    · exact congrArg (fun l => roundBasis (base + roundBasis l)) (landed_filter _)
    · unfold ItemState.recomputedBase ItemState.setLandedPools
      dsimp only
      rw [hbase]

/-- A lot with a unit cost alone that falls to a quantity. -/
theorem recordedValue_setQuantity_of_unitPriced (h : s.UnitPriced q c) :
    (s.setQuantity roundBasis (s.leftQty q) none none).recordedValue = 0 ∨ 0 < s.leftQty q ∧
      (s.setQuantity roundBasis (s.leftQty q) none none).recordedValue =
        roundBasis (s.costPrice.getD 0 * s.leftQty q) := by
  have hbasis : s.basis = none := by rw [ItemState.basis, h.base, h.total]; rfl
  unfold ItemState.setQuantity
  dsimp only
  rw [hbasis, Option.getD_none, h.pools, if_neg (by simp)]
  have hzero : roundBasis 0 = 0 := roundBasis_of_onBasis onBasis_zero
  have hlanded : landed ([] : Pools) = 0 := rfl
  unfold ItemState.recomputeCost ItemState.recomputedBase ItemState.setLandedPools LotCost.recordedValue
  dsimp only
  rw [h.base, h.total]
  cases s.costPrice with
  | none => simp
  | some price =>
    by_cases hleft : s.leftQty q ≤ 0
    · left
      simp [le_antisymm hleft leftQty_nonneg]
    · refine .inr ⟨not_le.1 hleft, ?_⟩
      simp only [hleft, if_false, List.filter_nil, hlanded, hzero, add_zero, Option.getD_some,
        roundBasis_of_onBasis (onBasis_roundBasis _)]
      split_ifs with hne
      · rfl
      · simp [not_not.1 hne]

/-! ## A lot drawn on -/

/-- A share of a goods cost, rounded as one, is between nothing and the cost, where that is not
    less than nothing. -/
theorem roundBasis_part {part : ℚ} (hbase : 0 ≤ roundBasis base) (hpart : 0 ≤ part) (hle : part ≤ 1) :
    0 ≤ roundBasis (base * part) ∧ roundBasis (base * part) ≤ roundBasis base := by
  rcases le_or_gt 0 base with hnn | hneg
  · exact ⟨roundBasis_nonneg (mul_nonneg hnn hpart), roundBasis_mono (mul_le_of_le_one_right hnn hle)⟩
  · have hzero : roundBasis 0 = 0 := roundBasis_of_onBasis onBasis_zero
    have hless : roundBasis (base * part) ≤ 0 :=
      hzero ▸ roundBasis_mono (mul_nonpos_of_nonpos_of_nonneg hneg.le hpart)
    exact ⟨hbase.trans (roundBasis_mono (le_mul_of_le_one_right hneg.le hle)), hless.trans hbase⟩

/-- What `cost_kept` leaves a lot with a goods cost that is drawn in part is in whole minor
    units. -/
theorem costKept_divided (hbase : s.costBase = some base)
    (hdivided : ¬(s.landedCosts = [] ∨ s.quantity ≤ 0 ∨ ¬(0 < new ∧ new < s.quantity))) :
    ∃ goods pools, costKept s new c = (some goods, some pools) ∧ IsWhole c goods ∧ IsWhole c (landed pools) := by
  have hbasis : s.goodsBasis = some (roundBasis base) := by
    rw [LotCost.goodsBasis, hbase, Option.some_or, Option.map_some]
  exact ⟨_, _, (if_neg hdivided).trans (by rw [carve_restGoods hbasis]), isWhole_keptGoods _ _ _ _,
    isWhole_landed (isWhole_restLanded _ _ _)⟩

/-- What a lot that keeps within what it records does record once some of it is drawn. -/
theorem recordedValue_drawn (h : s.KeepsWithin q c) (hq : 0 ≤ q) :
    0 ≤ (s.setQuantity roundBasis (s.leftQty q) (costKept s (s.leftQty q) c).1
        (costKept s (s.leftQty q) c).2).recordedValue ∧
      roundMoney (s.setQuantity roundBasis (s.leftQty q) (costKept s (s.leftQty q) c).1
        (costKept s (s.leftQty q) c).2).recordedValue c ≤ roundMoney s.recordedValue c := by
  have hrecorded := h.recorded
  have hzero : 0 ≤ (0 : ℚ) ∧ roundMoney 0 c ≤ roundMoney s.recordedValue c :=
    ⟨le_rfl, by rw [roundMoney_zero]; exact roundMoney_nonneg c hrecorded⟩
  rcases h.cost with hsome | hpriced
  · obtain ⟨base, hbase⟩ := Option.ne_none_iff_exists'.1 hsome
    by_cases hwhole : s.landedCosts = [] ∨ s.quantity ≤ 0 ∨ ¬(0 < s.leftQty q ∧ s.leftQty q < s.quantity)
    · rw [show costKept s (s.leftQty q) c = (none, none) from if_pos hwhole]
      rcases recordedValue_undivided hbase h.coherent hq hwhole with
        hnone | hsame | ⟨hbasis, part, hpart, hle, hvalue⟩
      · rw [hnone]
        exact hzero
      · rw [hsame]
        exact ⟨hrecorded, le_rfl⟩
      · rw [hbasis] at hrecorded ⊢
        obtain ⟨hnn, hpartLe⟩ := roundBasis_part hrecorded hpart hle
        rw [hvalue]
        exact ⟨hnn, roundMoney_mono c hpartLe⟩
    · obtain ⟨goods, pools, hcosts, hgoods, hpools⟩ := costKept_divided (c := c) hbase hwhole
      have hkept := h.kept goods (by rw [hcosts]; rfl) pools (by rw [hcosts]; rfl)
      have hsum := hgoods.add hpools
      rw [hcosts, recordedValue_setQuantity_stated, roundBasis_of_onBasis hpools.onBasis,
        roundBasis_of_onBasis hsum.onBasis, roundMoney_of_isWhole hsum]
      exact hkept
  · rw [show costKept s (s.leftQty q) c = (none, none) from if_pos (.inl hpriced.pools)]
    rcases recordedValue_setQuantity_of_unitPriced hpriced with hnone | ⟨hleft, hvalue⟩
    · rw [hnone]
      exact hzero
    · rw [recordedValue_of_unitPriced hpriced] at hrecorded ⊢
      have hquantity : 0 < s.quantity := by
        by_contra hnot
        unfold ItemState.leftQty at hleft
        exact absurd hleft (by rw [max_eq_left (by linarith)]; exact lt_irrefl 0)
      have hprice : 0 ≤ s.costPrice.getD 0 := nonneg_of_mul_nonneg_left hrecorded hquantity
      rw [hvalue]
      exact ⟨roundBasis_nonneg (mul_nonneg hprice hleft.le), hpriced.within⟩

/-- A lot once some of it is drawn. -/
theorem consume_state {lot : CostedLot} (h : lot.state.landedContributions = []) :
    (lot.consume q c).state = lot.state.setQuantity roundBasis (lot.state.leftQty q)
      (costKept lot.state (lot.state.leftQty q) c).1 (costKept lot.state (lot.state.leftQty q) c).2 := by
  unfold CostedLot.consume consumption
  rw [applyItemEvent, ItemState.landedPoolsFromUnits_of_nil h]
  rfl

/-- **A lot gives up between nothing and what it records.** -/
theorem valueMoved_bounds {lot : CostedLot} (h : lot.state.KeepsWithin q c) (hq : 0 ≤ q) :
    0 ≤ valueMoved lot q c ∧ valueMoved lot q c ≤ roundMoney lot.state.recordedValue c := by
  obtain ⟨hafter, hafterLe⟩ := recordedValue_drawn h hq
  unfold valueMoved
  rw [consume_state h.contributions]
  split_ifs
  · exact ⟨sub_nonneg.2 hafterLe, sub_le_self _ (roundMoney_nonneg c hafter)⟩
  · rw [roundMoney_zero, sub_zero]
    exact ⟨roundMoney_nonneg c h.recorded, le_rfl⟩

end

end Celerp
