/-
  Quantity changes keep the unit cost.

  In exact arithmetic, an item's goods basis and its landed pools over its quantity
  are its unit cost; an item without a basis has one that waits for stock.  A move of
  the quantity (`Moved`) that finds units to share the basis, or no basis, keeps it:

  * `moved_of_share`, `moved_of_empty` and `moved_of_waiting` are the branches of
    `setQuantity`;
  * `unit_cost_kept` is their run: a lot counted down to nothing costs the same when
    units come back.
-/
import Celerp.Inventory.ItemCost

namespace Celerp

/-! ## Pools -/

theorem landed_filter (pools : Pools) : landed (pools.filter (·.2 ≠ 0)) = landed pools := by
  induction pools with
  | nil => rfl
  | cons p pools ih =>
    rw [List.filter_cons]
    simp only [landed, List.map_cons, List.sum_cons] at ih ⊢
    split_ifs with hp
    · rw [List.map_cons, List.sum_cons, ih]
    · have hzero : p.2 = 0 := by simpa using hp
      rw [ih, hzero, zero_add]

theorem landed_scale (pools : Pools) (q old : ℚ) :
    landed (pools.map fun p => (p.1, p.2 * q / old)) = landed pools * q / old := by
  induction pools with
  | nil => simp [landed]
  | cons p pools ih =>
    simp only [landed, List.map_cons, List.sum_cons] at ih ⊢
    rw [ih]
    ring

namespace ItemState
variable {round : ℚ → ℚ} {s s' t : ItemState} {b p q : ℚ}

/-! ## Unit costs -/

/-- The goods cost of a unit, if it is defined: the basis over the quantity, or the
    unit cost of an item without a basis. -/
def goodsUnitCost (s : ItemState) : Option ℚ :=
  match s.basis with
  | some b => if s.quantity = 0 then none else some (b / s.quantity)
  | none => s.costPrice

/-- The cost of a unit with its share of the landed pools. -/
def totalUnitCost (s : ItemState) : Option ℚ :=
  s.goodsUnitCost.map (· + landed s.landedCosts / s.quantity)

/-- The goods cost is on units the item holds, or waits for stock. -/
def Placed (s : ItemState) : Prop := 0 < s.quantity ∨ s.basis = none

/-- The item has a goods cost, or a unit cost for stock to come. -/
def Costed (s : ItemState) : Prop := s.basis ≠ none ∨ s.costPrice ≠ none ∧ s.quantity ≤ 0

theorem costed_of_known (h : s.goodsCostKnown) : s.Costed := by
  simp only [LotCost.goodsCostKnown, LotCost.goodsBasis, Bool.and_eq_true, Bool.or_eq_true,
    Option.isSome_map, Option.isSome_iff_ne_none, decide_eq_true_eq] at h
  exact h.2

/-- What a move of the quantity keeps. -/
structure Moved (s s' : ItemState) : Prop where
  decrease : s.Placed → s'.quantity < s.quantity → s'.totalUnitCost = s.totalUnitCost
  increase : s.Placed → s.quantity ≤ s'.quantity → s'.goodsUnitCost = s.goodsUnitCost
  emptied : s'.quantity < s.quantity → s'.quantity = 0 → s'.goodsUnitCost = s.totalUnitCost
  pools : ∀ p' ∈ s'.landedCosts, ∃ p ∈ s.landedCosts, p.1 = p'.1 ∧ |p'.2| ≤ |p.2|

/-! ## Deriving the total -/

theorem recomputedBase_of_basis (h : s.basis = some b) : s.recomputedBase round = some b := by
  unfold basis at h
  unfold recomputedBase
  cases hbase : s.costBase with
  | some base => simpa [hbase] using h
  | none =>
    have htotal : s.costTotal = some b := by simpa [hbase] using h
    simp [htotal]

theorem recomputeCost_basis (h : s.basis = some b) : (s.recomputeCost round).basis = some b := by
  simp [recomputeCost, recomputedBase_of_basis h, basis]

theorem basis_eq_none : s.basis = none ↔ s.costBase = none ∧ s.costTotal = none := by
  unfold basis
  cases s.costBase <;> simp

/-- A unit cost becomes the basis of stock that came. -/
theorem recomputeCost_basis_of_price (hb : s.basis = none) (hp : s.costPrice = some p)
    (hq : 0 < s.quantity) : (s.recomputeCost round).basis = some (round (p * s.quantity)) := by
  obtain ⟨hbase, htotal⟩ := basis_eq_none.1 hb
  have hrec : s.recomputedBase round = some (round (p * s.quantity)) := by
    simp [recomputedBase, hbase, htotal, hp, hq.not_ge]
  simp [recomputeCost, hrec, basis]

theorem recomputeCost_of_waiting (hb : s.basis = none) (hp : s.costPrice = some p)
    (hq : s.quantity ≤ 0) : s.recomputeCost round = s := by
  obtain ⟨hbase, htotal⟩ := basis_eq_none.1 hb
  have hrec : s.recomputedBase round = none := by
    simp [recomputedBase, hbase, htotal, hp, hq]
  simp [recomputeCost, hrec]

@[simp] theorem recomputeCost_quantity : (s.recomputeCost round).quantity = s.quantity := by
  unfold recomputeCost
  cases s.recomputedBase round <;> rfl

@[simp] theorem recomputeCost_landedCosts : (s.recomputeCost round).landedCosts = s.landedCosts := by
  unfold recomputeCost
  cases s.recomputedBase round <;> rfl

theorem goodsUnitCost_of_basis (hb : s.basis = some b) (hq : s.quantity ≠ 0) :
    s.goodsUnitCost = some (b / s.quantity) := by
  simp only [goodsUnitCost, hb, if_neg hq]

theorem goodsUnitCost_of_waiting (hb : s.basis = none) : s.goodsUnitCost = s.costPrice := by
  simp only [goodsUnitCost, hb]

/-! ## The branches of a move -/

/-- The pools units leave with, where some leave. -/
def movedPools (s : ItemState) (q : ℚ) : Pools :=
  if q < s.quantity then s.landedCosts.map fun p => (p.1, p.2 * q / s.quantity) else s.landedCosts

theorem setQuantity_share (hold : 0 < s.quantity) (hb : s.basis = some b) (hq : 0 < q) :
    s.setQuantity round q none none =
      ({ ({ s with costBase := some (b * q / s.quantity) } : ItemState).setLandedPools
          (s.movedPools q) with quantity := q }).recomputeCost round := by
  simp [setQuantity, movedPools, hold, hb, hq]

theorem setQuantity_empty (hold : 0 < s.quantity) (hb : s.basis = some b) (hq : q ≤ 0) :
    s.setQuantity round q none none =
      ({ ({ s with
            costBase := none
            costTotal := none
            costLanded := none
            costPrice := some ((b + landed s.landedCosts) / s.quantity) } : ItemState).setLandedPools
          [] with quantity := q }).recomputeCost round := by
  simp [setQuantity, hold, hb, hq.not_gt]

theorem setQuantity_unscaled (hold : s.quantity ≤ 0) :
    s.setQuantity round q none none =
      ({ s.setLandedPools s.landedCosts with quantity := q }).recomputeCost round := by
  simp [setQuantity, hold.not_gt]

theorem movedPools_le (hold : 0 < s.quantity) (hq : 0 < q) :
    ∀ p' ∈ s.movedPools q, ∃ p ∈ s.landedCosts, p.1 = p'.1 ∧ |p'.2| ≤ |p.2| := by
  intro p' hp'
  unfold movedPools at hp'
  split_ifs at hp' with hlt
  · obtain ⟨p, hp, rfl⟩ := List.mem_map.1 hp'
    refine ⟨p, hp, rfl, ?_⟩
    rw [mul_div_assoc, abs_mul, abs_of_pos (div_pos hq hold)]
    exact mul_le_of_le_one_right (abs_nonneg _) ((div_le_one hold).2 hlt.le)
  · exact ⟨p', hp', rfl, le_rfl⟩

/-- Some units leave, or more come to those there are. -/
theorem moved_of_share (hold : 0 < s.quantity) (hb : s.basis = some b) (hq : 0 < q) :
    Moved s (s.setQuantity id q none none) ∧ (s.setQuantity id q none none).basis ≠ none ∧
      (s.setQuantity id q none none).quantity = q := by
  rw [setQuantity_share hold hb hq]
  set t : ItemState := { ({ s with costBase := some (b * q / s.quantity) } : ItemState).setLandedPools
    (s.movedPools q) with quantity := q } with ht
  have hbasis : (t.recomputeCost id).basis = some (b * q / s.quantity) := recomputeCost_basis rfl
  have hquantity : (t.recomputeCost id).quantity = q := by rw [recomputeCost_quantity]
  have hpools : (t.recomputeCost id).landedCosts = (s.movedPools q).filter (·.2 ≠ 0) := by
    rw [recomputeCost_landedCosts]
    rfl
  have hgoods : (t.recomputeCost id).goodsUnitCost = s.goodsUnitCost := by
    rw [goodsUnitCost_of_basis hbasis (by rw [hquantity]; exact hq.ne'),
      goodsUnitCost_of_basis hb hold.ne', hquantity]
    congr 1
    field_simp
  have hshare : q < s.quantity →
      (t.recomputeCost id).totalUnitCost = s.totalUnitCost := by
    intro hlt
    rw [totalUnitCost, totalUnitCost, hgoods, hpools, hquantity, landed_filter, movedPools, if_pos hlt,
      landed_scale]
    congr 2
    funext u
    field_simp
  refine ⟨⟨fun _ hlt => hshare (hquantity ▸ hlt), fun _ _ => hgoods, fun _ hzero => ?_, ?_⟩, ?_,
    hquantity⟩
  · exact absurd (hquantity.symm.trans hzero) hq.ne'
  · intro p' hp'
    rw [hpools] at hp'
    exact movedPools_le hold hq p' (List.mem_of_mem_filter hp')
  · rw [hbasis]
    exact Option.some_ne_none _

/-- The last units leave: the whole unit cost waits for stock. -/
theorem moved_of_empty (hold : 0 < s.quantity) (hb : s.basis = some b) :
    Moved s (s.setQuantity id 0 none none) ∧ (s.setQuantity id 0 none none).basis = none ∧
      (s.setQuantity id 0 none none).costPrice ≠ none ∧
      (s.setQuantity id 0 none none).quantity = 0 := by
  rw [setQuantity_empty hold hb le_rfl, recomputeCost_of_waiting rfl rfl le_rfl]
  have hunit : s.totalUnitCost = some ((b + landed s.landedCosts) / s.quantity) := by
    rw [totalUnitCost, goodsUnitCost_of_basis hb hold.ne', Option.map_some, add_div]
  refine ⟨⟨fun _ _ => ?_, fun _ hle => ?_, fun _ _ => ?_, ?_⟩, rfl, Option.some_ne_none _, rfl⟩
  · rw [hunit, totalUnitCost, goodsUnitCost_of_waiting rfl]
    simp [landed, setLandedPools]
  · exact absurd hle hold.not_ge
  · exact (goodsUnitCost_of_waiting rfl).trans hunit.symm
  · intro p' hp'
    simp [setLandedPools] at hp'

/-- Units come to an item whose unit cost waited, or none do. -/
theorem moved_of_waiting (hold : s.quantity ≤ 0) (hb : s.basis = none) (hp : s.costPrice = some p)
    (hq : 0 ≤ q) :
    Moved s (s.setQuantity id q none none) ∧ (s.setQuantity id q none none).Costed ∧
      (s.setQuantity id q none none).Placed := by
  rw [setQuantity_unscaled hold]
  set t : ItemState := { s.setLandedPools s.landedCosts with quantity := q } with ht
  have hquantity : (t.recomputeCost id).quantity = q := by rw [recomputeCost_quantity]
  have hpools : ∀ p' ∈ (t.recomputeCost id).landedCosts, ∃ p ∈ s.landedCosts,
      p.1 = p'.1 ∧ |p'.2| ≤ |p.2| := by
    rw [recomputeCost_landedCosts]
    intro p' hp'
    exact ⟨p', List.mem_of_mem_filter hp', rfl, le_rfl⟩
  have hless : ¬(t.recomputeCost id).quantity < s.quantity := by
    rw [hquantity]
    exact (hold.trans hq).not_gt
  rcases hq.eq_or_lt with rfl | hpos
  · have heq : t.recomputeCost id = t := recomputeCost_of_waiting hb hp le_rfl
    refine ⟨⟨fun _ h => absurd h hless, fun _ _ => ?_, fun h _ => absurd h hless, hpools⟩, ?_, ?_⟩
    · rw [heq, goodsUnitCost_of_waiting hb]
      exact goodsUnitCost_of_waiting hb
    · rw [heq]
      exact Or.inr ⟨by rw [ht]; exact hp ▸ Option.some_ne_none _, le_rfl⟩
    · rw [heq]
      exact Or.inr hb
  · have hbasis : (t.recomputeCost id).basis = some (p * q) := recomputeCost_basis_of_price hb hp hpos
    refine ⟨⟨fun _ h => absurd h hless, fun _ _ => ?_, fun h _ => absurd h hless, hpools⟩, ?_, ?_⟩
    · rw [goodsUnitCost_of_basis hbasis (by rw [hquantity]; exact hpos.ne'), hquantity,
        goodsUnitCost_of_waiting hb, hp]
      congr 1
      field_simp
    · exact Or.inl (by rw [hbasis]; exact Option.some_ne_none _)
    · exact Or.inl (by rw [hquantity]; exact hpos)

/-- Units come to an item whose basis is on none. -/
theorem moved_of_unplaced (hold : s.quantity ≤ 0) (hb : s.basis = some b) (hq : 0 ≤ q) :
    Moved s (s.setQuantity id q none none) ∧ (s.setQuantity id q none none).basis ≠ none := by
  rw [setQuantity_unscaled hold]
  set t : ItemState := { s.setLandedPools s.landedCosts with quantity := q } with ht
  have hbasis : (t.recomputeCost id).basis = some b := recomputeCost_basis hb
  have hplaced : ¬s.Placed := by
    rintro (h | h)
    · exact hold.not_gt h
    · exact Option.some_ne_none _ (hb.symm.trans h)
  have hless : ¬(t.recomputeCost id).quantity < s.quantity := by
    rw [recomputeCost_quantity]
    exact (hold.trans hq).not_gt
  refine ⟨⟨fun h => absurd h hplaced, fun h => absurd h hplaced, fun h _ => absurd h hless, ?_⟩, ?_⟩
  · rw [recomputeCost_landedCosts]
    intro p' hp'
    exact ⟨p', List.mem_of_mem_filter hp', rfl, le_rfl⟩
  · rw [hbasis]
    exact Option.some_ne_none _

/-- **A move keeps the unit cost**, whatever the item holds. -/
theorem moved_setQuantity (hs : s.Costed) (hq : 0 ≤ q) :
    Moved s (s.setQuantity id q none none) ∧ (s.setQuantity id q none none).Costed ∧
      (s.Placed → (s.setQuantity id q none none).Placed) := by
  cases hb : s.basis with
  | none =>
    obtain ⟨hprice, hold⟩ := hs.resolve_left (· hb)
    obtain ⟨p, hp⟩ := Option.ne_none_iff_exists'.1 hprice
    obtain ⟨hmoved, hcosted, hplaced⟩ := moved_of_waiting hold hb hp hq
    exact ⟨hmoved, hcosted, fun _ => hplaced⟩
  | some b =>
    rcases le_or_gt s.quantity 0 with hold | hold
    · obtain ⟨hmoved, hbasis⟩ := moved_of_unplaced hold hb hq
      refine ⟨hmoved, Or.inl hbasis, ?_⟩
      rintro (h | h)
      · exact absurd h hold.not_gt
      · exact absurd (hb.symm.trans h) (Option.some_ne_none _)
    · rcases hq.eq_or_lt with rfl | hpos
      · obtain ⟨hmoved, hbasis, hprice, hquantity⟩ := moved_of_empty hold hb
        exact ⟨hmoved, Or.inr ⟨hprice, hquantity.le⟩, fun _ => Or.inr hbasis⟩
      · obtain ⟨hmoved, hbasis, hquantity⟩ := moved_of_share hold hb hpos
        exact ⟨hmoved, Or.inl hbasis, fun _ => Or.inl (by rw [hquantity]; exact hpos)⟩

end ItemState

/-! ## Runs of moves -/

/-- An `item.quantity.adjusted` or `item.consumed` to a quantity of at least 0 that
    states no cost. -/
def ItemEvent.Moves : ItemEvent → Prop
  | .quantityAdjusted newQty none none _ _ => 0 ≤ newQty
  | .consumed _ none none => True
  | _ => False

namespace ItemState
variable {s s' t u : ItemState} {e : ItemEvent} {moves : List ItemEvent}

theorem applyItemEvent_moves (hnil : s.landedContributions = []) (hs : s.Costed) (he : e.Moves) :
    ∃ s', applyItemEvent id s e = some s' ∧ Moved s s' ∧ s'.Costed ∧ (s.Placed → s'.Placed) := by
  unfold applyItemEvent
  rw [landedPoolsFromUnits_of_nil hnil]
  match e, he with
  | .quantityAdjusted newQty none none unknown consignedIn, he =>
    obtain ⟨hmoved, hcosted, hplaced⟩ := moved_setQuantity
      (s := { s with consignedIn := consignedIn.getD s.consignedIn }) hs he
    exact ⟨_, rfl, ⟨hmoved.decrease, hmoved.increase, hmoved.emptied, hmoved.pools⟩, hcosted, hplaced⟩
  | .consumed quantityConsumed none none, _ =>
    exact ⟨_, rfl, moved_setQuantity hs (le_max_left 0 _)⟩

/-- What a run of moves starts from: an item with a goods cost, whose landed cost is in
    pools. -/
def Movable (s : ItemState) : Prop := s.landedContributions = [] ∧ s.Costed

theorem Movable.step (hs : s.Movable) (he : e.Moves) :
    ∃ s', applyItemEvent id s e = some s' ∧ Moved s s' ∧ s'.Movable ∧ (s.Placed → s'.Placed) := by
  obtain ⟨s', h, hmoved, hcosted, hplaced⟩ := applyItemEvent_moves hs.1 hs.2 he
  exact ⟨s', h, hmoved, ⟨applyItemEvent_landedContributions h, hcosted⟩, hplaced⟩

theorem Movable.run (hs : s.Movable) (hmoves : ∀ e ∈ moves, e.Moves) :
    ∃ s', runItemEvents id s moves = some s' ∧ s'.Movable := by
  refine Runs.exists_foldlM_of_step hs fun e he s hs => ?_
  obtain ⟨s', h, -, hs', -⟩ := hs.step (hmoves e he)
  exact ⟨s', h, hs'⟩

theorem movable_of_run {events : List ItemEvent} (hrun : runItemEvents id .empty events = some s)
    (hknown : s.goodsCostKnown) : s.Movable := by
  refine ⟨?_, costed_of_known hknown⟩
  exact Runs.foldlM_of_step (Q := fun t => t.landedContributions = []) rfl
    (fun e _ s s' _ h => applyItemEvent_landedContributions h) hrun

theorem run_cons {es : List ItemEvent} :
    runItemEvents id s (e :: es) = some s' ↔
      ∃ t, applyItemEvent id s e = some t ∧ runItemEvents id t es = some s' :=
  Runs.foldlM_cons_eq_some

/-- While an item without units stays so, the unit cost that waits stays. -/
theorem goodsUnitCost_of_idle (hs : s.Movable) (hplaced : s.Placed) (hmoves : ∀ e ∈ moves, e.Moves)
    (hidle : ∀ kept rest v, moves = kept ++ rest → runItemEvents id s kept = some v → v.quantity = 0)
    (hrun : runItemEvents id s moves = some u) :
    u.goodsUnitCost = s.goodsUnitCost ∧ u.Movable ∧ u.Placed ∧ u.quantity = 0 := by
  induction moves generalizing s with
  | nil =>
    obtain rfl : s = u := by simpa [runItemEvents] using hrun
    exact ⟨rfl, hs, hplaced, hidle [] [] s rfl rfl⟩
  | cons e moves ih =>
    rw [List.forall_mem_cons] at hmoves
    obtain ⟨s₁, h₁, hrun⟩ := run_cons.1 hrun
    obtain ⟨s₂, h₂, hmoved, hs₂, hplaced₂⟩ := hs.step hmoves.1
    obtain rfl : s₁ = s₂ := Option.some.inj (h₁.symm.trans h₂)
    have hzero : s.quantity = 0 := hidle [] (e :: moves) s rfl rfl
    have hzero₁ : s₁.quantity = 0 :=
      hidle [e] moves s₁ rfl (run_cons.2 ⟨s₁, h₁, rfl⟩)
    have hidle₁ : ∀ kept rest v, moves = kept ++ rest → runItemEvents id s₁ kept = some v →
        v.quantity = 0 := by
      intro kept rest v hsplit hv
      exact hidle (e :: kept) rest v (congrArg (e :: ·) hsplit) (run_cons.2 ⟨s₁, h₁, hv⟩)
    obtain ⟨hgoods, hrest⟩ := ih hs₂ (hplaced₂ hplaced) hmoves.2 hidle₁ hrun
    exact ⟨hgoods.trans (hmoved.increase hplaced (hzero.trans hzero₁.symm).le), hrest⟩

end ItemState

/-- **Quantity changes keep the unit cost.**  From any item with a known goods cost,
    every move of a run is as `Moved` says; and units that come back to an item
    counted down to nothing cost what the last ones that left did. -/
theorem unit_cost_kept (events : List ItemEvent) (s : ItemState)
    (hrun : runItemEvents id .empty events = some s) (hknown : s.goodsCostKnown)
    (moves : List ItemEvent) (hmoves : ∀ e ∈ moves, e.Moves) :
    (∀ before e after, moves = before ++ e :: after →
      ∃ t t', runItemEvents id s before = some t ∧ applyItemEvent id t e = some t' ∧ t.Moved t') ∧
    ∀ before e idle back after t t' u u', moves = before ++ e :: (idle ++ back :: after) →
      runItemEvents id s before = some t → applyItemEvent id t e = some t' →
      t'.quantity < t.quantity → t'.quantity = 0 →
      (∀ kept rest v, idle = kept ++ rest → runItemEvents id t' kept = some v → v.quantity = 0) →
      runItemEvents id t' idle = some u → applyItemEvent id u back = some u' →
      0 < u'.quantity → u'.goodsUnitCost = t.totalUnitCost := by
  have hs : s.Movable := ItemState.movable_of_run hrun hknown
  constructor
  · rintro before e after rfl
    obtain ⟨t, ht, htm⟩ := hs.run fun e he => hmoves e (List.mem_append_left _ he)
    obtain ⟨t', ht', hmoved, -⟩ := htm.step (hmoves e (by simp))
    exact ⟨t, t', ht, ht', hmoved⟩
  · rintro before e idle back after t t' u u' rfl ht ht' hless hzero hidle hu hu' hpos
    obtain ⟨t₁, ht₁, htm⟩ := hs.run fun e he => hmoves e (List.mem_append_left _ he)
    obtain rfl : t = t₁ := Option.some.inj (ht.symm.trans ht₁)
    obtain ⟨t₂, ht₂, hmoved, htm', hplaced⟩ := htm.step (hmoves e (by simp))
    obtain rfl : t' = t₂ := Option.some.inj (ht'.symm.trans ht₂)
    have hplaced' : t'.Placed := hplaced (Or.inl (hzero ▸ hless))
    obtain ⟨hgoods, hum, huplaced, huzero⟩ := ItemState.goodsUnitCost_of_idle htm' hplaced'
      (fun e he => hmoves e (by simp [he])) hidle hu
    obtain ⟨u₁, hu₁, hback, -⟩ := hum.step (hmoves back (by simp))
    obtain rfl : u' = u₁ := Option.some.inj (hu'.symm.trans hu₁)
    rw [hback.increase huplaced (huzero ▸ hpos.le), hgoods, hmoved.emptied hless hzero]

/-- A lot received with its freight, and the state it is left in. -/
def freightedEvents : List ItemEvent :=
  [.created [.quantity 10, .costTotal (some 25)], .landedCostAllocated "bill:1" "freight" 4]

def freightedLot : ItemState := (runItemEvents id .empty freightedEvents).getD .empty

/-- The lot once all of it is used, and once some comes back. -/
def usedLot : ItemState := (applyItemEvent id freightedLot (.consumed 12 none none)).getD .empty

def returnedLot : ItemState :=
  (applyItemEvent id usedLot (.quantityAdjusted 6 none none none none)).getD .empty

theorem unit_cost_kept_returned : returnedLot.goodsUnitCost = freightedLot.totalUnitCost := by
  have hmoves : ∀ e ∈ [ItemEvent.consumed 12 none none, .quantityAdjusted 6 none none none none],
      e.Moves := by
    simp [ItemEvent.Moves]
  refine (unit_cost_kept freightedEvents freightedLot (by decide +kernel) (by decide +kernel) _
    hmoves).2 [] _ [] _ [] freightedLot usedLot usedLot returnedLot rfl rfl (by decide +kernel)
    (by decide +kernel) (by decide +kernel) ?_ rfl (by decide +kernel) (by decide +kernel)
  intro kept rest v hsplit hv
  obtain ⟨rfl, -⟩ := List.append_eq_nil_iff.1 hsplit.symm
  obtain rfl := Option.some.inj hv
  decide +kernel

/-- Counting a lot up from less than nothing leaves its goods basis as it was. -/
theorem unit_cost_not_kept :
    ∃ s s', runItemEvents id .empty [.created [.quantity (-5), .costTotal (some 100)]] = some s ∧
      s.goodsCostKnown ∧ applyItemEvent id s (.quantityAdjusted 10 none none none none) = some s' ∧
      (ItemEvent.quantityAdjusted 10 none none none none).Moves ∧ s.quantity < s'.quantity ∧
      s.goodsUnitCost = some (-20) ∧ s'.goodsUnitCost = some 10 := by
  refine ⟨_, _, rfl, ?_, rfl, ?_, ?_⟩
  · decide +kernel
  · simp [ItemEvent.Moves]
  · decide +kernel

end Celerp
