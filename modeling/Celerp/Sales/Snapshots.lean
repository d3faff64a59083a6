/-
  Rewrites of an allocation snapshot (`_less_moved`, `_less_credited` and
  `_free_goods_only` in `celerp/services/auto_je.py`).

  * `lessMoved` makes the goods that cost moves took provisional, `lessCredited` takes off
    what credit notes credited, `freeGoodsOnly` leaves a restored invoice the goods still
    free;
  * `keepFirst` is what a line keeps of its lots when goods leave it from the last;
  * `snapshots_keep_count`: no quantity and no amount goes below nothing or up, no lot is
    kept beyond what is free, and in whole quantity steps the goods are counted exactly.
-/
import Celerp.Sales.Claims
import Mathlib.Data.List.Forall2

namespace Celerp

open Rounding Tally

/-! ## Quantity steps -/

/-- The step quantities are kept in. -/
def QTY_STEP : ℚ := 1 / 10 ^ 6

/-- A quantity in whole steps. -/
def InSteps (q : ℚ) : Prop := IsMultiple QTY_STEP q

section
variable {q r : ℚ}

theorem inSteps_zero : InSteps 0 := isMultiple_zero _

theorem InSteps.add (hq : InSteps q) (hr : InSteps r) : InSteps (q + r) := IsMultiple.add hq hr

theorem InSteps.sub (hq : InSteps q) (hr : InSteps r) : InSteps (q - r) := IsMultiple.sub hq hr

theorem InSteps.min (hq : InSteps q) (hr : InSteps r) : InSteps (min q r) := by
  rcases min_choice q r with h | h <;> rw [h]
  · exact hq
  · exact hr

theorem InSteps.max (hq : InSteps q) (hr : InSteps r) : InSteps (max q r) := by
  rcases max_choice q r with h | h <;> rw [h]
  · exact hq
  · exact hr

theorem InSteps.sum {l : List ℚ} (h : ∀ q ∈ l, InSteps q) : InSteps l.sum := IsMultiple.sum h

/-- No step is lost to the tolerance. -/
theorem InSteps.eps_lt_iff (hq : InSteps q) : EPS < q ↔ 0 < q := by
  obtain ⟨n, rfl⟩ := hq
  constructor
  · intro h
    exact EPS_pos.trans h
  · intro h
    have hn : (0 : ℚ) < n := pos_of_mul_pos_left h (by norm_num [QTY_STEP])
    have hone : (1 : ℚ) ≤ n := by exact_mod_cast (by exact_mod_cast hn : 0 < n)
    calc EPS < QTY_STEP := by norm_num [EPS, QTY_STEP]
      _ ≤ n * QTY_STEP := le_mul_of_one_le_left (by norm_num [QTY_STEP]) hone

end

/-! ## Allocations -/

/-- What lots come to. -/
def lotsQty (lots : List AllocatedLot) : ℚ := (lots.map (·.qty)).sum

/-- Lots with some of their quantity left. -/
def dropEmpty (lots : List AllocatedLot) : List AllocatedLot := lots.filter fun lot => EPS < lot.qty

/-- An allocation of unit costs, quantities and an amount of at least nothing. -/
structure Allocation.Sound (a : Allocation) : Prop where
  lots : ∀ lot ∈ a.lots, 0 ≤ lot.qty ∧ 0 ≤ lot.unitCost
  provisional : 0 ≤ a.provisionalQty
  amount : 0 ≤ a.amount

/-- An allocation of quantities in whole steps. -/
structure Allocation.Stepped (a : Allocation) : Prop where
  lots : ∀ lot ∈ a.lots, InSteps lot.qty
  provisional : InSteps a.provisionalQty

/-! ## Cost moves -/

/-- A cost move: the goods another invoice shipped and took the cost of. -/
structure CostMove where
  line : ℕ
  lotId : String
  qty : ℚ
  amount : ℚ
  deriving DecidableEq, Repr

/-- The lots less what a move takes of one, and what of the move is left. -/
def takeMoved (lotId : String) : ℚ → List AllocatedLot → List AllocatedLot × ℚ
  | left, [] => ([], left)
  | left, lot :: lots =>
    if lot.lotEntityId = lotId ∧ EPS < left then
      let take := min lot.qty left
      let rest := takeMoved lotId (left - take) lots
      ({ lot with qty := lot.qty - take } :: rest.1, rest.2)
    else
      let rest := takeMoved lotId left lots
      (lot :: rest.1, rest.2)

/-- A line's allocation less one move: what leaves its lots becomes provisional. -/
def Allocation.lessMove (a : Allocation) (m : CostMove) : Allocation :=
  let taken := takeMoved m.lotId m.qty a.lots
  { lots := dropEmpty taken.1
    provisionalQty := a.provisionalQty + m.qty - taken.2
    amount := max 0 (a.amount - m.amount) }

/-- One move of `_less_moved`: a line the snapshot does not hold is left out. -/
def moveLine (m : CostMove) (p : ℕ × Allocation) : ℕ × Allocation :=
  if p.1 = m.line then (p.1, p.2.lessMove m) else p

/-- `_less_moved` -/
def lessMoved (allocations : List (ℕ × Allocation)) (moves : List CostMove) : List (ℕ × Allocation) :=
  moves.foldl (fun out m => out.map (moveLine m)) allocations

/-! ## Credit notes -/

/-- The lots, taken from the last, less what is credited of them, and the cost they give up. -/
def cutCredited : ℚ → List AllocatedLot → List AllocatedLot × ℚ
  | _, [] => ([], 0)
  | left, lot :: lots =>
    let take := min lot.qty left
    if take ≤ EPS then
      let rest := cutCredited left lots
      (lot :: rest.1, rest.2)
    else
      let rest := cutCredited (left - take) lots
      ({ lot with qty := lot.qty - take } :: rest.1, take * lot.unitCost + rest.2)

/-- What lots cost together. -/
def lotsCost (lots : List AllocatedLot) : ℚ := (lots.map fun lot => lot.qty * lot.unitCost).sum

/-- A line's allocation less a credited quantity: what no lot covers first, then its lots
    from the last, and of its amount the credited lots' share. -/
def Allocation.lessCredit (a : Allocation) (qty : ℚ) : Allocation :=
  let cut := min a.provisionalQty qty
  let total := lotsCost a.lots
  let out := cutCredited (qty - cut) a.lots.reverse
  { lots := dropEmpty out.1.reverse
    provisionalQty := a.provisionalQty - cut
    amount := if 0 < total then max 0 (a.amount - a.amount * out.2 / total) else a.amount }

/-- `_less_credited` -/
def lessCredited (allocations : List (ℕ × Allocation)) (credited : List (ℕ × ℚ)) : List (ℕ × Allocation) :=
  allocations.map fun p => (credited.lookup p.1).elim p fun qty => (p.1, p.2.lessCredit qty)

/-! ## Restored invoices -/

/-- The quantity a lot has on hand, if it holds goods in stock. -/
def onHandQty (items : Items) (lot : String) : Option ℚ :=
  (items.get? lot).bind fun row => if (ClaimBooks.onHandValue row).isSome then some row.state.quantity else none

/-- What a lot has free of what is claimed. -/
def freeOf (items : Items) (claimed : List (String × ℚ)) (lot : String) : ℚ :=
  (onHandQty items lot).elim 0 fun qty => max 0 (qty - total lot claimed)

/-- What each lot of a line keeps, around one tally of what is claimed. -/
def keepFree (items : Items) : List (String × ℚ) → List AllocatedLot → List (AllocatedLot × ℚ)
  | _, [] => []
  | claimed, lot :: lots =>
    let keep := min lot.qty (freeOf items claimed lot.lotEntityId)
    (lot, keep) :: keepFree items (claimed ++ [(lot.lotEntityId, keep)]) lots

/-- What is kept of each lot. -/
def keptOf (kept : List (AllocatedLot × ℚ)) : List (String × ℚ) := kept.map fun p => (p.1.lotEntityId, p.2)

/-- The lots of which something is kept. -/
def heldLots (kept : List (AllocatedLot × ℚ)) : List AllocatedLot :=
  (kept.filter fun p => EPS < p.2).map fun p => { p.1 with qty := p.2 }

/-- A line's allocation holding what its lots keep: the rest becomes provisional, and the
    amount keeps the cost of what is held. -/
def Allocation.holding (a : Allocation) (kept : List (AllocatedLot × ℚ)) : Allocation :=
  let cut := (kept.map fun p => p.1.qty - p.2).sum
  let cost := (kept.map fun p => p.1.qty * p.1.unitCost).sum
  let keptCost := (kept.map fun p => p.2 * p.1.unitCost).sum
  { lots := heldLots kept
    provisionalQty := a.provisionalQty + cut
    amount := if EPS < cut ∧ cost ≠ 0 then a.amount * keptCost / cost else if cut = 0 then a.amount else 0 }

/-- The lines in turn. -/
def freeLines (items : Items) : List (String × ℚ) → List (ℕ × Allocation) → List (ℕ × Allocation)
  | _, [] => []
  | claimed, p :: rest =>
    let kept := keepFree items claimed p.2.lots
    (p.1, p.2.holding kept) :: freeLines items (claimed ++ keptOf kept) rest

/-- The lines of a snapshot in document order. -/
def inOrder (allocations : List (ℕ × Allocation)) : List (ℕ × Allocation) :=
  allocations.insertionSort fun p q => p.1 ≤ q.1

/-- `_free_goods_only`, among the claims of other open invoices. -/
def freeGoodsOnly (items : Items) (claims : List (String × ℚ)) (allocations : List (ℕ × Allocation)) :
    List (ℕ × Allocation) :=
  freeLines items claims (inOrder allocations)

/-! ## Lots -/

section
variable {lots : List AllocatedLot} {lot : AllocatedLot} {left : ℚ} {lotId : String}

@[simp] theorem lotsQty_nil : lotsQty [] = 0 := rfl

@[simp] theorem lotsQty_cons : lotsQty (lot :: lots) = lot.qty + lotsQty lots := by simp [lotsQty]

@[simp] theorem lotsQty_append (more : List AllocatedLot) : lotsQty (lots ++ more) = lotsQty lots + lotsQty more := by
  simp [lotsQty]

@[simp] theorem lotsQty_reverse : lotsQty lots.reverse = lotsQty lots := by
  rw [lotsQty, List.map_reverse, List.sum_reverse, lotsQty]

theorem quantity_eq (a : Allocation) : a.quantity = lotsQty a.lots + a.provisionalQty := rfl

theorem lotsQty_nonneg (h : ∀ lot ∈ lots, 0 ≤ lot.qty) : 0 ≤ lotsQty lots := by
  refine List.sum_nonneg fun v hv => ?_
  obtain ⟨lot, hlot, rfl⟩ := List.mem_map.1 hv
  exact h lot hlot

/-- In whole steps only lots that hold nothing are dropped. -/
theorem lotsQty_dropEmpty (hnn : ∀ lot ∈ lots, 0 ≤ lot.qty) (hsteps : ∀ lot ∈ lots, InSteps lot.qty) :
    lotsQty (dropEmpty lots) = lotsQty lots := by
  induction lots with
  | nil => rfl
  | cons lot lots ih =>
    rw [List.forall_mem_cons] at hnn hsteps
    have hrest : lotsQty (List.filter (fun lot => EPS < lot.qty) lots) = lotsQty lots := ih hnn.2 hsteps.2
    by_cases hpos : EPS < lot.qty
    · rw [dropEmpty, List.filter_cons_of_pos (by simpa using hpos), lotsQty_cons, hrest, lotsQty_cons]
    · have hzero : lot.qty = 0 := le_antisymm (not_lt.1 (mt hsteps.1.eps_lt_iff.2 hpos)) hnn.1
      rw [dropEmpty, List.filter_cons_of_neg (by simpa using hpos), hrest, lotsQty_cons, hzero, zero_add]

theorem inSteps_lotsQty (hsteps : ∀ lot ∈ lots, InSteps lot.qty) : InSteps (lotsQty lots) := by
  refine InSteps.sum fun q hq => ?_
  obtain ⟨lot, hlot, rfl⟩ := List.mem_map.1 hq
  exact hsteps lot hlot

theorem mem_of_mem_dropEmpty (h : lot ∈ dropEmpty lots) : lot ∈ lots := (List.mem_filter.1 h).1

end

/-! ## What a move takes -/

section
variable {lots : List AllocatedLot} {left : ℚ} {lotId : String}

theorem takeMoved_sum (lotId : String) (left : ℚ) (lots : List AllocatedLot) :
    lotsQty (takeMoved lotId left lots).1 + left = lotsQty lots + (takeMoved lotId left lots).2 := by
  induction lots generalizing left with
  | nil => rfl
  | cons lot lots ih =>
    unfold takeMoved
    dsimp only
    split_ifs
    · have hrest := ih (left - min lot.qty left)
      rw [lotsQty_cons, lotsQty_cons]
      linarith
    · have hrest := ih left
      rw [lotsQty_cons, lotsQty_cons]
      linarith

theorem takeMoved_sound (left : ℚ) (h : ∀ lot ∈ lots, 0 ≤ lot.qty ∧ 0 ≤ lot.unitCost) :
    (∀ lot ∈ (takeMoved lotId left lots).1, 0 ≤ lot.qty ∧ 0 ≤ lot.unitCost) ∧
      (takeMoved lotId left lots).2 ≤ left := by
  induction lots generalizing left with
  | nil => exact ⟨fun lot hlot => absurd hlot List.not_mem_nil, le_rfl⟩
  | cons lot lots ih =>
    rw [List.forall_mem_cons] at h
    unfold takeMoved
    dsimp only
    split_ifs with htake
    · obtain ⟨hlots, hleft⟩ := ih (left - min lot.qty left) h.2
      have hnn : 0 ≤ min lot.qty left := le_min h.1.1 (EPS_pos.trans htake.2).le
      refine ⟨List.forall_mem_cons.2 ⟨⟨sub_nonneg.2 (min_le_left _ _), h.1.2⟩, hlots⟩, ?_⟩
      linarith
    · obtain ⟨hlots, hleft⟩ := ih left h.2
      exact ⟨List.forall_mem_cons.2 ⟨h.1, hlots⟩, hleft⟩

theorem takeMoved_steps (hleft : InSteps left) (h : ∀ lot ∈ lots, InSteps lot.qty) :
    (∀ lot ∈ (takeMoved lotId left lots).1, InSteps lot.qty) ∧ InSteps (takeMoved lotId left lots).2 := by
  induction lots generalizing left with
  | nil => exact ⟨fun lot hlot => absurd hlot List.not_mem_nil, hleft⟩
  | cons lot lots ih =>
    rw [List.forall_mem_cons] at h
    have htaken : InSteps (min lot.qty left) := h.1.min hleft
    unfold takeMoved
    dsimp only
    split_ifs
    · obtain ⟨hlots, hrest⟩ := ih (hleft.sub htaken) h.2
      exact ⟨List.forall_mem_cons.2 ⟨h.1.sub htaken, hlots⟩, hrest⟩
    · obtain ⟨hlots, hrest⟩ := ih hleft h.2
      exact ⟨List.forall_mem_cons.2 ⟨h.1, hlots⟩, hrest⟩

variable {a : Allocation} {m : CostMove}

theorem Allocation.Sound.lessMove (h : a.Sound) (m : CostMove) : (a.lessMove m).Sound where
  lots lot hlot := (takeMoved_sound m.qty h.lots).1 lot (mem_of_mem_dropEmpty hlot)
  provisional := by
    have hleft : (takeMoved m.lotId m.qty a.lots).2 ≤ m.qty := (takeMoved_sound m.qty h.lots).2
    have hnn := h.provisional
    show 0 ≤ a.provisionalQty + m.qty - (takeMoved m.lotId m.qty a.lots).2
    linarith
  amount := le_max_left _ _

theorem Allocation.Stepped.lessMove (h : a.Stepped) (hm : InSteps m.qty) : (a.lessMove m).Stepped where
  lots lot hlot := (takeMoved_steps hm h.lots).1 lot (mem_of_mem_dropEmpty hlot)
  provisional := (h.provisional.add hm).sub (takeMoved_steps hm h.lots).2

/-- In whole steps, what leaves the lots is what becomes provisional. -/
theorem quantity_lessMove (h : a.Sound) (hsteps : a.Stepped) (hm : InSteps m.qty) :
    (a.lessMove m).quantity = a.quantity := by
  have hnn : ∀ lot ∈ (takeMoved m.lotId m.qty a.lots).1, 0 ≤ lot.qty :=
    fun lot hlot => ((takeMoved_sound m.qty h.lots).1 lot hlot).1
  have hsum := takeMoved_sum m.lotId m.qty a.lots
  rw [quantity_eq, quantity_eq]
  show lotsQty (dropEmpty (takeMoved m.lotId m.qty a.lots).1) +
    (a.provisionalQty + m.qty - (takeMoved m.lotId m.qty a.lots).2) = lotsQty a.lots + a.provisionalQty
  rw [lotsQty_dropEmpty hnn (takeMoved_steps hm hsteps.lots).1]
  linarith

end

/-! ## What a credit note takes -/

/-- The first `r` units of the lots. -/
def keepFirst : ℚ → List AllocatedLot → List AllocatedLot
  | _, [] => []
  | r, lot :: lots => { lot with qty := min lot.qty r } :: keepFirst (r - min lot.qty r) lots

section
variable {lots back : List AllocatedLot} {lot : AllocatedLot} {left r : ℚ}

theorem lotsQty_keepFirst (hr : 0 ≤ r) (hnn : ∀ lot ∈ lots, 0 ≤ lot.qty) :
    lotsQty (keepFirst r lots) = min r (lotsQty lots) := by
  induction lots generalizing r with
  | nil => simp [keepFirst, hr]
  | cons lot lots ih =>
    rw [List.forall_mem_cons] at hnn
    have hrest := lotsQty_nonneg hnn.2
    rw [keepFirst, lotsQty_cons, lotsQty_cons, ih (sub_nonneg.2 (min_le_right _ _)) hnn.2]
    dsimp only
    rcases le_total lot.qty r with hle | hle
    · rw [min_eq_left hle, ← min_add_add_left, add_sub_cancel]
    · rw [min_eq_right hle, sub_self, min_eq_left hrest, add_zero, min_eq_left (by linarith)]

theorem keepFirst_sound (hr : 0 ≤ r) (h : ∀ lot ∈ lots, 0 ≤ lot.qty ∧ 0 ≤ lot.unitCost) :
    ∀ lot ∈ keepFirst r lots, 0 ≤ lot.qty ∧ 0 ≤ lot.unitCost := by
  induction lots generalizing r with
  | nil => exact fun lot hlot => absurd hlot List.not_mem_nil
  | cons lot lots ih =>
    rw [List.forall_mem_cons] at h
    exact List.forall_mem_cons.2 ⟨⟨le_min h.1.1 hr, h.1.2⟩, ih (sub_nonneg.2 (min_le_right _ _)) h.2⟩

theorem keepFirst_steps (hr : InSteps r) (h : ∀ lot ∈ lots, InSteps lot.qty) :
    ∀ lot ∈ keepFirst r lots, InSteps lot.qty := by
  induction lots generalizing r with
  | nil => exact fun lot hlot => absurd hlot List.not_mem_nil
  | cons lot lots ih =>
    rw [List.forall_mem_cons] at h
    exact List.forall_mem_cons.2 ⟨h.1.min hr, ih (hr.sub (h.1.min hr)) h.2⟩

/-- In whole steps a lot gives up what is still credited of it, the tolerance or not. -/
theorem cutCredited_cons (hlot : 0 ≤ lot.qty) (hleft : 0 ≤ left) (hlots : InSteps lot.qty) (hsteps : InSteps left) :
    (cutCredited left (lot :: lots)).1 =
      { lot with qty := lot.qty - min lot.qty left } :: (cutCredited (left - min lot.qty left) lots).1 := by
  rw [cutCredited]
  dsimp only
  split_ifs with hnone
  · have hpos : ¬ 0 < min lot.qty left := mt (hlots.min hsteps).eps_lt_iff.2 (not_lt.2 hnone)
    have hzero : min lot.qty left = 0 := le_antisymm (not_lt.1 hpos) (le_min hlot hleft)
    rw [hzero, sub_zero, sub_zero]
  · rfl

/-- The lots after the first take what those before them leave. -/
theorem cutCredited_append (hleft : 0 ≤ left) (hsteps : InSteps left) (hnn : ∀ lot ∈ lots, 0 ≤ lot.qty)
    (hlots : ∀ lot ∈ lots, InSteps lot.qty) (back : List AllocatedLot) :
    (cutCredited left (lots ++ back)).1 =
      (cutCredited left lots).1 ++ (cutCredited (max 0 (left - lotsQty lots)) back).1 := by
  induction lots generalizing left with
  | nil => simp [cutCredited, hleft]
  | cons lot lots ih =>
    rw [List.forall_mem_cons] at hnn hlots
    have hrest : 0 ≤ left - min lot.qty left := sub_nonneg.2 (min_le_right _ _)
    have hlotsQty := lotsQty_nonneg hnn.2
    have hmax : max 0 (left - min lot.qty left - lotsQty lots) = max 0 (left - lotsQty (lot :: lots)) := by
      rw [lotsQty_cons]
      rcases le_total lot.qty left with hle | hle
      · rw [min_eq_left hle, sub_sub]
      · rw [min_eq_right hle, sub_self, max_eq_left (by linarith), max_eq_left (by linarith)]
    rw [List.cons_append, cutCredited_cons hnn.1 hleft hlots.1 hsteps, cutCredited_cons hnn.1 hleft hlots.1 hsteps,
      ih hrest (hsteps.sub (hlots.1.min hsteps)) hnn.2 hlots.2, hmax, List.cons_append]

/-- **What is credited leaves the lots from the last**: the line keeps its first units. -/
theorem cutCredited_reverse (hleft : 0 ≤ left) (hsteps : InSteps left) (hnn : ∀ lot ∈ lots, 0 ≤ lot.qty)
    (hlots : ∀ lot ∈ lots, InSteps lot.qty) :
    (cutCredited left lots.reverse).1.reverse = keepFirst (max 0 (lotsQty lots - left)) lots := by
  induction lots with
  | nil => rfl
  | cons lot lots ih =>
    rw [List.forall_mem_cons] at hnn hlots
    have hmax : InSteps (max 0 (left - lotsQty lots)) :=
      inSteps_zero.max (hsteps.sub (inSteps_lotsQty hlots.2))
    have hrev : ∀ l ∈ lots.reverse, 0 ≤ l.qty := fun l hl => hnn.2 l (List.mem_reverse.1 hl)
    have hrev' : ∀ l ∈ lots.reverse, InSteps l.qty := fun l hl => hlots.2 l (List.mem_reverse.1 hl)
    rw [List.reverse_cons, cutCredited_append hleft hsteps hrev hrev', lotsQty_reverse,
      cutCredited_cons hnn.1 (le_max_left _ _) hlots.1 hmax, cutCredited, List.reverse_append, ih hnn.2 hlots.2,
      List.reverse_singleton, List.singleton_append, keepFirst, lotsQty_cons]
    -- what the lot keeps, and what is kept of those after it
    have hkept : lot.qty - min lot.qty (max 0 (left - lotsQty lots)) =
        min lot.qty (max 0 (lot.qty + lotsQty lots - left)) := by
      rcases le_total left (lotsQty lots) with hle | hle
      · rw [max_eq_left (by linarith), min_eq_right hnn.1, sub_zero, max_eq_right (by linarith [hnn.1]),
          min_eq_left (by linarith)]
      · rw [max_eq_right (sub_nonneg.2 hle)]
        rcases le_total lot.qty (left - lotsQty lots) with hall | hall
        · rw [min_eq_left hall, sub_self, max_eq_left (by linarith), min_eq_right hnn.1]
        · rw [min_eq_right hall, max_eq_right (by linarith), min_eq_right (by linarith)]
          ring
    have hafter : max 0 (lotsQty lots - left) =
        max 0 (lot.qty + lotsQty lots - left) - min lot.qty (max 0 (lot.qty + lotsQty lots - left)) := by
      rcases le_total left (lotsQty lots) with hle | hle
      · rw [max_eq_right (sub_nonneg.2 hle), max_eq_right (by linarith [hnn.1]), min_eq_left (by linarith)]
        ring
      · rw [max_eq_left (by linarith)]
        rcases le_total (lot.qty + lotsQty lots) left with hall | hall
        · rw [max_eq_left (by linarith), min_eq_right hnn.1, sub_self]
        · rw [max_eq_right (by linarith), min_eq_right (by linarith), sub_self]
    rw [hkept, hafter]

/-- The cost given up lies between nothing and what the lots cost. -/
theorem cutCredited_cost (left : ℚ) (hsound : ∀ lot ∈ lots, 0 ≤ lot.qty ∧ 0 ≤ lot.unitCost) :
    0 ≤ (cutCredited left lots).2 ∧ (cutCredited left lots).2 ≤ lotsCost lots := by
  induction lots generalizing left with
  | nil => exact ⟨le_rfl, le_rfl⟩
  | cons lot lots ih =>
    rw [List.forall_mem_cons] at hsound
    have hcost : lotsCost (lot :: lots) = lot.qty * lot.unitCost + lotsCost lots := by simp [lotsCost]
    have hlot := mul_nonneg hsound.1.1 hsound.1.2
    rw [cutCredited, hcost]
    dsimp only
    split_ifs with hnone
    · obtain ⟨hnn, hle⟩ := ih left hsound.2
      exact ⟨hnn, by linarith⟩
    · obtain ⟨hnn, hle⟩ := ih (left - min lot.qty left) hsound.2
      have htake : 0 ≤ min lot.qty left := (EPS_pos.trans (not_le.1 hnone)).le
      have htake_cost := mul_nonneg htake hsound.1.2
      have hwithin : min lot.qty left * lot.unitCost ≤ lot.qty * lot.unitCost :=
        mul_le_mul_of_nonneg_right (min_le_left _ _) hsound.1.2
      exact ⟨by linarith, by linarith⟩

end

section
variable {a : Allocation} {qty : ℚ}

/-- A credited line's amount does not rise, nor fall below nothing. -/
theorem amount_lessCredit (h : a.Sound) (qty : ℚ) :
    0 ≤ (a.lessCredit qty).amount ∧ (a.lessCredit qty).amount ≤ a.amount := by
  have hamount := h.amount
  have hlots : ∀ lot ∈ a.lots.reverse, 0 ≤ lot.qty ∧ 0 ≤ lot.unitCost :=
    fun lot hlot => h.lots lot (List.mem_reverse.1 hlot)
  obtain ⟨hnn, -⟩ := cutCredited_cost (qty - min a.provisionalQty qty) hlots
  unfold Allocation.lessCredit
  dsimp only
  split_ifs with htotal
  · have hshare : 0 ≤ a.amount * (cutCredited (qty - min a.provisionalQty qty) a.lots.reverse).2 / lotsCost a.lots :=
      div_nonneg (mul_nonneg hamount hnn) htotal.le
    exact ⟨le_max_left _ _, max_le hamount (by linarith)⟩
  · exact ⟨hamount, le_rfl⟩

/-- A credited line in whole steps: what no lot covers goes first, then the lots from the
    last. -/
theorem lessCredit_spec (h : a.Sound) (hsteps : a.Stepped) (hqty : InSteps qty) :
    (a.lessCredit qty).provisionalQty = a.provisionalQty - min a.provisionalQty qty ∧
      (a.lessCredit qty).lots =
        dropEmpty (keepFirst (max 0 (lotsQty a.lots - max 0 (qty - a.provisionalQty))) a.lots) := by
  have hleft : qty - min a.provisionalQty qty = max 0 (qty - a.provisionalQty) := by
    rcases le_total a.provisionalQty qty with hle | hle
    · rw [min_eq_left hle, max_eq_right (sub_nonneg.2 hle)]
    · rw [min_eq_right hle, max_eq_left (sub_nonpos.2 hle), sub_self]
  have hnn : 0 ≤ max 0 (qty - a.provisionalQty) := le_max_left _ _
  have hleft_steps : InSteps (max 0 (qty - a.provisionalQty)) := inSteps_zero.max (hqty.sub hsteps.provisional)
  refine ⟨rfl, ?_⟩
  show dropEmpty (cutCredited (qty - min a.provisionalQty qty) a.lots.reverse).1.reverse = _
  rw [hleft, cutCredited_reverse hnn hleft_steps (fun lot hlot => (h.lots lot hlot).1) hsteps.lots]

theorem inSteps_kept (hsteps : a.Stepped) (hqty : InSteps qty) :
    InSteps (max 0 (lotsQty a.lots - max 0 (qty - a.provisionalQty))) :=
  inSteps_zero.max ((inSteps_lotsQty hsteps.lots).sub (inSteps_zero.max (hqty.sub hsteps.provisional)))

theorem sound_lessCredit (h : a.Sound) (hsteps : a.Stepped) (hqty : InSteps qty) :
    (a.lessCredit qty).Sound ∧ (a.lessCredit qty).Stepped := by
  obtain ⟨hprovisional, hlots⟩ := lessCredit_spec h hsteps hqty
  have hkept := inSteps_kept hsteps hqty
  constructor
  · refine ⟨fun lot hlot => ?_, ?_, (amount_lessCredit h qty).1⟩
    · rw [hlots] at hlot
      exact keepFirst_sound (le_max_left _ _) h.lots lot (mem_of_mem_dropEmpty hlot)
    · rw [hprovisional]
      exact sub_nonneg.2 (min_le_left _ _)
  · refine ⟨fun lot hlot => ?_, ?_⟩
    · rw [hlots] at hlot
      exact keepFirst_steps hkept hsteps.lots lot (mem_of_mem_dropEmpty hlot)
    · rw [hprovisional]
      exact hsteps.provisional.sub (hsteps.provisional.min hqty)

theorem quantity_lessCredit (h : a.Sound) (hsteps : a.Stepped) (hqty : InSteps qty) :
    (a.lessCredit qty).quantity = a.quantity - min qty a.quantity := by
  obtain ⟨hprovisional, hlots⟩ := lessCredit_spec h hsteps hqty
  have hnn : ∀ lot ∈ a.lots, 0 ≤ lot.qty := fun lot hlot => (h.lots lot hlot).1
  have htotal := lotsQty_nonneg hnn
  have hkept_steps := inSteps_kept hsteps hqty
  have hkept_nn := fun lot hlot => (keepFirst_sound (le_max_left 0 (lotsQty a.lots - max 0 (qty - a.provisionalQty)))
    h.lots lot hlot).1
  rw [quantity_eq, quantity_eq, hprovisional, hlots, lotsQty_dropEmpty hkept_nn (keepFirst_steps hkept_steps hsteps.lots),
    lotsQty_keepFirst (le_max_left _ _) hnn]
  have hprov := h.provisional
  rcases le_total qty a.provisionalQty with hle | hle
  · rw [max_eq_left (sub_nonpos.2 hle), sub_zero, max_eq_right htotal, min_self, min_eq_right hle,
      min_eq_left (by linarith)]
    ring
  · rw [max_eq_right (sub_nonneg.2 hle), min_eq_left hle]
    rcases le_total (qty - a.provisionalQty) (lotsQty a.lots) with hsome | hall
    · rw [max_eq_right (sub_nonneg.2 hsome), min_eq_left (by linarith), min_eq_left (by linarith)]
      ring
    · rw [max_eq_left (sub_nonpos.2 hall), min_eq_left htotal, min_eq_right (by linarith)]
      ring

end

/-! ## What a restored invoice keeps -/

section
variable {items : Items} {claimed : List (String × ℚ)} {lots : List AllocatedLot} {id : String}

theorem freeOf_nonneg (items : Items) (claimed : List (String × ℚ)) (id : String) : 0 ≤ freeOf items claimed id := by
  unfold freeOf
  cases onHandQty items id with
  | none => exact le_rfl
  | some qty => exact le_max_left _ _

/-- What is claimed of a lot, up to what it has free, comes off that. -/
theorem freeOf_append {more : List (String × ℚ)} (hnn : 0 ≤ total id more)
    (hle : total id more ≤ freeOf items claimed id) :
    freeOf items (claimed ++ more) id = freeOf items claimed id - total id more := by
  unfold freeOf at hle ⊢
  cases hqty : onHandQty items id with
  | none =>
    rw [hqty, Option.elim_none] at hle
    rw [Option.elim_none, Option.elim_none, le_antisymm hle hnn, sub_zero]
  | some qty =>
    rw [hqty, Option.elim_some] at hle
    rw [Option.elim_some, Option.elim_some, total_append]
    rcases le_total 0 (qty - total id claimed) with hfree | hnone
    · rw [max_eq_right hfree] at hle ⊢
      rw [max_eq_right (by linarith)]
      ring
    · rw [max_eq_left hnone] at hle ⊢
      rw [max_eq_left (by linarith), le_antisymm hle hnn, sub_zero]

theorem map_fst_keepFree (items : Items) (claimed : List (String × ℚ)) (lots : List AllocatedLot) :
    (keepFree items claimed lots).map Prod.fst = lots := by
  induction lots generalizing claimed with
  | nil => rfl
  | cons lot lots ih => rw [keepFree, List.map_cons, ih]

/-- A lot keeps no more than it was allocated. -/
theorem keepFree_bounds (hnn : ∀ lot ∈ lots, 0 ≤ lot.qty) :
    ∀ p ∈ keepFree items claimed lots, 0 ≤ p.2 ∧ p.2 ≤ p.1.qty := by
  induction lots generalizing claimed with
  | nil => exact fun p hp => absurd hp List.not_mem_nil
  | cons lot lots ih =>
    rw [List.forall_mem_cons] at hnn
    exact List.forall_mem_cons.2 ⟨⟨le_min hnn.1 (freeOf_nonneg _ _ _), min_le_left _ _⟩, ih hnn.2⟩

theorem keptOf_nonneg (hnn : ∀ lot ∈ lots, 0 ≤ lot.qty) : 0 ≤ total id (keptOf (keepFree items claimed lots)) := by
  refine total_nonneg fun t ht => ?_
  obtain ⟨p, hp, rfl⟩ := List.mem_map.1 ht
  exact (keepFree_bounds hnn p hp).1

/-- **A line keeps of each lot at most what it has free.** -/
theorem keptOf_le (claimed : List (String × ℚ)) (hnn : ∀ lot ∈ lots, 0 ≤ lot.qty) :
    total id (keptOf (keepFree items claimed lots)) ≤ freeOf items claimed id := by
  induction lots generalizing claimed with
  | nil => exact freeOf_nonneg items claimed id
  | cons lot lots ih =>
    rw [List.forall_mem_cons] at hnn
    have hkeep : 0 ≤ min lot.qty (freeOf items claimed lot.lotEntityId) := le_min hnn.1 (freeOf_nonneg _ _ _)
    have hone : total id [(lot.lotEntityId, min lot.qty (freeOf items claimed lot.lotEntityId))] =
        if lot.lotEntityId = id then min lot.qty (freeOf items claimed lot.lotEntityId) else 0 := by
      simp
    have hone_nn : 0 ≤ total id [(lot.lotEntityId, min lot.qty (freeOf items claimed lot.lotEntityId))] := by
      rw [hone]
      split_ifs
      · exact hkeep
      · exact le_rfl
    have hone_le : total id [(lot.lotEntityId, min lot.qty (freeOf items claimed lot.lotEntityId))] ≤
        freeOf items claimed id := by
      rw [hone]
      split_ifs with hid
      · exact hid ▸ min_le_right _ _
      · exact freeOf_nonneg _ _ _
    have hrest := ih (claimed ++ [(lot.lotEntityId, min lot.qty (freeOf items claimed lot.lotEntityId))]) hnn.2
    rw [freeOf_append hone_nn hone_le] at hrest
    show total id ((lot.lotEntityId, min lot.qty (freeOf items claimed lot.lotEntityId)) :: keptOf
      (keepFree items (claimed ++ [(lot.lotEntityId, min lot.qty (freeOf items claimed lot.lotEntityId))]) lots)) ≤ _
    rw [total_cons, ← hone]
    linarith

theorem keepFree_steps (hlots : ∀ lot ∈ lots, InSteps lot.qty) (hhand : ∀ id qty, onHandQty items id = some qty → InSteps qty)
    (hclaimed : ∀ t ∈ claimed, InSteps t.2) : ∀ p ∈ keepFree items claimed lots, InSteps p.2 := by
  induction lots generalizing claimed with
  | nil => exact fun p hp => absurd hp List.not_mem_nil
  | cons lot lots ih =>
    rw [List.forall_mem_cons] at hlots
    have hfree : InSteps (freeOf items claimed lot.lotEntityId) := by
      unfold freeOf
      cases hqty : onHandQty items lot.lotEntityId with
      | none => exact inSteps_zero
      | some qty =>
        refine inSteps_zero.max ((hhand _ _ hqty).sub (InSteps.sum fun q hq => ?_))
        obtain ⟨t, ht, rfl⟩ := List.mem_map.1 hq
        split_ifs
        · exact hclaimed t ht
        · exact inSteps_zero
    have hkeep := hlots.1.min hfree
    refine List.forall_mem_cons.2 ⟨hkeep, ih hlots.2 fun t ht => ?_⟩
    rcases List.mem_append.1 ht with ht | ht
    · exact hclaimed t ht
    · rw [List.mem_singleton.1 ht]
      exact hkeep

end

section
variable {a : Allocation} {kept : List (AllocatedLot × ℚ)} {id : String}

theorem heldLots_cons_of_pos {p : AllocatedLot × ℚ} (hpos : EPS < p.2) :
    heldLots (p :: kept) = { p.1 with qty := p.2 } :: heldLots kept := by
  rw [heldLots, List.filter_cons_of_pos (by simpa using hpos), List.map_cons, heldLots]

theorem heldLots_cons_of_le {p : AllocatedLot × ℚ} (hle : p.2 ≤ EPS) : heldLots (p :: kept) = heldLots kept := by
  rw [heldLots, List.filter_cons_of_neg (by simpa using hle), heldLots]

/-- In whole steps, what is held and what is not come to the lots. -/
theorem lotsQty_heldLots (h : ∀ p ∈ kept, 0 ≤ p.2 ∧ InSteps p.2) :
    lotsQty (heldLots kept) + (kept.map fun p => p.1.qty - p.2).sum = lotsQty (kept.map Prod.fst) := by
  induction kept with
  | nil => simp [heldLots]
  | cons p kept ih =>
    rw [List.forall_mem_cons] at h
    have hrest := ih h.2
    rw [List.map_cons, List.map_cons, List.sum_cons, lotsQty_cons]
    rcases lt_or_ge EPS p.2 with hpos | hle
    · rw [heldLots_cons_of_pos hpos, lotsQty_cons]
      dsimp only
      linarith
    · have hzero : p.2 = 0 := le_antisymm (not_lt.1 (mt h.1.2.eps_lt_iff.2 (not_lt.2 hle))) h.1.1
      rw [heldLots_cons_of_le hle]
      linarith

theorem total_heldLots_le (h : ∀ p ∈ kept, 0 ≤ p.2) :
    total id ((heldLots kept).map fun lot => (lot.lotEntityId, lot.qty)) ≤ total id (keptOf kept) := by
  induction kept with
  | nil => exact le_rfl
  | cons p kept ih =>
    rw [List.forall_mem_cons] at h
    have hrest := ih h.2
    have hcons : total id (keptOf (p :: kept)) =
        (if p.1.lotEntityId = id then p.2 else 0) + total id (keptOf kept) := total_cons
    rw [hcons]
    rcases lt_or_ge EPS p.2 with hpos | hle
    · rw [heldLots_cons_of_pos hpos, List.map_cons, total_cons]
      exact add_le_add le_rfl hrest
    · have hnn : 0 ≤ if p.1.lotEntityId = id then p.2 else 0 := by
        split_ifs
        · exact h.1
        · exact le_rfl
      rw [heldLots_cons_of_le hle]
      linarith

/-- What a line keeps of its lots, each within what it was allocated. -/
structure KeptOf (a : Allocation) (kept : List (AllocatedLot × ℚ)) : Prop where
  lots : kept.map Prod.fst = a.lots
  bounds : ∀ p ∈ kept, 0 ≤ p.2 ∧ p.2 ≤ p.1.qty

theorem KeptOf.mem_lots (h : KeptOf a kept) {p : AllocatedLot × ℚ} (hp : p ∈ kept) : p.1 ∈ a.lots :=
  h.lots ▸ List.mem_map_of_mem hp

theorem KeptOf.cut_nonneg (h : KeptOf a kept) : 0 ≤ (kept.map fun p => p.1.qty - p.2).sum := by
  refine List.sum_nonneg fun v hv => ?_
  obtain ⟨p, hp, rfl⟩ := List.mem_map.1 hv
  exact sub_nonneg.2 (h.bounds p hp).2

/-- The amount of a line keeps the cost of what it holds. -/
theorem amount_holding (h : KeptOf a kept) (hsound : a.Sound) :
    0 ≤ (a.holding kept).amount ∧ (a.holding kept).amount ≤ a.amount := by
  have hamount := hsound.amount
  have hcosts : 0 ≤ (kept.map fun p => p.2 * p.1.unitCost).sum ∧
      (kept.map fun p => p.2 * p.1.unitCost).sum ≤ (kept.map fun p => p.1.qty * p.1.unitCost).sum := by
    constructor
    · refine List.sum_nonneg fun v hv => ?_
      obtain ⟨p, hp, rfl⟩ := List.mem_map.1 hv
      exact mul_nonneg (h.bounds p hp).1 (hsound.lots _ (h.mem_lots hp)).2
    · refine List.sum_le_sum fun p hp => ?_
      exact mul_le_mul_of_nonneg_right (h.bounds p hp).2 (hsound.lots _ (h.mem_lots hp)).2
  unfold Allocation.holding
  dsimp only
  split_ifs with hcut hnone
  · have hcost := hcosts.1.trans hcosts.2
    have hpos := lt_of_le_of_ne hcost (Ne.symm hcut.2)
    refine ⟨div_nonneg (mul_nonneg hamount hcosts.1) hcost, ?_⟩
    rw [div_le_iff₀ hpos]
    exact mul_le_mul_of_nonneg_left hcosts.2 hamount
  · exact ⟨hamount, le_rfl⟩
  · exact ⟨le_rfl, hamount⟩

theorem sound_holding (h : KeptOf a kept) (hsound : a.Sound) : (a.holding kept).Sound where
  lots lot hlot := by
    obtain ⟨p, hp, rfl⟩ := List.mem_map.1 hlot
    have hmem := (List.mem_filter.1 hp).1
    exact ⟨(h.bounds p hmem).1, (hsound.lots _ (h.mem_lots hmem)).2⟩
  provisional := add_nonneg hsound.provisional h.cut_nonneg
  amount := (amount_holding h hsound).1

theorem stepped_holding (h : KeptOf a kept) (hsteps : a.Stepped) (hkept : ∀ p ∈ kept, InSteps p.2) :
    (a.holding kept).Stepped where
  lots lot hlot := by
    obtain ⟨p, hp, rfl⟩ := List.mem_map.1 hlot
    exact hkept p (List.mem_filter.1 hp).1
  provisional := by
    refine hsteps.provisional.add (InSteps.sum fun q hq => ?_)
    obtain ⟨p, hp, rfl⟩ := List.mem_map.1 hq
    exact (hsteps.lots _ (h.mem_lots hp)).sub (hkept p hp)

/-- In whole steps, what the lots do not keep is what becomes provisional. -/
theorem quantity_holding (h : KeptOf a kept) (hkept : ∀ p ∈ kept, InSteps p.2) :
    (a.holding kept).quantity = a.quantity := by
  have hsum := lotsQty_heldLots fun p hp => ⟨(h.bounds p hp).1, hkept p hp⟩
  rw [h.lots] at hsum
  rw [quantity_eq, quantity_eq, ← hsum]
  show lotsQty (heldLots kept) + (a.provisionalQty + (kept.map fun p => p.1.qty - p.2).sum) = _
  ring

theorem takes_holding_le (h : KeptOf a kept) : total id (a.holding kept).takes ≤ total id (keptOf kept) :=
  total_heldLots_le fun p hp => (h.bounds p hp).1

theorem keptOf_keepFree (items : Items) (claimed : List (String × ℚ)) (hsound : a.Sound) :
    KeptOf a (keepFree items claimed a.lots) where
  lots := map_fst_keepFree items claimed a.lots
  bounds := keepFree_bounds fun lot hlot => (hsound.lots lot hlot).1

end

/-! ## Lines -/

/-- A line rewritten without a change of its quantity, and fit to be rewritten again. -/
structure SameQuantity (p q : ℕ × Allocation) : Prop where
  line : q.1 = p.1
  quantity : q.2.quantity = p.2.quantity
  sound : q.2.Sound
  stepped : q.2.Stepped

/-- A line whose amount did not rise, nor fall below nothing. -/
structure AmountKept (p q : ℕ × Allocation) : Prop where
  line : q.1 = p.1
  nonneg : 0 ≤ q.2.amount
  le : q.2.amount ≤ p.2.amount

/-- A line of a snapshot less what credit notes credited: the uncovered quantity first,
    then the lots from the last. -/
structure CreditedLine (credited : List (ℕ × ℚ)) (p q : ℕ × Allocation) : Prop where
  line : q.1 = p.1
  other : credited.lookup p.1 = none → q.2 = p.2
  quantity : ∀ qty, credited.lookup p.1 = some qty → q.2.quantity = p.2.quantity - min qty p.2.quantity
  provisional : ∀ qty, credited.lookup p.1 = some qty →
    q.2.provisionalQty = p.2.provisionalQty - min p.2.provisionalQty qty
  lots : ∀ qty, credited.lookup p.1 = some qty →
    q.2.lots = dropEmpty (keepFirst (max 0 (lotsQty p.2.lots - max 0 (qty - p.2.provisionalQty))) p.2.lots)
  sound : q.2.Sound
  stepped : q.2.Stepped

/-- A snapshot of allocations of at least nothing. -/
def SoundLines (allocations : List (ℕ × Allocation)) : Prop := ∀ p ∈ allocations, p.2.Sound

/-- A snapshot of allocations in whole quantity steps. -/
def SteppedLines (allocations : List (ℕ × Allocation)) : Prop := ∀ p ∈ allocations, p.2.Stepped

theorem forall₂_map_of {α : Type*} {R : α → α → Prop} {f : α → α} {l : List α} (h : ∀ p ∈ l, R p (f p)) :
    List.Forall₂ R l (l.map f) := by
  rw [List.forall₂_map_right_iff]
  exact List.forall₂_same.2 h

/-! ### Cost moves -/

section
variable {allocations : List (ℕ × Allocation)}

theorem soundLines_move (h : SoundLines allocations) (m : CostMove) : SoundLines (allocations.map (moveLine m)) := by
  intro q hq
  obtain ⟨p, hp, rfl⟩ := List.mem_map.1 hq
  unfold moveLine
  split_ifs
  · exact (h p hp).lessMove m
  · exact h p hp

theorem soundLines_lessMoved (h : SoundLines allocations) (moves : List CostMove) :
    SoundLines (lessMoved allocations moves) := by
  induction moves generalizing allocations with
  | nil => exact h
  | cons m moves ih => exact ih (soundLines_move h m)

theorem sameQuantity_moveLine {p : ℕ × Allocation} {m : CostMove} (h : p.2.Sound) (hsteps : p.2.Stepped)
    (hm : InSteps m.qty) : SameQuantity p (moveLine m p) := by
  unfold moveLine
  split_ifs
  · exact ⟨rfl, quantity_lessMove h hsteps hm, h.lessMove m, hsteps.lessMove hm⟩
  · exact ⟨rfl, rfl, h, hsteps⟩

/-- **Cost moves leave every line its quantity**, one after another. -/
theorem sameQuantity_lessMoved {moves : List CostMove} (hmoves : ∀ m ∈ moves, InSteps m.qty) :
    ∀ {allocations out : List (ℕ × Allocation)}, List.Forall₂ SameQuantity allocations out →
      List.Forall₂ SameQuantity allocations (lessMoved out moves) := by
  induction moves with
  | nil => exact fun h => h
  | cons m moves ih =>
    intro allocations out h
    rw [List.forall_mem_cons] at hmoves
    refine ih hmoves.2 ?_
    rw [List.forall₂_map_right_iff]
    refine h.imp fun p q hpq => ?_
    obtain ⟨hline, hquantity, hsound, hstepped⟩ := sameQuantity_moveLine hpq.sound hpq.stepped hmoves.1
    exact ⟨hline.trans hpq.line, hquantity.trans hpq.quantity, hsound, hstepped⟩

theorem sameQuantity_refl (h : SoundLines allocations) (hsteps : SteppedLines allocations) :
    List.Forall₂ SameQuantity allocations allocations :=
  List.forall₂_same.2 fun p hp => ⟨rfl, rfl, h p hp, hsteps p hp⟩

/-! ### Credit notes -/

theorem amountKept_lessCredited (h : SoundLines allocations) (credited : List (ℕ × ℚ)) :
    List.Forall₂ AmountKept allocations (lessCredited allocations credited) := by
  refine forall₂_map_of fun p hp => ?_
  cases credited.lookup p.1 with
  | none => exact ⟨rfl, (h p hp).amount, le_rfl⟩
  | some qty =>
    obtain ⟨hnn, hle⟩ := amount_lessCredit (h p hp) qty
    exact ⟨rfl, hnn, hle⟩

theorem creditedLine_lessCredited (h : SoundLines allocations) (hsteps : SteppedLines allocations)
    {credited : List (ℕ × ℚ)} (hcredited : ∀ c ∈ credited, InSteps c.2) :
    List.Forall₂ (CreditedLine credited) allocations (lessCredited allocations credited) := by
  refine forall₂_map_of fun p hp => ?_
  cases hlookup : credited.lookup p.1 with
  | none =>
    refine ⟨rfl, fun _ => rfl, ?_, ?_, ?_, h p hp, hsteps p hp⟩
    all_goals
      intro qty hqty
      rw [hlookup] at hqty
      cases hqty
  | some qty =>
    obtain ⟨l₁, l₂, hmem, -⟩ := List.lookup_eq_some_iff.1 hlookup
    have hqty : InSteps qty := hcredited (p.1, qty) (by simp [hmem])
    obtain ⟨hprovisional, hlots⟩ := lessCredit_spec (h p hp) (hsteps p hp) hqty
    obtain ⟨hsound, hstepped⟩ := sound_lessCredit (h p hp) (hsteps p hp) hqty
    refine ⟨rfl, fun hnone => ?_, fun q hq => ?_, fun q hq => ?_, fun q hq => ?_, hsound, hstepped⟩
    · rw [hlookup] at hnone
      cases hnone
    · obtain rfl := Option.some.inj (hlookup.symm.trans hq)
      exact quantity_lessCredit (h p hp) (hsteps p hp) hqty
    · obtain rfl := Option.some.inj (hlookup.symm.trans hq)
      exact hprovisional
    · obtain rfl := Option.some.inj (hlookup.symm.trans hq)
      exact hlots

/-! ### Restored invoices -/

variable {items : Items} {claimed : List (String × ℚ)}

theorem amountKept_freeLines (h : SoundLines allocations) :
    List.Forall₂ AmountKept allocations (freeLines items claimed allocations) := by
  induction allocations generalizing claimed with
  | nil => exact .nil
  | cons p rest ih =>
    have hp := h p List.mem_cons_self
    obtain ⟨hnn, hle⟩ := amount_holding (keptOf_keepFree items claimed hp) hp
    exact .cons ⟨rfl, hnn, hle⟩ (ih fun q hq => h q (List.mem_cons_of_mem _ hq))

theorem sameQuantity_freeLines (h : SoundLines allocations) (hsteps : SteppedLines allocations)
    (hhand : ∀ id qty, onHandQty items id = some qty → InSteps qty) (hclaimed : ∀ t ∈ claimed, InSteps t.2) :
    List.Forall₂ SameQuantity allocations (freeLines items claimed allocations) := by
  induction allocations generalizing claimed with
  | nil => exact .nil
  | cons p rest ih =>
    have hp := h p List.mem_cons_self
    have hp_steps := hsteps p List.mem_cons_self
    have hkept := keptOf_keepFree items claimed hp
    have hkept_steps := keepFree_steps hp_steps.lots hhand hclaimed
    refine .cons ⟨rfl, quantity_holding hkept hkept_steps, sound_holding hkept hp,
      stepped_holding hkept hp_steps hkept_steps⟩ ?_
    refine ih (fun q hq => h q (List.mem_cons_of_mem _ hq)) (fun q hq => hsteps q (List.mem_cons_of_mem _ hq)) ?_
    intro t ht
    rcases List.mem_append.1 ht with ht | ht
    · exact hclaimed t ht
    · obtain ⟨k, hk, rfl⟩ := List.mem_map.1 ht
      exact hkept_steps k hk

/-- **The lines together keep of each lot at most what it has free.** -/
theorem total_freeLines_le (h : SoundLines allocations) (id : String) (claimed : List (String × ℚ)) :
    total id ((freeLines items claimed allocations).flatMap fun p => p.2.takes) ≤ freeOf items claimed id := by
  induction allocations generalizing claimed with
  | nil => exact freeOf_nonneg items claimed id
  | cons p rest ih =>
    have hp := h p List.mem_cons_self
    have hlots : ∀ lot ∈ p.2.lots, 0 ≤ lot.qty := fun lot hlot => (hp.lots lot hlot).1
    have hline : total id (p.2.holding (keepFree items claimed p.2.lots)).takes ≤ _ :=
      takes_holding_le (keptOf_keepFree items claimed hp)
    have hkept : total id (keptOf (keepFree items claimed p.2.lots)) ≤ freeOf items claimed id := keptOf_le claimed hlots
    have hrest := ih (fun q hq => h q (List.mem_cons_of_mem _ hq)) (claimed ++ keptOf (keepFree items claimed p.2.lots))
    rw [freeOf_append (keptOf_nonneg hlots) hkept] at hrest
    rw [freeLines, List.flatMap_cons, total_append]
    linarith

end

/-- What the rewrites of a snapshot keep: cost moves leave no lot below nothing, credit
    notes and a restore raise no amount and leave none below nothing, and a restore keeps
    of no lot more than other open invoices leave free; and in whole quantity steps moves
    and a restore leave each line its quantity, and credit notes take off exactly what they
    credit. -/
structure KeepsCount (allocations : List (ℕ × Allocation)) : Prop where
  moved_nonneg : ∀ moves, ∀ p ∈ lessMoved allocations moves, ∀ lot ∈ p.2.lots, 0 ≤ lot.qty
  moved : ∀ moves : List CostMove, (∀ m ∈ moves, InSteps m.qty) →
    List.Forall₂ SameQuantity allocations (lessMoved allocations moves)
  credited_amount : ∀ credited, List.Forall₂ AmountKept allocations (lessCredited allocations credited)
  credited : ∀ credited : List (ℕ × ℚ), (∀ c ∈ credited, InSteps c.2) →
    List.Forall₂ (CreditedLine credited) allocations (lessCredited allocations credited)
  free_le : ∀ items claims lot,
    total lot ((freeGoodsOnly items claims allocations).flatMap fun p => p.2.takes) ≤ freeOf items claims lot
  free_amount : ∀ items claims,
    List.Forall₂ AmountKept (inOrder allocations) (freeGoodsOnly items claims allocations)
  free : ∀ (items : Items) (claims : List (String × ℚ)),
    (∀ lot qty, onHandQty items lot = some qty → InSteps qty) → (∀ t ∈ claims, InSteps t.2) →
    List.Forall₂ SameQuantity (inOrder allocations) (freeGoodsOnly items claims allocations)

/-- **Allocation snapshots keep count of their goods**, of unit costs, quantities and
    amounts of at least nothing and in whole quantity steps. -/
theorem snapshots_keep_count (allocations : List (ℕ × Allocation)) (h : SoundLines allocations)
    (hsteps : SteppedLines allocations) : KeepsCount allocations := by
  have hmem : ∀ p ∈ inOrder allocations, p ∈ allocations := fun p => (List.mem_insertionSort _).1
  have hordered : SoundLines (inOrder allocations) := fun p hp => h p (hmem p hp)
  refine ⟨?_, ?_, amountKept_lessCredited h, ?_, ?_, ?_, ?_⟩
  · intro moves p hp lot hlot
    exact ((soundLines_lessMoved h moves p hp).lots lot hlot).1
  · intro moves hmoves
    exact sameQuantity_lessMoved hmoves (sameQuantity_refl h hsteps)
  · intro credited hcredited
    exact creditedLine_lessCredited h hsteps hcredited
  · intro items claims lot
    exact total_freeLines_le hordered lot claims
  · intro items claims
    exact amountKept_freeLines hordered
  · intro items claims hhand hclaims
    exact sameQuantity_freeLines hordered (fun p hp => hsteps p (hmem p hp)) hhand hclaims

theorem sound_oneLot {lot : AllocatedLot} {provisional amount : ℚ} (hqty : 0 ≤ lot.qty) (hcost : 0 ≤ lot.unitCost)
    (hprovisional : 0 ≤ provisional) (hamount : 0 ≤ amount) :
    Allocation.Sound ⟨[lot], provisional, amount⟩ := by
  refine ⟨fun l hl => ?_, hprovisional, hamount⟩
  obtain rfl := List.mem_singleton.1 hl
  exact ⟨hqty, hcost⟩

theorem stepped_oneLot {lot : AllocatedLot} {provisional amount : ℚ} (hqty : InSteps lot.qty)
    (hprovisional : InSteps provisional) : Allocation.Stepped ⟨[lot], provisional, amount⟩ := by
  refine ⟨fun l hl => ?_, hprovisional⟩
  obtain rfl := List.mem_singleton.1 hl
  exact hqty

theorem inSteps_natCast (n : ℕ) : InSteps n := ⟨n * 10 ^ 6, by push_cast [QTY_STEP]; ring⟩

/-- A line of two units of a lot, and an earlier one of three of its units and one no lot
    covers. -/
def twoLinesOneLot : List (ℕ × Allocation) :=
  [(1, ⟨[⟨"lot:1", 2, 2, none⟩], 0, 4⟩), (0, ⟨[⟨"lot:1", 3, 2, none⟩], 1, 8⟩)]

/-- Four units of the lot on hand. -/
def fourOnHand : Items :=
  ⟨[{ entityId := "lot:1"
      createdAt := ""
      consignedIn := false
      state := { LotCost.costed 4 8 [] false with sku := "ring", status := "available" } }], by decide⟩

/-- A restore leaves the two lines the four units there are: three of the first's, one of the
    second's. -/
theorem twoLinesOneLot_kept : KeepsCount twoLinesOneLot ∧
    (freeGoodsOnly fourOnHand [] twoLinesOneLot).map (fun p => (p.1, p.2.lots.map (·.qty), p.2.provisionalQty)) =
      [(0, [3], 1), (1, [1], 1)] := by
  have hsound : SoundLines twoLinesOneLot := by
    intro p hp
    rcases List.mem_pair.1 hp with rfl | rfl
    · exact sound_oneLot (by norm_num) (by norm_num) le_rfl (by norm_num)
    · exact sound_oneLot (by norm_num) (by norm_num) (by norm_num) (by norm_num)
  have hsteps : SteppedLines twoLinesOneLot := by
    intro p hp
    rcases List.mem_pair.1 hp with rfl | rfl
    · exact stepped_oneLot (inSteps_natCast 2) inSteps_zero
    · exact stepped_oneLot (inSteps_natCast 3) (by simpa using inSteps_natCast 1)
  exact ⟨snapshots_keep_count twoLinesOneLot hsound hsteps, by decide +kernel⟩

/-- A line of three units of a lot, and one no lot covers. -/
def threeAndOne : List (ℕ × Allocation) := [(0, ⟨[⟨"lot:1", 3, 2, none⟩], 1, 8⟩)]

theorem soundLines_threeAndOne : SoundLines threeAndOne := by
  intro p hp
  obtain rfl := List.mem_singleton.1 hp
  exact sound_oneLot (by norm_num) (by norm_num) (by norm_num) (by norm_num)

theorem steppedLines_threeAndOne : SteppedLines threeAndOne := by
  intro p hp
  obtain rfl := List.mem_singleton.1 hp
  exact stepped_oneLot (inSteps_natCast 3) (by simpa using inSteps_natCast 1)

/-- A move that leaves a lot less than the tolerance drops what it leaves: of 3 units
    moved but for half a billionth, none stays. -/
theorem move_drops_remnant :
    ¬ ∀ (allocations : List (ℕ × Allocation)) (moves : List CostMove), SoundLines allocations →
      SteppedLines allocations →
      List.Forall₂ (fun p q => q.2.quantity = p.2.quantity) allocations (lessMoved allocations moves) := by
  intro h
  have hkept := h threeAndOne [⟨0, "lot:1", 3 - 5 / 10 ^ 10, 0⟩] soundLines_threeAndOne steppedLines_threeAndOne
  have hquantities : (lessMoved threeAndOne [⟨0, "lot:1", 3 - 5 / 10 ^ 10, 0⟩]).map (·.2.quantity) =
      threeAndOne.map (·.2.quantity) := by
    rw [← List.forall₂_eq_eq_eq, List.forall₂_map_left_iff, List.forall₂_map_right_iff]
    exact hkept.flip
  revert hquantities
  decide +kernel

end Celerp
