/-
  The order of lines does not change how much stock is missing (`celerp/services/pick.py`).

  Lines of one product over free lots that may be split (`OneProduct`) are served greedily:
  each uses up its bound lot first, and stays short only once every lot open to it is used
  up (`greedy_planLines`).  So what stays short is the least there can be, to the tolerance
  of quantities, and exactly where quantities are multiples of a unit above it
  (`least_short`).
-/
import Celerp.Lib.Serving
import Celerp.Sales.SharedLots

namespace Celerp

open Rounding Serving Tally

namespace Planning
variable (P : Planning)

/-! ## One product -/

/-- Lines of one product, over free lots of it that may be split, each line bound to one of
    them or to none. -/
structure OneProduct (sku : String) : Prop where
  free : ∀ lot ∈ P.lots, lot.claim = some .free
  splittable : ∀ lot ∈ P.lots, lot.state.splittingAllowed
  lot_sku : ∀ lot ∈ P.lots, lot.sku = sku
  line_sku : ∀ i, (P.line i).sku = sku
  bound : ∀ i id, (P.line i).itemId = some id → ∃ lot ∈ P.lots, lot.entityId = id
  spans : ∀ i, P.span i

/-- What a line needs. -/
def need (i : Fin P.lines.length) : ℚ := max 0 (P.line i).quantity

/-- What a lot holds. -/
def holds (lot : Lot) : ℚ := max 0 lot.quantity

/-- The lot a line binds. -/
def boundLot (i : Fin P.lines.length) : Option Lot := P.lots.find? fun lot => (P.line i).itemId = some lot.entityId

/-- What the lines draw of each lot, planned from a tally that is empty. -/
def drawn (is : List (Fin P.lines.length)) (i : Fin P.lines.length) (lot : Lot) : ℚ :=
  total i ((P.planLines is fun _ => none).map fun p => (p.1, total lot.entityId p.2.takes))

/-- What stays short of all the lines. -/
def totalShort (is : List (Fin P.lines.length)) : ℚ := ((P.planLines is fun _ => none).map fun p => p.2.short).sum

/-- A way to give lots to lines: a bound lot to lines binding it, an unbound one to any. -/
def Assignment (x : Fin P.lines.length → Lot → ℚ) : Prop :=
  Serves Finset.univ P.lots.toFinset P.need holds (Open Finset.univ P.boundLot) x

/-- What a way leaves short. -/
def assignedShort (x : Fin P.lines.length → Lot → ℚ) : ℚ := shortfall Finset.univ P.lots.toFinset P.need x

section
variable {P} {sku : String} {i j : Fin P.lines.length} {is : List (Fin P.lines.length)} {lot : Lot} {r : Remaining}

theorem boundLot_eq_some (hlot : lot ∈ P.lots) : P.boundLot i = some lot ↔ (P.line i).itemId = some lot.entityId := by
  unfold boundLot
  constructor
  · intro h
    simpa using List.find?_some h
  · intro h
    obtain ⟨l, hl⟩ : ∃ l, (P.lots.find? fun lot => (P.line i).itemId = some lot.entityId) = some l := by
      rw [← Option.isSome_iff_exists, List.find?_isSome]
      exact ⟨lot, hlot, by simpa using h⟩
    have hid : (P.line i).itemId = some l.entityId := by simpa using List.find?_some hl
    rw [hl, lots_inj hlot (List.mem_of_find?_eq_some hl) (Option.some.inj (h.symm.trans hid))]

/-- The lots a line draws from are its bound lot and the ones no line binds. -/
theorem OneProduct.order_eq (h : P.OneProduct sku) (i : Fin P.lines.length) :
    P.order i = (P.boundLot i).toList ++ sortedInventory (P.lots.filter fun lot =>
      ∀ j, (P.line j).itemId ≠ some lot.entityId) (P.method i) := by
  have hheld : attributedTo P.lots P.lines i = [] := by
    rw [attributedTo, List.filter_eq_nil_iff]
    intro l hl
    simp [h.free l hl]
  have hsources : P.sources i = lineDrawSources P.lines i (P.line i) P.lots (P.method i) := by
    rw [sources, if_pos (h.spans i)]
  have hown : (P.sources i).own = [] := by
    rw [hsources, lineDrawSources, hheld, List.filter_nil, List.filter_nil, List.nil_append]
    cases P.method i <;> rfl
  have hprimary : (P.sources i).primary = P.boundLot i := by
    rw [hsources, lineDrawSources, boundLot]
    cases hfind : P.lots.find? fun lot => (P.line i).itemId = some lot.entityId with
    | none => rfl
    | some l => simp [h.free l (List.mem_of_find?_eq_some hfind)]
  have hfree : (P.sources i).free = P.lots.filter fun lot => ∀ j, (P.line j).itemId ≠ some lot.entityId := by
    rw [hsources, lineDrawSources]
    refine List.filter_congr fun l hl => decide_eq_decide.2 ?_
    constructor
    · rintro ⟨-, hne, hothers, -⟩ j hj
      by_cases hij : j = i
      · subst hij
        simp [hj] at hne
      · exact hothers (mem_docBoundLots_eraseIdx.2 ⟨j, hij, hj⟩)
    · intro hnone
      refine ⟨h.free l hl, ?_, fun hothers => ?_, ?_⟩
      · simp [hnone i]
      · obtain ⟨j, -, hj⟩ := mem_docBoundLots_eraseIdx.1 hothers
        exact hnone j hj
      · -- the bound lot has no other product than the line
        rw [h.lot_sku l hl]
        show sku = _
        cases hfind : P.lots.find? fun lot => (P.line i).itemId = some lot.entityId with
        | none => exact (h.line_sku i).symm
        | some b =>
          rw [Option.map_some, h.lot_sku b (List.mem_of_find?_eq_some hfind)]
          split
          · exact (h.line_sku i).symm
          · exact (h.line_sku i).symm
          · rename_i heq
            exact Option.some.inj heq
  rw [order, hown, hprimary, hfree, List.nil_append]

/-! ## What one line leaves -/

/-- A line that stays short leaves no more than the tolerance of any lot it may draw. -/
theorem avail_of_short {lots : List Lot} {left : ℚ} (hids : (lots.map (·.entityId)).Nodup) (hlot : lot ∈ lots)
    (hsplit : lot.state.splittingAllowed = true) (hshort : EPS < leftAfter r lots left) :
    avail r lot - total lot.entityId (takesOf r lots left) ≤ EPS := by
  obtain ⟨before, after, rfl⟩ := List.append_of_mem hlot
  rw [total_takesOf_split hids]
  rw [leftAfter_append, leftAfter] at hshort
  generalize hneeds : leftAfter r before left = needs at hshort ⊢
  unfold takeOf at hshort ⊢
  by_cases hle : needs ≤ EPS
  · rw [if_pos (.inl hle), sub_zero, leftAfter_of_le hle] at hshort
    exact absurd hshort (not_lt.2 hle)
  by_cases hhas : avail r lot ≤ EPS
  · rw [if_pos (.inr (.inl hhas)), sub_zero]
    exact hhas
  have hcuts : cuts lot (min needs (avail r lot)) = false := by simp [cuts, hsplit]
  rw [if_neg (by simp [hle, hhas, hcuts])] at hshort ⊢
  rcases le_total needs (avail r lot) with hmin | hmin
  · rw [min_eq_left hmin, sub_self, leftAfter_of_le EPS_pos.le] at hshort
    exact absurd hshort (not_lt.2 EPS_pos.le)
  · rw [min_eq_right hmin, sub_self]
    exact EPS_pos.le

/-- What is needed is taken of the first lot that keeps something. -/
theorem takeOf_of_left {left : ℚ} (hsplit : lot.state.splittingAllowed = true)
    (hleft : EPS < avail r lot - takeOf lot left (avail r lot)) (hneeds : EPS < left) :
    takeOf lot left (avail r lot) = left := by
  have hhas : EPS < avail r lot := by
    have hnonneg : 0 ≤ takeOf lot left (avail r lot) := takeOf_nonneg
    linarith
  have hcuts : cuts lot (min left (avail r lot)) = false := by simp [cuts, hsplit]
  unfold takeOf at hleft ⊢
  rw [if_neg (by simp [hcuts, hneeds, hhas])] at hleft ⊢
  rcases le_total left (avail r lot) with hmin | hmin
  · exact min_eq_left hmin
  · rw [min_eq_right hmin, sub_self] at hleft
    exact absurd hleft (not_lt.2 EPS_pos.le)

/-! ## The plans of the lines -/

/-- A line planned once comes to its own plan, around the tally the lines before it leave. -/
theorem exists_planLine (hnodup : is.Nodup) (hi : i ∈ is) (r : Remaining) :
    ∃ r', (∀ f : Drawn → ℚ, total i ((P.planLines is r).map fun p => (p.1, f p.2)) = f (P.planLine i r')) ∧
      (i, P.planLine i r') ∈ P.planLines is r ∧
      ∀ lot ∈ P.lots, avail (P.remainingAfter is r) lot ≤ avail (P.planLine i r').remaining lot := by
  induction is generalizing r with
  | nil => exact absurd hi List.not_mem_nil
  | cons k is ih =>
    rw [List.nodup_cons] at hnodup
    by_cases hk : k = i
    · subst hk
      refine ⟨r, fun f => ?_, List.mem_cons_self, fun lot hlot => ?_⟩
      · rw [planLines, List.map_cons, total_cons, if_pos rfl, total_eq_zero, add_zero]
        intro t ht
        obtain ⟨p, hp, rfl⟩ := List.mem_map.1 ht
        rintro rfl
        exact hnodup.1 (mem_of_planned hp)
      · exact avail_remainingAfter_le hlot is _
    · obtain ⟨r', htotal, hmem, havail⟩ := ih hnodup.2 ((List.mem_cons.1 hi).resolve_left (Ne.symm hk))
        (P.planLine k r).remaining
      refine ⟨r', fun f => ?_, List.mem_cons_of_mem _ hmem, havail⟩
      rw [planLines, List.map_cons, total_cons, if_neg hk, zero_add, htotal f]

/-! ## The lines together -/

/-- An empty tally. -/
def untouched : Remaining := fun _ => none

theorem avail_untouched (lot : Lot) : avail untouched lot = lot.quantity := rfl

/-- Every line planned, once each, from an empty tally. -/
def AllPlanned (P : Planning) (is : List (Fin P.lines.length)) : Prop := is.Perm (List.finRange P.lines.length)

theorem AllPlanned.nodup (h : P.AllPlanned is) : is.Nodup := h.nodup_iff.2 (List.nodup_finRange _)

theorem AllPlanned.mem (h : P.AllPlanned is) (i : Fin P.lines.length) : i ∈ is := h.mem_iff.2 (List.mem_finRange i)

theorem mem_takesOf : ∀ {lots : List Lot} {left : ℚ}, ∀ t ∈ takesOf r lots left, t.1 ∈ lots.map (·.entityId)
  | [], _, _, ht => absurd ht List.not_mem_nil
  | l :: lots, left, t, ht => by
    rcases List.mem_cons.1 ht with rfl | ht
    · exact List.mem_cons_self
    · exact List.mem_cons_of_mem _ (mem_takesOf t ht)

/-- What a line draws of the lots and what stays short of it come to what it needs. -/
theorem sum_drawn (h : P.AllPlanned is) (i : Fin P.lines.length) :
    ∑ lot ∈ P.lots.toFinset, P.drawn is i lot =
      P.need i - total i ((P.planLines is untouched).map fun p => (p.1, p.2.short)) := by
  obtain ⟨r', htotal, hmem, -⟩ := exists_planLine h.nodup (h.mem i) untouched
  have hshared := lots_shared P is untouched fun lot _ => le_rfl
  have hdrawn : ∀ lot, P.drawn is i lot = total lot.entityId (P.planLine i r').takes :=
    fun lot => htotal fun d => total lot.entityId d.takes
  rw [htotal fun d => d.short, need, ← hshared.covered _ hmem, add_sub_cancel_right]
  simp only [hdrawn]
  have hids : ∑ lot ∈ P.lots.toFinset, total lot.entityId (P.planLine i r').takes =
      ∑ id ∈ P.lots.toFinset.image (·.entityId), total id (P.planLine i r').takes := by
    rw [Finset.sum_image]
    intro l hl l' hl' heq
    exact lots_inj (List.mem_toFinset.1 hl) (List.mem_toFinset.1 hl') heq
  rw [hids, planLine_spec.sum_takes, ← sum_takesOf]
  simp only [planLine_spec.total_takes]
  refine sum_total_finset fun t ht => ?_
  obtain ⟨l, hl, hid⟩ := List.mem_map.1 (mem_takesOf t ht)
  rw [← hid]
  exact Finset.mem_image_of_mem _ (List.mem_toFinset.2 (mem_order hl).1)

/-- What all lines draw of a lot is what they do not leave in it. -/
theorem sum_drawn_lot (hlot : lot ∈ P.lots) :
    ∑ i, P.drawn is i lot = holds lot - max 0 (avail (P.remainingAfter is untouched) lot) := by
  have hsum : ∑ i, P.drawn is i lot = ((P.planLines is untouched).map fun p => total lot.entityId p.2.takes).sum := by
    unfold drawn
    rw [sum_total_univ, List.map_map]
    rfl
  rw [hsum, max_remainingAfter hlot, avail_untouched, holds, sub_sub_cancel]

theorem assignedShort_drawn (h : P.AllPlanned is) : P.assignedShort (P.drawn is) = P.totalShort is := by
  have hterm : ∀ i ∈ Finset.univ, P.need i - ∑ lot ∈ P.lots.toFinset, P.drawn is i lot =
      total i ((P.planLines is untouched).map fun p => (p.1, p.2.short)) := by
    intro i _
    rw [sum_drawn h, sub_sub_cancel]
  rw [assignedShort, shortfall, Finset.sum_congr rfl hterm, sum_total_univ, List.map_map]
  rfl

theorem totalShort_nonneg (i : Fin P.lines.length) (h : P.AllPlanned is) :
    0 ≤ total i ((P.planLines is untouched).map fun p => (p.1, p.2.short)) := by
  obtain ⟨r', htotal, -, -⟩ := exists_planLine h.nodup (h.mem i) untouched
  rw [htotal fun d => d.short, planLine_spec.short_eq]
  exact le_max_left _ _

/-- What the lines draw is an assignment. -/
theorem OneProduct.assignment (hone : P.OneProduct sku) (h : P.AllPlanned is) : P.Assignment (P.drawn is) := by
  have hshared := lots_shared P is untouched fun lot _ => le_rfl
  constructor
  case nonneg =>
    intro i _ lot _
    obtain ⟨r', htotal, -, -⟩ := exists_planLine h.nodup (h.mem i) untouched
    have hdrawn : P.drawn is i lot = total lot.entityId (P.planLine i r').takes :=
      htotal fun d => total lot.entityId d.takes
    rw [hdrawn]
    exact planLine_takes_nonneg _
  case within_need =>
    intro i _
    rw [sum_drawn h]
    exact sub_le_self _ (totalShort_nonneg i h)
  case within_stock =>
    intro lot hlot
    rw [sum_drawn_lot (List.mem_toFinset.1 hlot)]
    exact sub_le_self _ (le_max_left _ _)
  case allowed =>
    intro i _ lot hmem hne
    have hlot := List.mem_toFinset.1 hmem
    obtain ⟨r', htotal, hplanned, -⟩ := exists_planLine h.nodup (h.mem i) untouched
    have hdrawn : P.drawn is i lot = total lot.entityId (P.planLine i r').takes :=
      htotal fun d => total lot.entityId d.takes
    rw [hdrawn] at hne
    obtain ⟨l, hl, hid, -, hbound⟩ := hshared.apart _ hplanned _ hne
    obtain rfl := lots_inj hl hlot hid
    by_cases hnone : ∀ j ∈ Finset.univ, P.boundLot j ≠ some l
    · exact .inr hnone
    · push Not at hnone
      obtain ⟨j, -, hj⟩ := hnone
      rcases hbound j ((boundLot_eq_some hl).1 hj) with hmine | ⟨hreserved, -⟩
      · exact .inl ((boundLot_eq_some hl).2 hmine)
      · rw [hone.free l hl] at hreserved
        cases hreserved

/-- **The lines are served greedily**, to a tolerance that quantities within `EPS` are
    within. -/
theorem OneProduct.greedy (hone : P.OneProduct sku) (h : P.AllPlanned is) {t : ℚ} (ht : 0 ≤ t)
    (hneed : ∀ i, P.need i ≤ EPS → P.need i ≤ t)
    (hshort : ∀ i, total i ((P.planLines is untouched).map fun p => (p.1, p.2.short)) ≤ EPS →
      total i ((P.planLines is untouched).map fun p => (p.1, p.2.short)) ≤ t)
    (hleft : ∀ lot ∈ P.lots, max 0 (avail (P.remainingAfter is untouched) lot) ≤ EPS →
      max 0 (avail (P.remainingAfter is untouched) lot) ≤ t) :
    Greedy Finset.univ P.lots.toFinset P.need holds P.boundLot t (P.drawn is) := by
  constructor
  case used_up =>
    intro i _ hi lot hmem hopen
    have hlot := List.mem_toFinset.1 hmem
    rw [sum_drawn h, sub_sub_cancel] at hi
    rw [sum_drawn_lot hlot, sub_sub_cancel]
    refine hleft lot hlot (max_le EPS_pos.le ?_)
    have hover : EPS < total i ((P.planLines is untouched).map fun p => (p.1, p.2.short)) := by
      by_contra hle
      exact absurd (hshort i (not_lt.1 hle)) (not_le.2 hi)
    obtain ⟨r', htotal, -, havail⟩ := exists_planLine h.nodup (h.mem i) untouched
    rw [htotal fun d => d.short, planLine_spec.short_eq, lt_max_iff] at hover
    have horder : lot ∈ P.order i := by
      rw [hone.order_eq, List.mem_append, (perm_sortedInventory _ _).mem_iff, List.mem_filter]
      rcases hopen with hmine | hnobody
      · exact .inl (Option.mem_toList.2 hmine)
      · refine .inr ⟨hlot, decide_eq_true fun j hj => ?_⟩
        exact hnobody j (Finset.mem_univ j) ((boundLot_eq_some hlot).2 hj)
    refine (havail lot hlot).trans ?_
    rw [avail_planLine hlot, planLine_spec.total_takes]
    exact avail_of_short nodup_order_ids horder (hone.splittable lot hlot)
      (hover.resolve_left (not_lt.2 EPS_pos.le))
  case own_first =>
    intro i _ lot hmem hown hi
    have hlot := List.mem_toFinset.1 hmem
    rw [sum_drawn_lot hlot, sub_sub_cancel] at hi
    obtain ⟨r', htotal, -, havail⟩ := exists_planLine h.nodup (h.mem i) untouched
    have hdrawn : P.drawn is i lot = total lot.entityId (P.planLine i r').takes :=
      htotal fun d => total lot.entityId d.takes
    have hsplit : P.order i = [] ++ lot :: sortedInventory (P.lots.filter fun lot =>
        ∀ j, (P.line j).itemId ≠ some lot.entityId) (P.method i) := by
      rw [hone.order_eq, hown]
      rfl
    have hids := nodup_order_ids (i := i)
    rw [hsplit] at hids
    have htake : total lot.entityId (P.planLine i r').takes =
        takeOf lot (P.line i).quantity (avail r' lot) := by
      rw [planLine_spec.total_takes, hsplit, total_takesOf_split hids]
      rfl
    have hover : EPS < avail (P.remainingAfter is untouched) lot := by
      by_contra hle
      have := hleft lot hlot (max_le EPS_pos.le (not_lt.1 hle))
      exact absurd this (not_le.2 hi)
    have hkept := hover.trans_le (havail lot hlot)
    rw [avail_planLine hlot, htake] at hkept
    rw [hdrawn, htake]
    by_cases hsmall : P.need i ≤ EPS
    · have hnonneg : 0 ≤ takeOf lot (P.line i).quantity (avail r' lot) := takeOf_nonneg
      linarith [hneed i hsmall]
    · have hquantity : EPS < (P.line i).quantity := by
        rcases lt_max_iff.1 (not_le.1 hsmall) with hlt | hlt
        · exact absurd hlt (not_lt.2 EPS_pos.le)
        · exact hlt
      rw [takeOf_of_left (hone.splittable lot hlot) hkept hquantity, need, max_eq_right (EPS_pos.trans hquantity).le]
      exact sub_le_self _ ht

/-! ## Quantities in a unit -/

/-- What lines need and lots hold are whole numbers of a unit. -/
structure InUnits (P : Planning) (u : ℚ) : Prop where
  lines : ∀ i, IsMultiple u (P.line i).quantity
  lots : ∀ lot ∈ P.lots, IsMultiple u lot.quantity

theorem isMultiple_max {u v : ℚ} (h : IsMultiple u v) : IsMultiple u (max 0 v) := by
  rcases max_choice 0 v with hv | hv <;> rw [hv]
  · exact isMultiple_zero u
  · exact h

/-- A whole number of units above the tolerance is nothing once it is within it. -/
theorem nonpos_of_isMultiple {u v : ℚ} (hu : EPS < u) (hv : IsMultiple u v) (hle : v ≤ EPS) : v ≤ 0 := by
  obtain ⟨n, rfl⟩ := hv
  have hpos : 0 < u := EPS_pos.trans hu
  have hn : (n : ℚ) < 1 := by
    by_contra hn
    have := mul_le_mul_of_nonneg_right (not_lt.1 hn) hpos.le
    linarith
  have hn' : n ≤ 0 := by
    have : n < 1 := by exact_mod_cast hn
    omega
  exact mul_nonpos_of_nonpos_of_nonneg (by exact_mod_cast hn') hpos.le

theorem isMultiple_takeOf {u left has : ℚ} (hleft : IsMultiple u left) (hhas : IsMultiple u has) :
    IsMultiple u (takeOf lot left has) := by
  unfold takeOf
  split_ifs
  · exact isMultiple_zero u
  · rcases min_choice left has with hmin | hmin <;> rw [hmin]
    · exact hleft
    · exact hhas

theorem isMultiple_leftAfter {u : ℚ} : ∀ {lots : List Lot} {left : ℚ}, IsMultiple u left →
    (∀ lot ∈ lots, IsMultiple u (avail r lot)) → IsMultiple u (leftAfter r lots left)
  | [], _, hleft, _ => hleft
  | lot :: lots, left, hleft, h => by
    rw [List.forall_mem_cons] at h
    rw [leftAfter]
    exact isMultiple_leftAfter (hleft.sub (isMultiple_takeOf hleft h.1)) h.2

theorem isMultiple_avail {u : ℚ} (hunits : P.InUnits u) (h : ∀ lot ∈ P.lots, IsMultiple u (avail r lot)) :
    ∀ lot ∈ P.lots, IsMultiple u (avail (P.planLine i r).remaining lot) := by
  intro lot hlot
  rw [avail_planLine hlot]
  refine (h lot hlot).sub ?_
  by_cases hmem : lot ∈ P.order i
  · obtain ⟨before, after, hsplit⟩ := List.append_of_mem hmem
    have hids := nodup_order_ids (i := i)
    rw [hsplit] at hids
    rw [planLine_spec.total_takes, hsplit, total_takesOf_split hids]
    refine isMultiple_takeOf (isMultiple_leftAfter (hunits.lines i) fun l hl => h l ?_) (h lot hlot)
    exact (mem_order (hsplit ▸ List.mem_append_left _ hl)).1
  · by_cases hzero : total lot.entityId (P.planLine i r).takes = 0
    · rw [hzero]
      exact isMultiple_zero u
    · exact absurd (total_planLine hlot hzero).1 hmem

theorem isMultiple_short {u : ℚ} (hunits : P.InUnits u) (h : ∀ lot ∈ P.lots, IsMultiple u (avail r lot)) :
    IsMultiple u (P.planLine i r).short := by
  rw [planLine_spec.short_eq]
  exact isMultiple_max (isMultiple_leftAfter (hunits.lines i) fun l hl => h l (mem_order hl).1)

/-- What stays short of each line, and what is left in each lot, is a whole number of
    units. -/
theorem isMultiple_run {u : ℚ} (hunits : P.InUnits u) : ∀ (is : List (Fin P.lines.length)) (r : Remaining),
    (∀ lot ∈ P.lots, IsMultiple u (avail r lot)) → (∀ p ∈ P.planLines is r, IsMultiple u p.2.short) ∧
      ∀ lot ∈ P.lots, IsMultiple u (avail (P.remainingAfter is r) lot)
  | [], _, h => ⟨fun _ hp => absurd hp List.not_mem_nil, h⟩
  | i :: is, r, h => by
    obtain ⟨hshort, hleft⟩ := isMultiple_run hunits is _ (isMultiple_avail (i := i) hunits h)
    refine ⟨fun p hp => ?_, hleft⟩
    rcases List.mem_cons.1 hp with rfl | hp
    · exact isMultiple_short hunits h
    · exact hshort p hp

/-! ## The least there can be -/

theorem toFinset_card : (P.lots.toFinset.card : ℚ) = P.lots.length := by
  rw [List.toFinset_card_of_nodup (List.Nodup.of_map _ P.nodup)]

/-- What stays short is no more than any assignment leaves, to the tolerance for each line
    and lot. -/
theorem OneProduct.totalShort_le (hone : P.OneProduct sku) (h : P.AllPlanned is) {y : Fin P.lines.length → Lot → ℚ}
    (hy : P.Assignment y) : P.totalShort is ≤ P.assignedShort y + EPS * (P.lines.length + P.lots.length) := by
  have hgreedy := hone.greedy h EPS_pos.le (fun _ => id) (fun _ => id) (fun _ _ => id)
  have := shortfall_le_of_greedy EPS_pos.le (hone.assignment h) hgreedy hy
  rwa [Finset.card_univ, Fintype.card_fin, toFinset_card, ← assignedShort, assignedShort_drawn h] at this

/-- In units above the tolerance it is no more than any assignment leaves. -/
theorem OneProduct.totalShort_least (hone : P.OneProduct sku) (h : P.AllPlanned is) {u : ℚ} (hu : EPS < u)
    (hunits : P.InUnits u) : IsLeast {s | ∃ y, P.Assignment y ∧ P.assignedShort y = s} (P.totalShort is) := by
  refine ⟨⟨P.drawn is, hone.assignment h, assignedShort_drawn h⟩, ?_⟩
  rintro _ ⟨y, hy, rfl⟩
  obtain ⟨hshort, hleft⟩ := isMultiple_run hunits is untouched hunits.lots
  have hgreedy := hone.greedy h le_rfl (fun i => nonpos_of_isMultiple hu (isMultiple_max (hunits.lines i)))
    (fun i => nonpos_of_isMultiple hu ?_) (fun lot hlot => nonpos_of_isMultiple hu (isMultiple_max (hleft lot hlot)))
  · have := shortfall_le_of_greedy le_rfl (hone.assignment h) hgreedy hy
    rwa [zero_mul, add_zero, ← assignedShort, assignedShort_drawn h] at this
  · obtain ⟨r', htotal, hmem, -⟩ := exists_planLine h.nodup (h.mem i) untouched
    rw [htotal fun d => d.short]
    exact hshort _ hmem

end

/-- The lines planned with other pick methods. -/
def pickingBy (method : Fin P.lines.length → PickMethod) : Planning := { P with method := method }

section
variable {P} (method : Fin P.lines.length → PickMethod) (y : Fin P.lines.length → Lot → ℚ)

theorem assignment_pickingBy : (P.pickingBy method).Assignment y ↔ P.Assignment y := Iff.rfl

theorem assignedShort_pickingBy : (P.pickingBy method).assignedShort y = P.assignedShort y := rfl

end

/-- **The order of lines does not change how much stock is missing**: it is the least there
    can be, to the tolerance of quantities, and exactly where they are whole numbers of a
    unit above it. -/
theorem least_short (P : Planning) (sku : String) (hone : P.OneProduct sku) :
    (∀ is, P.AllPlanned is → P.Assignment (P.drawn is) ∧ P.assignedShort (P.drawn is) = P.totalShort is ∧
      (∀ y, P.Assignment y → P.totalShort is ≤ P.assignedShort y + EPS * (P.lines.length + P.lots.length)) ∧
      ∀ method is', P.AllPlanned is' →
        |(P.pickingBy method).totalShort is' - P.totalShort is| ≤ EPS * (P.lines.length + P.lots.length)) ∧
    ∀ u, EPS < u → P.InUnits u → ∀ is, P.AllPlanned is →
      IsLeast {s | ∃ y, P.Assignment y ∧ P.assignedShort y = s} (P.totalShort is) ∧
      ∀ method is', P.AllPlanned is' → (P.pickingBy method).totalShort is' = P.totalShort is := by
  have hmethod : ∀ method, (P.pickingBy method).OneProduct sku := fun method =>
    ⟨hone.free, hone.splittable, hone.lot_sku, hone.line_sku, hone.bound, hone.spans⟩
  refine ⟨fun is h => ⟨hone.assignment h, assignedShort_drawn h, fun y hy => hone.totalShort_le h hy, ?_⟩,
    fun u hu hunits is h => ⟨hone.totalShort_least h hu hunits, ?_⟩⟩
  · intro method is' h'
    have hplanned : (P.pickingBy method).AllPlanned is' := h'
    have heq := (assignedShort_pickingBy method _).symm.trans (assignedShort_drawn hplanned)
    have hle := hone.totalShort_le h ((assignment_pickingBy method _).1 ((hmethod method).assignment hplanned))
    have hle' := (hmethod method).totalShort_le hplanned ((assignment_pickingBy method _).2 (hone.assignment h))
    rw [heq] at hle
    rw [assignedShort_pickingBy, assignedShort_drawn h] at hle'
    exact abs_sub_le_iff.2 ⟨sub_le_iff_le_add'.2 hle', sub_le_iff_le_add'.2 hle⟩
  · intro method is' h'
    have hplanned : (P.pickingBy method).AllPlanned is' := h'
    have hleast := (hmethod method).totalShort_least hplanned hu ⟨hunits.lines, hunits.lots⟩
    exact hleast.unique (hone.totalShort_least h hu hunits)

/-- A free lot of a product. -/
def freeLot (id : String) (quantity : ℚ) : Lot where
  entityId := id
  createdAt := id
  state :=
    { quantity := quantity, costBase := none, costTotal := none, costPrice := none, landedCosts := []
      goodsCostUnknown := false, sku := "ring" }
  claim := some .free

/-- A line bound to the first of two lots and a line bound to none. -/
def twoLots : Planning where
  lines := [{ itemId := some "a", sku := "ring", quantity := 3 }, { itemId := none, sku := "ring", quantity := 5 }]
  lots := [freeLot "a" 2, freeLot "b" 4]
  nodup := by decide
  method _ := .fifo
  span _ := true

theorem twoLots_oneProduct : twoLots.OneProduct "ring" where
  free := by decide
  splittable := by decide
  lot_sku := by decide
  line_sku := by decide
  bound := by
    intro i id h
    match i with
    | ⟨0, _⟩ => exact ⟨freeLot "a" 2, List.mem_cons_self, Option.some.inj h⟩
    | ⟨1, _⟩ => cases h
  spans := by decide

/-- Two of the eight units needed are not there. -/
theorem twoLots_least : IsLeast {s | ∃ y, twoLots.Assignment y ∧ twoLots.assignedShort y = s}
    (twoLots.totalShort [⟨1, by decide⟩, ⟨0, by decide⟩]) := by
  have hall : twoLots.AllPlanned [⟨1, by decide⟩, ⟨0, by decide⟩] := by
    unfold AllPlanned
    decide
  refine ((least_short twoLots "ring" twoLots_oneProduct).2 1 (by norm_num [EPS]) ⟨?_, ?_⟩ _ hall).1
  · exact Fin.forall_fin_two.2 ⟨⟨3, show (3 : ℚ) = _ by norm_num⟩, ⟨5, show (5 : ℚ) = _ by norm_num⟩⟩
  · intro lot hlot
    have hlots : lot = freeLot "a" 2 ∨ lot = freeLot "b" 4 := by simpa [twoLots] using hlot
    rcases hlots with rfl | rfl
    · exact ⟨2, by norm_num [freeLot, Lot.quantity]⟩
    · exact ⟨4, by norm_num [freeLot, Lot.quantity]⟩

example : twoLots.totalShort [⟨1, by decide⟩, ⟨0, by decide⟩] = 2 := by decide +kernel

/-- Two lines on one lot of one unit, one of which needs a little less. -/
def almostOne : Planning where
  lines := [{ itemId := none, sku := "ring", quantity := 1 - 1 / 10 ^ 10 }, { itemId := none, sku := "ring", quantity := 1 }]
  lots := [freeLot "a" 1]
  nodup := by decide
  method _ := .fifo
  span _ := true

/-- What stays short depends on which line is planned first. -/
theorem almostOne_order :
    almostOne.totalShort [⟨0, by decide⟩, ⟨1, by decide⟩] = 1 ∧
      almostOne.totalShort [⟨1, by decide⟩, ⟨0, by decide⟩] = 1 - 1 / 10 ^ 10 := by
  decide +kernel

end Planning

end Celerp
