/-
  Lines of one document planned together (`celerp/services/pick.py`).

  `planLines` plans lines one after another, each from its own sources
  (`lineDrawSources`), around one tally of what the lots still have.  A line draws its own
  holds, its bound lot and free lots no other line binds (`mem_order`); what it draws of a
  lot the next ones find gone (`avail_planLine`).  So lines share lots without overlap
  (`lots_shared`).
-/
import Celerp.Sales.Pick

namespace Celerp

open Tally

/-! ## Planning -/

/-- The lines of a document that are planned in one operation, and the lots they may
    draw. -/
structure Planning where
  lines : List DocLine
  lots : List Lot
  nodup : (lots.map (·.entityId)).Nodup
  /-- `resolve_pick_method`, of the lot a line binds -/
  method : Fin lines.length → PickMethod
  /-- whether a line may draw over the lots of its product -/
  span : Fin lines.length → Bool

namespace Planning
variable (P : Planning)

/-- A line. -/
def line (i : Fin P.lines.length) : DocLine := P.lines.get i

/-- The lots a line may draw: without `span`, its own holds and its bound lot. -/
def sources (i : Fin P.lines.length) : DrawSources :=
  let s := lineDrawSources P.lines i (P.line i) P.lots (P.method i)
  if P.span i then s else { s with free := [] }

/-- The plan of a line. -/
def planLine (i : Fin P.lines.length) (r : Remaining) : Drawn :=
  planLineDraws (P.line i).quantity (P.sources i) (P.method i) r

/-- The plans of lines, one after another around one tally. -/
def planLines : List (Fin P.lines.length) → Remaining → List (Fin P.lines.length × Drawn)
  | [], _ => []
  | i :: is, r => (i, P.planLine i r) :: planLines is (P.planLine i r).remaining

/-- What the tally holds after the lines. -/
def remainingAfter : List (Fin P.lines.length) → Remaining → Remaining
  | [], r => r
  | i :: is, r => remainingAfter is (P.planLine i r).remaining

/-- The lots of a line, in the order it draws them. -/
def order (i : Fin P.lines.length) : List Lot :=
  (P.sources i).own ++ (P.sources i).primary.toList ++ sortedInventory (P.sources i).free (P.method i)

section
variable {P} {i j : Fin P.lines.length} {is : List (Fin P.lines.length)} {lot other : Lot} {r : Remaining}

theorem lots_inj (h : lot ∈ P.lots) (h' : other ∈ P.lots) (heq : lot.entityId = other.entityId) : lot = other :=
  List.inj_on_of_nodup_map P.nodup h h' heq

/-- A lot a line binds is bound by a line other than `i` exactly where it is among the lots
    of the others. -/
theorem mem_docBoundLots_eraseIdx {id : String} :
    id ∈ docBoundLots (P.lines.eraseIdx i) ↔ ∃ j ≠ i, (P.line j).itemId = some id := by
  unfold docBoundLots
  rw [List.mem_filterMap]
  constructor
  · rintro ⟨li, hli, hid⟩
    obtain ⟨k, hne, hk⟩ := List.mem_eraseIdx_iff_getElem?.1 hli
    obtain ⟨hlt, hget⟩ := List.getElem?_eq_some_iff.1 hk
    refine ⟨⟨k, hlt⟩, fun heq => hne (congrArg Fin.val heq), ?_⟩
    rw [line, List.get_eq_getElem, hget, hid]
  · rintro ⟨j, hne, hid⟩
    refine ⟨P.line j, ?_, hid⟩
    rw [List.mem_eraseIdx_iff_getElem?]
    exact ⟨j, fun heq => hne (Fin.ext heq), List.getElem?_eq_getElem j.2⟩

/-- The lots a line draws: its own holds, its bound lot where it is free, and where it may
    span the free lots of its product that no line binds. -/
theorem mem_order (h : lot ∈ P.order i) : lot ∈ P.lots ∧
    (lot.claim = some .reserved ∧ attributeHold P.lines lot = .line i ∨
      lot.claim = some .free ∧ ((P.line i).itemId = some lot.entityId ∨
        ∀ j, (P.line j).itemId ≠ some lot.entityId)) := by
  have hsources : lot ∈ (P.sources i).own ∨ lot ∈ (P.sources i).primary ∨ lot ∈ (P.sources i).free := by
    rcases List.mem_append.1 h with h | h
    · rcases List.mem_append.1 h with h | h
      · exact .inl h
      · exact .inr (.inl (Option.mem_toList.1 h))
    · exact .inr (.inr ((perm_sortedInventory _ _).mem_iff.1 h))
  rcases hsources with hown | hprimary | hfree
  · have : lot ∈ attributedTo P.lots P.lines i := by
      unfold sources at hown
      split_ifs at hown <;>
        simp only [lineDrawSources, List.mem_append, (perm_sortedInventory _ _).mem_iff, List.mem_filter] at hown <;>
        exact hown.elim And.left And.left
    rw [attributedTo, List.mem_filter, decide_eq_true_eq] at this
    exact ⟨this.1, .inl this.2⟩
  · have : lot ∈ (P.lots.find? fun l => (P.line i).itemId = some l.entityId).filter (·.claim = some .free) := by
      unfold sources at hprimary
      split_ifs at hprimary <;> exact hprimary
    obtain ⟨hfind, hclaim⟩ := Option.filter_eq_some_iff.1 this
    exact ⟨List.mem_of_find?_eq_some hfind,
      .inr ⟨by simpa using hclaim, .inl (by simpa using List.find?_some hfind)⟩⟩
  · unfold sources at hfree
    split_ifs at hfree with hspan
    · simp only [lineDrawSources, List.mem_filter, decide_eq_true_eq, Bool.not_eq_true',
        decide_eq_false_iff_not] at hfree
      obtain ⟨hlot, hclaim, hne, hothers, -⟩ := hfree
      refine ⟨hlot, .inr ⟨hclaim, .inr fun j hj => ?_⟩⟩
      by_cases hij : j = i
      · exact hne (hij ▸ hj)
      · exact hothers (mem_docBoundLots_eraseIdx.2 ⟨j, hij, hj⟩)
    · exact absurd hfree List.not_mem_nil

theorem order_nodup : (P.order i).Nodup := by
  have hlots : P.lots.Nodup := List.Nodup.of_map _ P.nodup
  have hheld : (attributedTo P.lots P.lines i).Nodup := hlots.filter _
  have hown : (P.sources i).own.Perm (attributedTo P.lots P.lines i) := by
    have hs : (P.sources i).own = (lineDrawSources P.lines i (P.line i) P.lots (P.method i)).own := by
      unfold sources
      split_ifs <;> rfl
    rw [hs]
    exact ((perm_sortedInventory _ _).append_left _).trans (List.filter_append_perm _ _)
  have hprimary : ∀ l ∈ (P.sources i).primary, l.claim = some .free ∧ (P.line i).itemId = some l.entityId := by
    intro l hl
    have : l ∈ (P.lots.find? fun l => (P.line i).itemId = some l.entityId).filter (·.claim = some .free) := by
      unfold sources at hl
      split_ifs at hl <;> exact hl
    obtain ⟨hfind, hclaim⟩ := Option.filter_eq_some_iff.1 this
    exact ⟨by simpa using hclaim, by simpa using List.find?_some hfind⟩
  have hfree : (P.sources i).free.Nodup ∧ ∀ l ∈ (P.sources i).free, l.claim = some .free ∧
      (P.line i).itemId ≠ some l.entityId := by
    unfold sources
    split_ifs
    · refine ⟨hlots.filter _, fun l hl => ?_⟩
      simp only [lineDrawSources, List.mem_filter, decide_eq_true_eq, Bool.not_eq_true',
        decide_eq_false_iff_not] at hl
      exact ⟨hl.2.1, hl.2.2.1⟩
    · exact ⟨List.nodup_nil, fun l hl => absurd hl List.not_mem_nil⟩
  have hreserved : ∀ l ∈ (P.sources i).own, l.claim = some .reserved := by
    intro l hl
    have := hown.mem_iff.1 hl
    rw [attributedTo, List.mem_filter, decide_eq_true_eq] at this
    exact this.2.1
  have hone : (P.sources i).primary.toList.Nodup := by
    cases (P.sources i).primary <;> simp
  refine List.nodup_append'.2 ⟨List.nodup_append'.2 ⟨hown.nodup_iff.2 hheld, hone, ?_⟩,
    (perm_sortedInventory _ _).nodup_iff.2 hfree.1, ?_⟩
  · intro l hl hl'
    have hclaim := (hprimary l (Option.mem_toList.1 hl')).1
    rw [hreserved l hl] at hclaim
    cases hclaim
  · intro l hl hl'
    obtain ⟨hclaim, hne⟩ := hfree.2 l ((perm_sortedInventory _ _).mem_iff.1 hl')
    rcases List.mem_append.1 hl with hl | hl
    · rw [hreserved l hl] at hclaim
      cases hclaim
    · exact hne (hprimary l (Option.mem_toList.1 hl)).2

theorem nodup_order_ids : ((P.order i).map (·.entityId)).Nodup :=
  order_nodup.map_on fun _ h _ h' heq => lots_inj (mem_order h).1 (mem_order h').1 heq

/-! ## One line -/

theorem planLine_spec : DrawSpec r (P.order i) (P.line i).quantity (P.planLine i r) :=
  draw_spec nodup_order_ids
    fun _ _ => List.not_mem_nil

/-- A line draws no more of a lot than it has, and the next line finds the rest. -/
theorem avail_planLine (hlot : lot ∈ P.lots) :
    avail (P.planLine i r).remaining lot = avail r lot - total lot.entityId (P.planLine i r).takes := by
  rw [planLine_spec.avail_eq lot fun l hl heq => by rw [lots_inj (mem_order hl).1 hlot heq], planLine_spec.total_takes]

/-- What a line takes of a lot: what it needs once the lots before it are drawn. -/
theorem total_planLine (hlot : lot ∈ P.lots) (htake : total lot.entityId (P.planLine i r).takes ≠ 0) :
    lot ∈ P.order i ∧ ∃ left, total lot.entityId (P.planLine i r).takes = takeOf lot left (avail r lot) := by
  have hmem : lot ∈ P.order i := by
    by_contra hmem
    refine htake ?_
    rw [planLine_spec.total_takes, total_takesOf_of_not_mem]
    intro hid
    obtain ⟨other, hother, heq⟩ := List.mem_map.1 hid
    exact hmem (lots_inj (mem_order hother).1 hlot heq ▸ hother)
  refine ⟨hmem, ?_⟩
  obtain ⟨before, after, hsplit⟩ := List.append_of_mem hmem
  have hnodup := nodup_order_ids (i := i)
  rw [hsplit] at hnodup
  exact ⟨_, by rw [planLine_spec.total_takes, hsplit, total_takesOf_split hnodup]⟩

theorem planLine_takes_nonneg : ∀ id, 0 ≤ total id (P.planLine i r).takes := by
  intro id
  rw [planLine_spec.total_takes]
  have hnonneg : ∀ (lots : List Lot) (left : ℚ), ∀ t ∈ takesOf r lots left, 0 ≤ t.2 := by
    intro lots
    induction lots with
    | nil => exact fun _ t ht => absurd ht List.not_mem_nil
    | cons l lots ih =>
      intro left t ht
      rcases List.mem_cons.1 ht with rfl | ht
      · exact takeOf_nonneg
      · exact ih _ t ht
  exact total_nonneg (hnonneg _ _)

/-- A lot that may not be split is drawn whole, to the tolerance. -/
theorem takeOf_whole {left has : ℚ} (hsplit : lot.state.splittingAllowed = false) (hhas : has ≤ lot.quantity)
    (htake : takeOf lot left has ≠ 0) : lot.quantity - EPS ≤ takeOf lot left has ∧ takeOf lot left has ≤ lot.quantity := by
  unfold takeOf at htake ⊢
  split_ifs at htake ⊢ with h
  · exact absurd rfl htake
  · rw [not_or, not_or] at h
    have hwhole : ¬(min left has < lot.quantity - EPS) := by
      intro hlt
      exact h.2.2 (by simp [cuts, hlt, hsplit])
    exact ⟨not_lt.1 hwhole, (min_le_right _ _).trans hhas⟩

/-- What a line leaves of a lot. -/
theorem max_avail_planLine (hlot : lot ∈ P.lots) :
    max 0 (avail (P.planLine i r).remaining lot) =
      max 0 (avail r lot) - total lot.entityId (P.planLine i r).takes := by
  rw [avail_planLine hlot]
  by_cases htake : total lot.entityId (P.planLine i r).takes = 0
  · rw [htake, sub_zero, sub_zero]
  · obtain ⟨-, left, hleft⟩ := total_planLine hlot htake
    rw [hleft, max_sub_takeOf]

theorem avail_planLine_le (hlot : lot ∈ P.lots) : avail (P.planLine i r).remaining lot ≤ avail r lot := by
  rw [avail_planLine hlot]
  exact sub_le_self _ (planLine_takes_nonneg _)

/-! ## The lines of an operation -/

/-- Each plan of an operation is a line's own, around a tally in which no lot has more than
    at the start. -/
theorem mem_planLines : ∀ {is : List (Fin P.lines.length)} {r : Remaining}, ∀ p ∈ P.planLines is r,
    ∃ r', p.2 = P.planLine p.1 r' ∧ ∀ lot ∈ P.lots, avail r' lot ≤ avail r lot
  | [], _, p, hp => absurd hp List.not_mem_nil
  | i :: is, r, p, hp => by
    rcases List.mem_cons.1 hp with rfl | hp
    · exact ⟨r, rfl, fun _ _ => le_rfl⟩
    · obtain ⟨r', hplan, hle⟩ := mem_planLines p hp
      exact ⟨r', hplan, fun lot hlot => (hle lot hlot).trans (avail_planLine_le hlot)⟩

theorem mem_of_planned : ∀ {is : List (Fin P.lines.length)} {r : Remaining} {p : Fin P.lines.length × Drawn},
    p ∈ P.planLines is r → p.1 ∈ is
  | [], _, _, hp => absurd hp List.not_mem_nil
  | i :: is, r, p, hp => by
    rcases List.mem_cons.1 hp with rfl | hp
    · exact List.mem_cons_self
    · exact List.mem_cons_of_mem _ (mem_of_planned hp)

theorem avail_remainingAfter_le (hlot : lot ∈ P.lots) : ∀ (is : List (Fin P.lines.length)) (r : Remaining),
    avail (P.remainingAfter is r) lot ≤ avail r lot
  | [], _ => le_rfl
  | _ :: is, _ => (avail_remainingAfter_le hlot is _).trans (avail_planLine_le hlot)

/-- What the lines draw of a lot, and what they leave in it. -/
theorem max_remainingAfter (hlot : lot ∈ P.lots) : ∀ (is : List (Fin P.lines.length)) (r : Remaining),
    max 0 (avail (P.remainingAfter is r) lot) =
      max 0 (avail r lot) - ((P.planLines is r).map fun p => total lot.entityId p.2.takes).sum
  | [], r => by simp [planLines, remainingAfter]
  | i :: is, r => by
    rw [remainingAfter, max_remainingAfter hlot is, planLines, List.map_cons, List.sum_cons, max_avail_planLine hlot]
    ring

/-- A lot with no more than the tolerance left is not drawn. -/
theorem total_planLine_of_avail_le (hlot : lot ∈ P.lots) (h : avail r lot ≤ EPS) :
    total lot.entityId (P.planLine i r).takes = 0 := by
  by_contra htake
  obtain ⟨-, left, hleft⟩ := total_planLine hlot htake
  rw [hleft, takeOf_of_has_le h] at htake
  exact htake rfl

/-- A lot that may not be split is drawn whole by one line, to the tolerance, or by none. -/
theorem planLines_whole (hlot : lot ∈ P.lots) (hsplit : lot.state.splittingAllowed = false) :
    ∀ (is : List (Fin P.lines.length)) (r : Remaining), avail r lot ≤ lot.quantity →
      (∀ p ∈ P.planLines is r, total lot.entityId p.2.takes = 0 ∨
        lot.quantity - EPS ≤ total lot.entityId p.2.takes ∧ total lot.entityId p.2.takes ≤ lot.quantity) ∧
      (P.planLines is r).Pairwise fun p q =>
        total lot.entityId p.2.takes = 0 ∨ total lot.entityId q.2.takes = 0
  | [], _, _ => ⟨fun _ hp => absurd hp List.not_mem_nil, .nil⟩
  | i :: is, r, hr => by
    obtain ⟨hwhole, hpairs⟩ := planLines_whole hlot hsplit is (P.planLine i r).remaining
      ((avail_planLine_le hlot).trans hr)
    by_cases htake : total lot.entityId (P.planLine i r).takes = 0
    · refine ⟨fun p hp => ?_, .cons (fun q _ => .inl htake) hpairs⟩
      rcases List.mem_cons.1 hp with rfl | hp
      · exact .inl htake
      · exact hwhole p hp
    · have hdrawn : lot.quantity - EPS ≤ total lot.entityId (P.planLine i r).takes ∧
          total lot.entityId (P.planLine i r).takes ≤ lot.quantity := by
        obtain ⟨-, left, hleft⟩ := total_planLine hlot htake
        rw [hleft] at htake ⊢
        exact takeOf_whole hsplit hr htake
      have hgone : avail (P.planLine i r).remaining lot ≤ EPS := by
        rw [avail_planLine hlot]
        linarith [hdrawn.1]
      refine ⟨fun p hp => ?_, .cons (fun q hq => .inr ?_) hpairs⟩
      · rcases List.mem_cons.1 hp with rfl | hp
        · exact .inr hdrawn
        · exact hwhole p hp
      · obtain ⟨r', hplan, hle⟩ := mem_planLines q hq
        rw [hplan]
        exact total_planLine_of_avail_le hlot ((hle lot hlot).trans hgone)

end

/-- Lines planned together share the lots without overlap. -/
structure LotsShared (is : List (Fin P.lines.length)) (r : Remaining) : Prop where
  /-- what a line draws and what stays short come to what it needs -/
  covered : ∀ p ∈ P.planLines is r, (p.2.takes.map Prod.snd).sum + p.2.short = max 0 (P.line p.1).quantity
  /-- no lot is drawn beyond what it has -/
  within : ∀ lot ∈ P.lots,
    ((P.planLines is r).map fun p => total lot.entityId p.2.takes).sum ≤ max 0 (avail r lot)
  /-- a lot that may not be split is drawn whole by one line, to the tolerance, or by none -/
  whole : ∀ lot ∈ P.lots, lot.state.splittingAllowed = false →
    (∀ p ∈ P.planLines is r, total lot.entityId p.2.takes = 0 ∨
      lot.quantity - EPS ≤ total lot.entityId p.2.takes ∧ total lot.entityId p.2.takes ≤ lot.quantity) ∧
    (P.planLines is r).Pairwise fun p q => total lot.entityId p.2.takes = 0 ∨ total lot.entityId q.2.takes = 0
  /-- a line draws the holds attributed to it and no others, and what another line binds
      only where it binds it too or holds it -/
  apart : ∀ p ∈ P.planLines is r, ∀ id, total id p.2.takes ≠ 0 → ∃ lot ∈ P.lots, lot.entityId = id ∧
    (lot.claim = some .reserved → attributeHold P.lines lot = .line p.1) ∧
    ∀ j, (P.line j).itemId = some id →
      (P.line p.1).itemId = some id ∨ lot.claim = some .reserved ∧ attributeHold P.lines lot = .line p.1

/-- **Lines of one document share lots without overlap**, in whatever order they are
    planned. -/
theorem lots_shared (P : Planning) (is : List (Fin P.lines.length)) (r : Remaining)
    (hr : ∀ lot ∈ P.lots, avail r lot ≤ lot.quantity) : P.LotsShared is r := by
  constructor
  case covered =>
    intro p hp
    obtain ⟨r', hplan, -⟩ := mem_planLines p hp
    rw [hplan, planLine_spec.sum_takes, planLine_spec.short_eq]
    rcases le_total (P.line p.1).quantity 0 with hneg | hpos
    · rw [leftAfter_of_le (hneg.trans EPS_pos.le), sub_self, zero_add]
    · rw [max_eq_right (leftAfter_nonneg hpos), max_eq_right hpos, sub_add_cancel]
  case within =>
    intro lot hlot
    have := max_remainingAfter hlot is r
    linarith [le_max_left 0 (avail (P.remainingAfter is r) lot)]
  case whole =>
    intro lot hlot hsplit
    exact planLines_whole hlot hsplit is r (hr lot hlot)
  case apart =>
    intro p hp id htake
    obtain ⟨r', hplan, -⟩ := mem_planLines p hp
    have hid : id ∈ (P.order p.1).map (·.entityId) := by
      by_contra hid
      refine htake ?_
      rw [hplan, planLine_spec.total_takes, total_takesOf_of_not_mem hid]
    obtain ⟨lot, hmem, rfl⟩ := List.mem_map.1 hid
    obtain ⟨hlot, hsource⟩ := mem_order hmem
    refine ⟨lot, hlot, rfl, fun hreserved => ?_, fun j hj => ?_⟩
    · rcases hsource with ⟨-, hline⟩ | ⟨hfree, -⟩
      · exact hline
      · rw [hfree] at hreserved
        cases hreserved
    · rcases hsource with hown | ⟨-, hbound | hnone⟩
      · exact .inr hown
      · exact .inl hbound
      · exact absurd hj (hnone j)

/-- Three units of a product, free to draw, that may not be split. -/
def wholeLot : Lot where
  entityId := "ring"
  createdAt := ""
  state :=
    { quantity := 3, costBase := none, costTotal := none, costPrice := none, landedCosts := [], goodsCostUnknown := false
      sku := "RING", allowSplitting := some false }
  claim := some .free

/-- Lines of the product of that lot. -/
def onWholeLot (quantities : List ℚ) : Planning where
  lines := quantities.map fun q => { itemId := some "ring", sku := "RING", quantity := q }
  lots := [wholeLot]
  nodup := by decide
  method _ := .fifo
  span _ := true

theorem onWholeLot_shared : (onWholeLot [3, 1]).LotsShared [⟨1, by decide⟩, ⟨0, by decide⟩] fun _ => none :=
  lots_shared (onWholeLot [3, 1]) [⟨1, by decide⟩, ⟨0, by decide⟩] (fun _ => none) (by decide)

/-- A line that needs a little less than the lot takes a little less of it, though it may
    not be split. -/
theorem wholeLot_cut : wholeLot.state.splittingAllowed = false ∧
    (((onWholeLot [3 - 1 / 10 ^ 10]).planLines (List.finRange _) fun _ => none).map fun p => total "ring" p.2.takes) =
      [wholeLot.quantity - 1 / 10 ^ 10] := by
  decide +kernel

end Planning

end Celerp
