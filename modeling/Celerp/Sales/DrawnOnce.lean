/-
  Stock drawn by one line is not drawn again by another, and where it is.

  The lines that span lots share one tally of what the lots have left, so together
  they draw no more of a lot than is free of it.  A line within the free units of its
  lot, or on a lot that may not be split, is costed on that lot directly: it neither
  reads the tally nor moves it.  What is free of the lot is by the claims read when the
  line is costed (`pooled`).

  * `directTakes` is what the lines costed on a lot directly take of it, and
    `leftBySpanning` what the spanning lines leave of its free units, each taking in
    turn what its own holds do not cover (`asked`);
  * `allocated_once_iff`: no more is allocated of any lot than is free of it, and each
    line's quantity is allocated or provisional, exactly where the lines costed on a
    lot directly leave that much to the spanning ones (`DrawnOnce`).
-/
import Celerp.Lib.Grouping
import Celerp.Sales.LineCost
import Mathlib.Data.List.TakeWhile

namespace Celerp

open Grouping Tally

namespace CogsDoc
variable (D : CogsDoc)

/-! ## When stock is drawn once -/

/-- A line that is costed: its index, whether a line before it has read the pool, the
    line and the row it costs at. -/
structure CostedLine where
  index : ℕ
  pooled : Bool
  line : DocLine
  row : ItemRow

/-- Whether a line draws over the lots of its product. -/
def spans (c : CostedLine) : Bool := D.beyond c.pooled c.line c.row ∧ c.row.state.splittingAllowed

/-- The lines that are costed, of those from an index on: the first that spans reads the
    pool for those after it. -/
def costedFrom : ℕ → Bool → List DocLine → List CostedLine
  | _, _, [] => []
  | i, pooled, li :: lines =>
    match D.stockRow li with
    | none => costedFrom (i + 1) pooled lines
    | some row =>
      let c : CostedLine := ⟨i, pooled, li, row⟩
      c :: costedFrom (i + 1) (pooled || D.spans c) lines

/-- The lines of the document that are costed. -/
def costed : List CostedLine := D.costedFrom 0 false D.lines

/-- What is free of a line's lot when it is costed. -/
def freeAt (c : CostedLine) : ℚ := D.free c.pooled c.row.entityId

/-- What a line that does not span takes of the lot it is bound to. -/
def directTake (c : CostedLine) : ℚ :=
  if D.beyond c.pooled c.line c.row then if EPS < D.freeAt c then D.freeAt c else 0
  else c.line.quantity

/-- What the lines that do not span take of a lot. -/
def directTakes (lines : List CostedLine) (lot : String) : ℚ :=
  total lot ((lines.filter (!D.spans ·)).map fun c => (c.row.entityId, D.directTake c))

/-- The lots a spanning line draws before the free ones: its own holds, then its lot. -/
def ownLots (c : CostedLine) : List Lot :=
  let sources := D.spanSources c.index c.line c.row
  sources.own ++ sources.primary.toList

/-- What a spanning line asks of one of these: what the holds before it do not cover. -/
def asked (c : CostedLine) (lot : Lot) : ℚ :=
  if lot ∈ D.ownLots c then
    leftAfter D.remaining ((D.ownLots c).takeWhile (· ≠ lot)) c.line.quantity
  else 0

/-- What the spanning lines leave of what a lot has. -/
def leftBySpanning (lines : List CostedLine) (lot : Lot) (has : ℚ) : ℚ :=
  (lines.filter (D.spans ·)).foldl (fun has c => has - takeOf lot (D.asked c lot) has) has

/-- Some line is costed on the lot directly. -/
def CostedDirectly (lot : String) : Prop :=
  ∃ c ∈ D.costed, D.spans c = false ∧ c.row.entityId = lot

/-- The lines costed on a lot directly take no more than the spanning ones leave of it,
    and a lot that may not be split has nothing free or more than the tolerance. -/
def DrawnOnce : Prop :=
  (∀ row ∈ D.items.rows, D.CostedDirectly row.entityId →
    D.directTakes D.costed row.entityId ≤
      D.leftBySpanning D.costed (D.asLot row) (D.free true row.entityId)) ∧
  ∀ c ∈ D.costed, D.beyond c.pooled c.line c.row → c.row.state.splittingAllowed = false →
    D.freeAt c = 0 ∨ EPS < D.freeAt c

/-! ## The lots a spanning line draws -/

section
variable {D} {i : ℕ} {li : DocLine} {row : ItemRow} {lot other : Lot}

theorem quantityOf_row (h : row ∈ D.items.rows) : D.quantityOf row.entityId = row.state.quantity := by
  simp [quantityOf, Items.get?_of_mem h]

theorem mem_pool (h : lot ∈ D.docLotPool) : ∃ row ∈ D.items.rows, D.asLot row = lot :=
  List.mem_map.1 h

theorem pool_nodup : (D.docLotPool.map (·.entityId)).Nodup := by
  have h : D.docLotPool.map (·.entityId) = D.items.rows.map (·.entityId) := by
    simp [docLotPool, List.map_map, Function.comp_def, asLot]
  exact h ▸ D.items.nodup

theorem pool_inj (h : lot ∈ D.docLotPool) (h' : other ∈ D.docLotPool)
    (heq : lot.entityId = other.entityId) : lot = other :=
  List.inj_on_of_nodup_map pool_nodup h h' heq

theorem stockRow_eq_some (h : D.stockRow li = some row) :
    0 < li.quantity ∧ li.itemId = some row.entityId ∧ row ∈ D.items.rows := by
  unfold stockRow at h
  split_ifs at h with hq
  obtain ⟨hrow, -⟩ := Option.filter_eq_some_iff.1 h
  obtain ⟨id, hid, hget⟩ := Option.bind_eq_some_iff.1 hrow
  obtain ⟨hmem, rfl⟩ := Items.mem_of_get? hget
  exact ⟨not_le.1 hq, hid, hmem⟩

theorem mem_attributedTo {lots : List Lot} {lines : List DocLine} :
    lot ∈ attributedTo lots lines i ↔
      lot ∈ lots ∧ lot.claim = some .reserved ∧ attributeHold lines lot = .line i := by
  simp [attributedTo]

theorem spanSources_own : (D.spanSources i li row).own = (lineDrawSources D.lines i li D.docLotPool
    (resolvePickMethod row.state D.inventoryMethod)).own := by
  simp only [spanSources]
  split_ifs <;> rfl

theorem spanSources_free : (D.spanSources i li row).free = (lineDrawSources D.lines i li D.docLotPool
    (resolvePickMethod row.state D.inventoryMethod)).free := by
  simp only [spanSources]
  split_ifs <;> rfl

/-- A line's own holds are attributed to it. -/
theorem mem_own (h : lot ∈ (D.spanSources i li row).own) :
    lot ∈ attributedTo D.docLotPool D.lines i := by
  rw [spanSources_own] at h
  simp only [lineDrawSources, List.mem_append, (perm_sortedInventory _ _).mem_iff,
    List.mem_filter] at h
  exact h.elim And.left And.left

theorem own_nodup : (D.spanSources i li row).own.Nodup := by
  have hpool : D.docLotPool.Nodup := List.Nodup.of_map _ pool_nodup
  have hheld : (attributedTo D.docLotPool D.lines i).Nodup := hpool.filter _
  rw [spanSources_own]
  simp only [lineDrawSources]
  refine List.Perm.nodup_iff ?_ |>.1 hheld
  exact ((perm_sortedInventory _ _).append_left _ |>.trans (List.filter_append_perm _ _)).symm

/-- The free lots a line may draw no line binds. -/
theorem mem_free (h : lot ∈ (D.spanSources i li row).free) :
    lot ∈ D.docLotPool ∧ lot.claim = some .free ∧ li.itemId ≠ some lot.entityId ∧
      lot.entityId ∉ docBoundLots (D.lines.eraseIdx i) := by
  rw [spanSources_free] at h
  simp only [lineDrawSources, List.mem_filter, decide_eq_true_eq, Bool.not_eq_true',
    decide_eq_false_iff_not] at h
  exact ⟨h.1, h.2.1, h.2.2.1, h.2.2.2.1⟩

theorem free_nodup : (D.spanSources i li row).free.Nodup := by
  rw [spanSources_free]
  exact (List.Nodup.of_map _ pool_nodup).filter _

theorem not_attributed_of_not_heldElsewhere {j : ℕ} (hj : j ≠ i)
    (h : ¬D.heldElsewhere i lot.entityId) : lot ∉ attributedTo D.docLotPool D.lines j := by
  intro hmem
  obtain ⟨hpool, hclaim, hline⟩ := mem_attributedTo.1 hmem
  refine h (List.any_eq_true.2 ⟨lot, List.mem_filter.2 ⟨hpool, by simp [hclaim]⟩, ?_⟩)
  simp [hline, hj]

/-- The lot a spanning line names is drawn where no line holds it. -/
theorem mem_primary (hrow : D.stockRow li = some row) (h : lot ∈ (D.spanSources i li row).primary) :
    lot ∈ D.docLotPool ∧ lot.entityId = row.entityId ∧ lot ∉ (D.spanSources i li row).own ∧
      ∀ j ≠ i, lot ∉ attributedTo D.docLotPool D.lines j := by
  obtain ⟨-, hid, hmem⟩ := stockRow_eq_some hrow
  have hlot : D.asLot row ∈ D.docLotPool := List.mem_map_of_mem hmem
  rw [spanSources_own]
  simp only [spanSources] at h
  split_ifs at h with hcase
  · -- the fallback: the lot the line names, whatever its status
    obtain ⟨-, hown, helse⟩ := hcase
    have hfind : ∃ l, D.docLotPool.find? (·.entityId = row.entityId) = some l := by
      rw [← Option.isSome_iff_exists, List.find?_isSome]
      exact ⟨_, hlot, by simp [asLot]⟩
    obtain ⟨l, hl⟩ := hfind
    have hpool := List.mem_of_find?_eq_some hl
    have hid' : l.entityId = row.entityId := by simpa using List.find?_some hl
    rw [hl, Option.getD_some, Option.mem_def, Option.some_inj] at h
    subst h
    refine ⟨hpool, hid', fun hmem' => hown ?_, fun j hj => ?_⟩
    · exact hid' ▸ List.mem_map_of_mem hmem'
    · exact not_attributed_of_not_heldElsewhere hj (hid' ▸ helse)
  · simp only [lineDrawSources] at h
    obtain ⟨hfind, hfree⟩ := Option.filter_eq_some_iff.1 h
    have hclaim : lot.claim = some .free := by simpa using hfree
    have hbound : li.itemId = some lot.entityId := by simpa using List.find?_some hfind
    have hnone : ∀ j, lot ∉ attributedTo D.docLotPool D.lines j := by
      intro j hj
      have := (mem_attributedTo.1 hj).2.1
      rw [hclaim] at this
      exact absurd this (by decide)
    refine ⟨List.mem_of_find?_eq_some hfind, ?_, fun hown => ?_, fun j _ => hnone j⟩
    · exact (Option.some_inj.1 (hid.symm.trans hbound)).symm
    · rw [← spanSources_own] at hown
      exact hnone i (mem_own hown)

end

/-! ## What a spanning line takes -/

section
variable {D} {i : ℕ} {c c' : CostedLine} {lot : Lot} {r : Remaining}

theorem costedFrom_of_none {pooled : Bool} {li : DocLine} (h : D.stockRow li = none)
    (lines : List DocLine) :
    D.costedFrom i pooled (li :: lines) = D.costedFrom (i + 1) pooled lines := by
  simp [costedFrom, h]

theorem costedFrom_of_some {pooled : Bool} {li : DocLine} {row : ItemRow} (h : D.stockRow li = some row)
    (lines : List DocLine) : D.costedFrom i pooled (li :: lines) =
      ⟨i, pooled, li, row⟩ :: D.costedFrom (i + 1) (pooled || D.spans ⟨i, pooled, li, row⟩) lines := by
  simp [costedFrom, h]

theorem mem_costedFrom : ∀ {i : ℕ} {pooled : Bool} {lines : List DocLine},
    c ∈ D.costedFrom i pooled lines →
      (∃ k, c.index = i + k ∧ lines[k]? = some c.line) ∧ D.stockRow c.line = some c.row
  | _, _, [], h => absurd h List.not_mem_nil
  | i, pooled, li :: lines, h => by
    have later : ∀ {pooled' : Bool}, c ∈ D.costedFrom (i + 1) pooled' lines →
        (∃ k, c.index = i + k ∧ (li :: lines)[k]? = some c.line) ∧ D.stockRow c.line = some c.row := by
      intro pooled' h
      obtain ⟨⟨k, hindex, hline⟩, hrow⟩ := mem_costedFrom h
      exact ⟨⟨k + 1, by omega, hline⟩, hrow⟩
    cases hrow : D.stockRow li with
    | none => exact later (costedFrom_of_none hrow lines ▸ h)
    | some row =>
      rw [costedFrom_of_some hrow] at h
      rcases List.mem_cons.1 h with rfl | h
      · exact ⟨⟨0, rfl, rfl⟩, hrow⟩
      · exact later h

theorem costed_line (h : c ∈ D.costed) :
    D.lines[c.index]? = some c.line ∧ D.stockRow c.line = some c.row := by
  obtain ⟨⟨k, hindex, hline⟩, hrow⟩ := mem_costedFrom h
  rw [Nat.zero_add] at hindex
  exact ⟨hindex ▸ hline, hrow⟩

theorem costedFrom_nodup : ∀ {i : ℕ} {pooled : Bool} {lines : List DocLine},
    ((D.costedFrom i pooled lines).map (·.index)).Nodup
  | _, _, [] => List.nodup_nil
  | i, pooled, li :: lines => by
    cases hrow : D.stockRow li with
    | none => exact costedFrom_of_none hrow lines ▸ costedFrom_nodup
    | some row =>
      rw [costedFrom_of_some hrow, List.map_cons, List.nodup_cons]
      refine ⟨fun hmem => ?_, costedFrom_nodup⟩
      obtain ⟨c, hc, heq⟩ := List.mem_map.1 hmem
      obtain ⟨⟨k, hindex, -⟩, -⟩ := mem_costedFrom hc
      simp only at heq
      omega

theorem costed_eq (h : c ∈ D.costed) (h' : c' ∈ D.costed) (heq : c.index = c'.index) : c = c' :=
  List.inj_on_of_nodup_map costedFrom_nodup h h' heq

/-- The lots a spanning line draws, in order. -/
def order (D : CogsDoc) (c : CostedLine) : List Lot :=
  D.ownLots c ++ sortedInventory (D.spanSources c.index c.line c.row).free
    (resolvePickMethod c.row.state D.inventoryMethod)

theorem mem_order_free (h : lot ∈ sortedInventory (D.spanSources c.index c.line c.row).free
    (resolvePickMethod c.row.state D.inventoryMethod)) :
    lot ∈ (D.spanSources c.index c.line c.row).free :=
  (perm_sortedInventory _ _).mem_iff.1 h

theorem order_subset (hrow : D.stockRow c.line = some c.row) (h : lot ∈ D.order c) :
    lot ∈ D.docLotPool := by
  rcases List.mem_append.1 h with h | h
  · rcases List.mem_append.1 h with h | h
    · exact (mem_attributedTo.1 (mem_own h)).1
    · exact (mem_primary hrow (Option.mem_toList.1 h)).1
  · exact (mem_free (mem_order_free h)).1

theorem order_nodup (hrow : D.stockRow c.line = some c.row) : (D.order c).Nodup := by
  obtain ⟨-, hid, -⟩ := stockRow_eq_some hrow
  have hfree := (perm_sortedInventory (D.spanSources c.index c.line c.row).free
    (resolvePickMethod c.row.state D.inventoryMethod)).nodup_iff.2 free_nodup
  have hprimary : (D.spanSources c.index c.line c.row).primary.toList.Nodup := by
    cases (D.spanSources c.index c.line c.row).primary <;> simp
  refine List.nodup_append'.2 ⟨List.nodup_append'.2 ⟨own_nodup, hprimary, ?_⟩, hfree, ?_⟩
  · intro l hown hprimary
    exact (mem_primary hrow (Option.mem_toList.1 hprimary)).2.2.1 hown
  · intro l hl hsorted
    obtain ⟨-, hclaim, hne, -⟩ := mem_free (mem_order_free hsorted)
    rcases List.mem_append.1 hl with hl | hl
    · have hreserved := (mem_attributedTo.1 (mem_own hl)).2.1
      exact absurd (hclaim.symm.trans hreserved) (by decide)
    · obtain ⟨-, hbound, -, -⟩ := mem_primary hrow (Option.mem_toList.1 hl)
      exact hne (hbound ▸ hid)

theorem order_ids_nodup (hrow : D.stockRow c.line = some c.row) :
    ((D.order c).map (·.entityId)).Nodup :=
  (order_nodup hrow).map_on fun _ h _ h' heq => pool_inj (order_subset hrow h) (order_subset hrow h') heq

theorem span_spec (hrow : D.stockRow c.line = some c.row) :
    DrawSpec r (D.order c) c.line.quantity (D.spanLineLots c.index c.line c.row r) :=
  draw_spec (order_ids_nodup hrow) fun _ _ => List.not_mem_nil

/-- A lot some line is costed on directly is no other line's free lot. -/
theorem not_free_of_costedDirectly (hc : c ∈ D.costed) (hspans : D.spans c = true)
    (hlot : D.CostedDirectly lot.entityId) : lot ∉ (D.spanSources c.index c.line c.row).free := by
  intro hfree
  obtain ⟨d, hd, hdirect, hid⟩ := hlot
  obtain ⟨-, -, -, hothers⟩ := mem_free hfree
  have hne : d.index ≠ c.index := by
    intro heq
    rw [costed_eq hd hc heq, hspans] at hdirect
    exact absurd hdirect (by decide)
  obtain ⟨hline, hrow⟩ := costed_line hd
  refine hothers (List.mem_filterMap.2 ⟨d.line, ?_, ?_⟩)
  · exact List.mem_eraseIdx_iff_getElem?.2 ⟨d.index, hne, hline⟩
  · rw [(stockRow_eq_some hrow).2.1, hid]

/-- What the lines from an index on hold is untouched. -/
def Untouched (D : CogsDoc) (i : ℕ) (r : Remaining) : Prop :=
  ∀ j, i ≤ j → ∀ lot ∈ attributedTo D.docLotPool D.lines j, avail r lot = avail D.remaining lot

/-- A spanning line leaves the holds of the others as they are. -/
theorem Untouched.span (h : D.Untouched c.index r) (hrow : D.stockRow c.line = some c.row) :
    D.Untouched (c.index + 1) (D.spanLineLots c.index c.line c.row r).remaining := by
  intro j hj lot hlot
  obtain ⟨hpool, hclaim, hline⟩ := mem_attributedTo.1 hlot
  have hnot : lot ∉ D.order c := by
    intro hmem
    rcases List.mem_append.1 hmem with hmem | hmem
    · rcases List.mem_append.1 hmem with hmem | hmem
      · have hown := (mem_attributedTo.1 (mem_own hmem)).2.2
        rw [hline, Holder.line.injEq] at hown
        omega
      · exact (mem_primary hrow (Option.mem_toList.1 hmem)).2.2.2 j (by omega) hlot
    · have hfree := (mem_free (mem_order_free hmem)).2.1
      exact absurd (hclaim.symm.trans hfree) (by decide)
  have hids : lot.entityId ∉ (D.order c).map (·.entityId) := by
    intro hmem
    obtain ⟨l, hl, heq⟩ := List.mem_map.1 hmem
    exact hnot (pool_inj (order_subset hrow hl) hpool heq ▸ hl)
  rw [(span_spec hrow).avail_eq lot, total_takesOf_of_not_mem hids, sub_zero]
  · exact h j (by omega) lot hlot
  · intro l hl heq
    rw [pool_inj (order_subset hrow hl) hpool heq]

theorem takeWhile_split {α : Type*} [DecidableEq α] {a : α} {l : List α} (more : List α) (h : a ∈ l) :
    ∃ after, (l ++ more).takeWhile (· ≠ a) = l.takeWhile (· ≠ a) ∧
      l = l.takeWhile (· ≠ a) ++ a :: after := by
  obtain ⟨before, after, rfl, hbefore⟩ := List.eq_append_cons_of_mem h
  have hpos : ∀ b ∈ before, decide (b ≠ a) = true := by
    intro b hb
    have hne : b ≠ a := fun heq => hbefore (heq ▸ hb)
    simpa using hne
  refine ⟨after, ?_, ?_⟩
  · rw [List.append_assoc, List.takeWhile_append_of_pos hpos, List.takeWhile_append_of_pos hpos]
    simp
  · rw [List.takeWhile_append_of_pos hpos]
    simp

/-- What a line draws before one of its own lots are its holds. -/
theorem own_of_before {l : Lot} (hlot : lot ∈ D.ownLots c)
    (h : l ∈ (D.ownLots c).takeWhile (· ≠ lot)) : l ∈ (D.spanSources c.index c.line c.row).own := by
  have hne : l ≠ lot := by simpa using List.mem_takeWhile_imp h
  rcases List.mem_append.1 (List.takeWhile_subset _ h) with hown | hprimary
  · exact hown
  · -- the bound lot comes last: the lot itself is a hold, and stands before it
    have hlot' : lot ∈ (D.spanSources c.index c.line c.row).own := by
      refine (List.mem_append.1 hlot).resolve_right fun hmem => hne ?_
      exact Option.some_inj.1 ((Option.mem_toList.1 hprimary).symm.trans (Option.mem_toList.1 hmem))
    obtain ⟨-, heq, -⟩ := takeWhile_split (D.spanSources c.index c.line c.row).primary.toList hlot'
    rw [ownLots, heq] at h
    exact List.takeWhile_subset _ h

theorem left_before (hr : D.Untouched c.index r) (hlot : lot ∈ D.ownLots c) :
    leftAfter r ((D.ownLots c).takeWhile (· ≠ lot)) c.line.quantity = D.asked c lot := by
  rw [asked, if_pos hlot]
  exact leftAfter_congr fun l hl => hr c.index le_rfl l (mem_own (own_of_before hlot hl))

/-- **What a spanning line takes of a lot**: what `takeOf` gives for what it asks, which
    is `asked` for a lot some line is costed on directly. -/
theorem span_takes (hc : c ∈ D.costed) (hspans : D.spans c = true)
    (hr : D.Untouched c.index r) (hlot : lot ∈ D.docLotPool) :
    ∃ x, total lot.entityId (D.spanLineLots c.index c.line c.row r).takes = takeOf lot x (avail r lot) ∧
      avail (D.spanLineLots c.index c.line c.row r).remaining lot =
        avail r lot - takeOf lot x (avail r lot) ∧
      (D.CostedDirectly lot.entityId → x = D.asked c lot) := by
  obtain ⟨-, hrow⟩ := costed_line hc
  have hspec : DrawSpec r _ _ _ := span_spec hrow
  have hquantity : ∀ l ∈ D.order c, l.entityId = lot.entityId → l.quantity = lot.quantity :=
    fun l hl heq => by rw [pool_inj (order_subset hrow hl) hlot heq]
  have hsplit : ∀ before after, D.order c = before ++ lot :: after →
      total lot.entityId (takesOf r (D.order c) c.line.quantity) =
        takeOf lot (leftAfter r before c.line.quantity) (avail r lot) := by
    intro before after heq
    have hids := order_ids_nodup hrow
    rw [heq] at hids ⊢
    exact total_takesOf_split hids
  by_cases hown : lot ∈ D.ownLots c
  · obtain ⟨after, -, heq⟩ := takeWhile_split [] hown
    have htotal := hsplit _ (after ++ sortedInventory (D.spanSources c.index c.line c.row).free
      (resolvePickMethod c.row.state D.inventoryMethod)) (by
        conv_lhs => rw [order, heq]
        rw [List.append_assoc, List.cons_append])
    rw [left_before hr hown] at htotal
    exact ⟨_, (hspec.total_takes _).trans htotal, by rw [hspec.avail_eq lot hquantity, htotal],
      fun _ => rfl⟩
  · have hasked : D.asked c lot = 0 := if_neg hown
    by_cases hmem : lot ∈ D.order c
    · obtain ⟨before, after, heq⟩ := List.append_of_mem hmem
      have htotal := hsplit before after heq
      refine ⟨_, (hspec.total_takes _).trans htotal, by rw [hspec.avail_eq lot hquantity, htotal], ?_⟩
      intro hdirect
      have hfree := (List.mem_append.1 hmem).resolve_left hown
      exact absurd (mem_order_free hfree) (not_free_of_costedDirectly hc hspans hdirect)
    · have hids : lot.entityId ∉ (D.order c).map (·.entityId) := by
        intro h
        obtain ⟨l, hl, heq⟩ := List.mem_map.1 h
        exact hmem (pool_inj (order_subset hrow hl) hlot heq ▸ hl)
      have hzero : total lot.entityId (takesOf r (D.order c) c.line.quantity) = 0 :=
        total_takesOf_of_not_mem hids
      refine ⟨0, ?_, ?_, fun _ => hasked.symm⟩
      · rw [hspec.total_takes, hzero, takeOf_of_left_le EPS_pos.le]
      · rw [hspec.avail_eq lot hquantity, hzero, takeOf_of_left_le EPS_pos.le]

end

/-! ## The loop -/

section
variable {D} {c : CostedLine} {lot : Lot} {pool : Option Remaining}

@[simp] theorem left_some (r : Remaining) : D.left (some r) = r := rfl

theorem lineCost_span (hpool : pool.isSome = c.pooled) (hspans : D.spans c = true) :
    (D.lineCost true c.index c.line c.row pool).1.takes =
        (D.spanLineLots c.index c.line c.row (D.left pool)).takes ∧
      (D.lineCost true c.index c.line c.row pool).1.provisionalQty =
        (D.spanLineLots c.index c.line c.row (D.left pool)).short ∧
      (D.lineCost true c.index c.line c.row pool).2 =
        some (D.spanLineLots c.index c.line c.row (D.left pool)).remaining := by
  have hroute : true = true ∧ D.beyond pool.isSome c.line c.row = true ∧
      c.row.state.splittingAllowed = true := by
    simpa [spans, hpool] using hspans
  unfold lineCost
  rw [if_pos hroute]
  refine ⟨?_, rfl, rfl⟩
  simp [LineCost.takes, Drawn.takes, Function.comp_def]

/-- A line that does not span takes what it takes of its own lot, and moves no tally. -/
theorem lineCost_direct (hpool : pool.isSome = c.pooled) (hspans : D.spans c = false) (id : String) :
    total id (D.lineCost true c.index c.line c.row pool).1.takes =
        (if c.row.entityId = id then D.directTake c else 0) ∧
      (D.lineCost true c.index c.line c.row pool).2 = pool := by
  have hroute : ¬(true = true ∧ D.beyond c.pooled c.line c.row = true ∧
      c.row.state.splittingAllowed = true) := by
    simpa [spans] using hspans
  unfold lineCost
  rw [hpool, if_neg hroute]
  by_cases hbeyond : D.beyond c.pooled c.line c.row = true
  · rw [if_pos ⟨rfl, hbeyond⟩]
    refine ⟨?_, rfl⟩
    rw [directTake, if_pos hbeyond]
    by_cases hfree : EPS < D.free c.pooled c.row.entityId
    · simp [LineCost.takes, freeAt, hfree]
    · simp [LineCost.takes, freeAt, hfree]
  · rw [if_neg fun h => hbeyond h.2]
    simp [LineCost.takes, directTake, hbeyond]

/-- A line's quantity is allocated or provisional, but for what the tolerance drops of a
    lot that may not be split. -/
theorem lineCost_sum (hpool : pool.isSome = c.pooled) (hrow : D.stockRow c.line = some c.row) :
    ((D.lineCost true c.index c.line c.row pool).1.takes.map Prod.snd).sum +
        (D.lineCost true c.index c.line c.row pool).1.provisionalQty = c.line.quantity ↔
      (D.beyond c.pooled c.line c.row → c.row.state.splittingAllowed = false →
        D.freeAt c = 0 ∨ EPS < D.freeAt c) := by
  by_cases hspans : D.spans c = true
  · have hroute : D.beyond c.pooled c.line c.row = true ∧ c.row.state.splittingAllowed = true := by
      simpa [spans] using hspans
    obtain ⟨htakes, hshort, -⟩ := lineCost_span hpool hspans
    have hspec : DrawSpec (D.left pool) _ _ _ := span_spec hrow
    have hleft : 0 ≤ leftAfter (D.left pool) (D.order c) c.line.quantity :=
      leftAfter_nonneg (stockRow_eq_some hrow).1.le
    rw [htakes, hshort, hspec.sum_takes, hspec.short_eq, max_eq_right hleft, hroute.2]
    simp
  · have hroute : ¬(true = true ∧ D.beyond c.pooled c.line c.row = true ∧
        c.row.state.splittingAllowed = true) := by
      simpa [spans] using hspans
    unfold lineCost
    rw [hpool, if_neg hroute]
    by_cases hbeyond : D.beyond c.pooled c.line c.row = true
    · have hsplit : c.row.state.splittingAllowed = false := by simpa [hbeyond] using hroute
      rw [if_pos ⟨rfl, hbeyond⟩]
      by_cases hfree : EPS < D.free c.pooled c.row.entityId
      · simp [LineCost.takes, freeAt, hfree]
      · simp [LineCost.takes, freeAt, hfree, hbeyond, hsplit]
    · rw [if_neg fun h => hbeyond h.2]
      simp [LineCost.takes, hbeyond]

end

section
variable {D} {lot : Lot}

theorem directTakes_cons (c : CostedLine) (cs : List CostedLine) (id : String) :
    D.directTakes (c :: cs) id =
      (if D.spans c = false ∧ c.row.entityId = id then D.directTake c else 0) + D.directTakes cs id := by
  by_cases hspans : D.spans c = true
  · simp [directTakes, hspans]
  · simp [directTakes, hspans]

theorem leftBySpanning_cons (c : CostedLine) (cs : List CostedLine) (has : ℚ) :
    D.leftBySpanning (c :: cs) lot has = D.leftBySpanning cs lot
      (if D.spans c then has - takeOf lot (D.asked c lot) has else has) := by
  by_cases hspans : D.spans c = true
  · simp [leftBySpanning, hspans]
  · simp [leftBySpanning, hspans]

/-- What the lines from an index on draw of a lot some line is costed on directly. -/
theorem total_drawLines (hlot : lot ∈ D.docLotPool) (hdirect : D.CostedDirectly lot.entityId) :
    ∀ {i : ℕ} {lines : List DocLine} {pool : Option Remaining}, D.Untouched i (D.left pool) →
      (∀ c ∈ D.costedFrom i pool.isSome lines, c ∈ D.costed) →
      total lot.entityId ((D.drawLines true i lines pool).flatMap (·.2.takes)) =
        D.directTakes (D.costedFrom i pool.isSome lines) lot.entityId + (max 0 (avail (D.left pool) lot) -
          D.leftBySpanning (D.costedFrom i pool.isSome lines) lot (max 0 (avail (D.left pool) lot)))
  | _, [], pool, _, _ => by simp [drawLines, costedFrom, directTakes, leftBySpanning]
  | i, li :: lines, pool, hr, hsub => by
    cases hrow : D.stockRow li with
    | none =>
      simp only [drawLines, hrow, costedFrom_of_none hrow] at hsub ⊢
      exact total_drawLines hlot hdirect (fun j hj => hr j (by omega)) hsub
    | some row =>
      simp only [drawLines, hrow, costedFrom_of_some hrow, List.flatMap_cons, total_append] at hsub ⊢
      rw [List.forall_mem_cons] at hsub
      rw [directTakes_cons, leftBySpanning_cons]
      by_cases hspans : D.spans ⟨i, pool.isSome, li, row⟩ = true
      · obtain ⟨htakes, -, hrest⟩ := lineCost_span rfl hspans
        obtain ⟨x, htotal, havail, hx⟩ := span_takes hsub.1 hspans hr hlot
        have hrest' : D.Untouched (i + 1)
            (D.left (some (D.spanLineLots i li row (D.left pool)).remaining)) :=
          Untouched.span (c := ⟨i, pool.isSome, li, row⟩) hr hrow
        have hih := total_drawLines hlot hdirect hrest' (by simpa [hspans] using hsub.2)
        simp only [Option.isSome_some, left_some] at htakes hrest htotal havail hih
        rw [htakes, htotal, hrest, hih, havail, max_sub_takeOf, hx hdirect, if_pos hspans,
          if_neg (by simp [hspans]), takeOf_max, hspans, Bool.or_true]
        ring
      · rw [Bool.not_eq_true] at hspans
        obtain ⟨htotal, hrest⟩ := lineCost_direct rfl hspans lot.entityId
        rw [hspans, Bool.or_false] at hsub ⊢
        have hih := total_drawLines hlot hdirect (fun j hj => hr j (by omega)) hsub.2
        simp only at htotal hrest
        rw [htotal, hrest, hih]
        simp only [true_and, Bool.false_eq_true, if_false]
        ring

/-- Of a lot no line is costed on directly the lines draw no more than it has. -/
theorem total_drawLines_le (hlot : lot ∈ D.docLotPool) (hdirect : ¬D.CostedDirectly lot.entityId) :
    ∀ {i : ℕ} {lines : List DocLine} {pool : Option Remaining}, D.Untouched i (D.left pool) →
      (∀ c ∈ D.costedFrom i pool.isSome lines, c ∈ D.costed) →
      total lot.entityId ((D.drawLines true i lines pool).flatMap (·.2.takes)) ≤
        max 0 (avail (D.left pool) lot)
  | _, [], pool, _, _ => by simp [drawLines]
  | i, li :: lines, pool, hr, hsub => by
    cases hrow : D.stockRow li with
    | none =>
      simp only [drawLines, hrow, costedFrom_of_none hrow] at hsub ⊢
      exact total_drawLines_le hlot hdirect (fun j hj => hr j (by omega)) hsub
    | some row =>
      simp only [drawLines, hrow, costedFrom_of_some hrow, List.flatMap_cons, total_append] at hsub ⊢
      rw [List.forall_mem_cons] at hsub
      by_cases hspans : D.spans ⟨i, pool.isSome, li, row⟩ = true
      · obtain ⟨htakes, -, hrest⟩ := lineCost_span rfl hspans
        obtain ⟨x, htotal, havail, -⟩ := span_takes hsub.1 hspans hr hlot
        have hrest' : D.Untouched (i + 1)
            (D.left (some (D.spanLineLots i li row (D.left pool)).remaining)) :=
          Untouched.span (c := ⟨i, pool.isSome, li, row⟩) hr hrow
        have hih := total_drawLines_le hlot hdirect hrest' (by simpa [hspans] using hsub.2)
        simp only at htakes hrest htotal havail
        rw [left_some, havail, max_sub_takeOf] at hih
        rw [htakes, htotal, hrest]
        linarith
      · rw [Bool.not_eq_true] at hspans
        obtain ⟨htotal, hrest⟩ := lineCost_direct rfl hspans lot.entityId
        rw [hspans, Bool.or_false] at hsub
        have hih := total_drawLines_le hlot hdirect (fun j hj => hr j (by omega)) hsub.2
        have hne : row.entityId ≠ lot.entityId := fun heq => hdirect ⟨_, hsub.1, hspans, heq⟩
        simp only [if_neg hne] at htotal hrest
        rw [htotal, hrest, zero_add]
        exact hih

/-- Nothing is drawn of what is no item. -/
theorem total_drawLines_of_not_item {id : String} (hid : ∀ row ∈ D.items.rows, row.entityId ≠ id) :
    ∀ {i : ℕ} {lines : List DocLine} {pool : Option Remaining},
      total id ((D.drawLines true i lines pool).flatMap (·.2.takes)) = 0
  | _, [], _ => rfl
  | i, li :: lines, pool => by
    cases hrow : D.stockRow li with
    | none =>
      simp only [drawLines, hrow]
      exact total_drawLines_of_not_item hid
    | some row =>
      simp only [drawLines, hrow, List.flatMap_cons, total_append]
      rw [total_drawLines_of_not_item hid, add_zero]
      by_cases hspans : D.spans ⟨i, pool.isSome, li, row⟩ = true
      · obtain ⟨htakes, -, -⟩ := lineCost_span rfl hspans
        have hspec := span_spec (D := D) (c := ⟨i, pool.isSome, li, row⟩) (r := D.left pool) hrow
        simp only at htakes
        rw [htakes, hspec.total_takes, total_takesOf_of_not_mem]
        intro hmem
        obtain ⟨l, hl, rfl⟩ := List.mem_map.1 hmem
        obtain ⟨row', hrow', rfl⟩ := mem_pool (order_subset (c := ⟨i, pool.isSome, li, row⟩) hrow hl)
        exact hid row' hrow' rfl
      · rw [Bool.not_eq_true] at hspans
        obtain ⟨htotal, -⟩ := lineCost_direct rfl hspans id
        simp only [if_neg (hid row (stockRow_eq_some hrow).2.2)] at htotal
        exact htotal

/-- A costed line reads the pool where it spans, and leaves it read. -/
theorem lineCost_pool (c : CostedLine) (pool : Option Remaining) (hpool : pool.isSome = c.pooled) :
    (D.lineCost true c.index c.line c.row pool).2.isSome = (c.pooled || D.spans c) := by
  by_cases hspans : D.spans c = true
  · rw [(lineCost_span hpool hspans).2.2, hspans]
    simp
  · rw [Bool.not_eq_true] at hspans
    rw [(lineCost_direct hpool hspans "").2, hspans, hpool, Bool.or_false]

/-- The lines that are costed and what they draw stand in the same order. -/
theorem drawLines_sums : ∀ {i : ℕ} {lines : List DocLine} {pool : Option Remaining},
    (∀ c ∈ D.costedFrom i pool.isSome lines, c ∈ D.costed) →
    List.Forall₂ (fun c d => D.lines[d.1]? = some c.line ∧
        ((d.2.takes.map Prod.snd).sum + d.2.provisionalQty = c.line.quantity ↔
          (D.beyond c.pooled c.line c.row → c.row.state.splittingAllowed = false →
            D.freeAt c = 0 ∨ EPS < D.freeAt c)))
      (D.costedFrom i pool.isSome lines) (D.drawLines true i lines pool)
  | _, [], pool, _ => .nil
  | i, li :: lines, pool, hsub => by
    cases hrow : D.stockRow li with
    | none =>
      simp only [drawLines, hrow, costedFrom_of_none hrow] at hsub ⊢
      exact drawLines_sums hsub
    | some row =>
      have hpooled := lineCost_pool (D := D) ⟨i, pool.isSome, li, row⟩ pool rfl
      simp only [drawLines, hrow, costedFrom_of_some hrow] at hsub hpooled ⊢
      rw [List.forall_mem_cons, ← hpooled] at hsub
      rw [← hpooled]
      exact .cons ⟨(costed_line hsub.1).1, lineCost_sum (c := ⟨i, pool.isSome, li, row⟩) rfl hrow⟩
        (drawLines_sums hsub.2)

end

/-! ## The document -/

section
variable {D} {result : CogsResult}

theorem free_of_avail {row : ItemRow} (h : row ∈ D.items.rows) :
    max 0 (avail D.remaining (D.asLot row)) = D.free true row.entityId := by
  have hquantity : (D.asLot row).quantity = row.state.quantity := rfl
  have hid : (D.asLot row).entityId = row.entityId := rfl
  rw [free, quantityOf_row h, avail, hquantity, hid, remaining, claimsRead, if_pos rfl]
  split_ifs with hclaims
  · simp [Items.get?_of_mem h, claimed]
  · have hnone : total row.entityId D.claims = 0 :=
      total_eq_zero fun t ht heq => hclaims (heq ▸ List.mem_map_of_mem ht)
    simp [hnone]

theorem allocatedFrom_eq (h : D.computeDocCogs true = .ok result) (lot : String) :
    result.allocatedFrom lot =
      total lot ((D.drawLines true 0 D.lines none).flatMap (·.2.takes)) := by
  have hdraws := congrArg (List.flatMap fun c => c.2.1) (computeDocCogs_draws h)
  rw [List.flatMap_map, List.flatMap_map] at hdraws
  rw [CogsResult.allocatedFrom, hdraws]

/-- **No lot gives more than is free of it**, exactly where the lines costed on it
    directly leave that much to the spanning ones. -/
theorem allocatedFrom_le_iff (h : D.computeDocCogs true = .ok result) :
    (∀ lot, result.allocatedFrom lot ≤ D.free true lot) ↔
      ∀ row ∈ D.items.rows, D.CostedDirectly row.entityId →
        D.directTakes D.costed row.entityId ≤
          D.leftBySpanning D.costed (D.asLot row) (D.free true row.entityId) := by
  have hstart : D.Untouched 0 (D.left none) := fun _ _ _ _ => rfl
  have htotal : ∀ row ∈ D.items.rows, D.CostedDirectly row.entityId →
      result.allocatedFrom row.entityId = D.directTakes D.costed row.entityId +
        (D.free true row.entityId -
          D.leftBySpanning D.costed (D.asLot row) (D.free true row.entityId)) := by
    intro row hrow hdirect
    have hlot : D.asLot row ∈ D.docLotPool := List.mem_map_of_mem hrow
    rw [allocatedFrom_eq h, ← free_of_avail hrow]
    exact total_drawLines hlot hdirect hstart fun _ hc => hc
  constructor
  · intro hall row hrow hdirect
    have hle := hall row.entityId
    rw [htotal row hrow hdirect] at hle
    linarith
  · intro hdirects lot
    by_cases hitem : ∃ row ∈ D.items.rows, row.entityId = lot
    · obtain ⟨row, hrow, rfl⟩ := hitem
      by_cases hdirect : D.CostedDirectly row.entityId
      · have hle := hdirects row hrow hdirect
        rw [htotal row hrow hdirect]
        linarith
      · have hlot : D.asLot row ∈ D.docLotPool := List.mem_map_of_mem hrow
        rw [allocatedFrom_eq h, ← free_of_avail hrow]
        exact total_drawLines_le hlot hdirect hstart fun _ hc => hc
    · rw [allocatedFrom_eq h, total_drawLines_of_not_item fun row hrow heq => hitem ⟨row, hrow, heq⟩]
      exact le_max_left _ _

/-- **Each costed line's quantity is allocated or provisional**, but where the tolerance
    drops what is free of a lot that may not be split. -/
theorem allocated_whole_iff (h : D.computeDocCogs true = .ok result) :
    (∀ i a, (i, a) ∈ result.allocations → ∀ li, D.lines[i]? = some li →
        (a.takes.map Prod.snd).sum + a.provisionalQty = li.quantity) ↔
      ∀ c ∈ D.costed, D.beyond c.pooled c.line c.row → c.row.state.splittingAllowed = false →
        D.freeAt c = 0 ∨ EPS < D.freeAt c := by
  have hsums := @drawLines_sums D 0 D.lines none fun _ hc => hc
  have hline : (∀ i a, (i, a) ∈ result.allocations → ∀ li, D.lines[i]? = some li →
        (a.takes.map Prod.snd).sum + a.provisionalQty = li.quantity) ↔
      ∀ t ∈ result.allocations.map (fun a => (a.1, a.2.takes, a.2.provisionalQty)),
        ∀ li, D.lines[t.1]? = some li → (t.2.1.map Prod.snd).sum + t.2.2 = li.quantity := by
    simp only [List.forall_mem_map, Prod.forall]
  rw [hline, computeDocCogs_draws h, List.forall_mem_map]
  refine (forall_mem_of_forall₂ (fun c d hcd => ?_) hsums).symm
  rw [hcd.1]
  refine ⟨fun hfree li hli => ?_, fun hall => hcd.2.1 (hall c.line rfl)⟩
  obtain rfl := Option.some_inj.1 hli
  exact hcd.2.2 hfree

/-- **Stock drawn by one line is not drawn again by another** and each line's quantity is
    allocated or provisional, exactly where `DrawnOnce` holds. -/
theorem allocated_once_iff (D : CogsDoc) (result : CogsResult) (h : D.computeDocCogs true = .ok result) :
    ((∀ lot, result.allocatedFrom lot ≤ max 0 (D.quantityOf lot - D.claimed lot)) ∧
      ∀ i a, (i, a) ∈ result.allocations → ∀ li, D.lines[i]? = some li →
        (a.lots.map (·.qty)).sum + a.provisionalQty = li.quantity) ↔ D.DrawnOnce := by
  have hqty : ∀ a : Allocation, a.lots.map (·.qty) = a.takes.map Prod.snd := fun a => by
    simp [Allocation.takes, Function.comp_def]
  simp only [hqty]
  exact and_congr (allocatedFrom_le_iff h) (allocated_whole_iff h)

end

/-- A lot of owned stock of one product, at 10 a unit. -/
def stockLot (id : String) (quantity : ℚ) : ItemRow where
  entityId := id
  createdAt := ""
  consignedIn := false
  state := { LotCost.costed quantity (10 * quantity) [] false with
    sku := "ring", inventoryAccount := some "1200" }

/-- A document whose lines are bound to lots of 10 units each, on books where no other
    invoice holds any. -/
def ringInvoice (lines : List DocLine) : CogsDoc where
  items := ⟨[stockLot "item:a" 10, stockLot "item:b" 10, stockLot "item:c" 10], by decide⟩
  lines := lines
  docId := some "doc:1"
  claims := []
  namedClaims := []
  inventoryMethod := none
  currency := "USD"
  consignorOf := fun _ => none
  consignorPayable := .error .role

/-- Two lines of 6 on one lot of 10. -/
def twiceBound : CogsDoc :=
  ringInvoice [{ itemId := some "item:a", quantity := 6 }, { itemId := some "item:a", quantity := 6 }]

/-- A line of 4 on a lot of 10, and one of 15 on another. -/
def onceBound : CogsDoc :=
  ringInvoice [{ itemId := some "item:a", quantity := 4 }, { itemId := some "item:b", quantity := 15 }]

def onceBoundCost : CogsResult :=
  ⟨190, [(0, ⟨[⟨"item:a", 4, 10, some "1200"⟩], 0, 40⟩),
    (1, ⟨[⟨"item:b", 10, 10, some "1200"⟩, ⟨"item:c", 5, 10, some "1200"⟩], 0, 150⟩)],
    [("1200", 190)], true, []⟩

/-- Each line is within what is free of the lot, and together they are allocated 12 of
    its 10 units. -/
theorem twiceBound_drawn_twice :
    ∃ result, twiceBound.computeDocCogs true = .ok result ∧ ¬result.allocatedFrom "item:a" ≤
      max 0 (twiceBound.quantityOf "item:a" - twiceBound.claimed "item:a") := by
  refine ⟨⟨120, [(0, ⟨[⟨"item:a", 6, 10, some "1200"⟩], 0, 60⟩),
    (1, ⟨[⟨"item:a", 6, 10, some "1200"⟩], 0, 60⟩)], [("1200", 120)], false, []⟩, ?_, ?_⟩
  · decide +kernel
  · decide +kernel

theorem allocated_once_onceBound :
    ((∀ lot, onceBoundCost.allocatedFrom lot ≤
        max 0 (onceBound.quantityOf lot - onceBound.claimed lot)) ∧
      ∀ i a, (i, a) ∈ onceBoundCost.allocations → ∀ li, onceBound.lines[i]? = some li →
        (a.lots.map (·.qty)).sum + a.provisionalQty = li.quantity) ↔ onceBound.DrawnOnce :=
  allocated_once_iff onceBound onceBoundCost (by decide +kernel)

end CogsDoc

end Celerp
