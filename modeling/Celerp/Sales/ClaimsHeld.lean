/-
  Claims on stock not yet shipped never exceed the stock.

  * `TakesWithin` is what every part of the claims loop keeps: what it takes is
    positive, it is what the tally moves by, and the tally stays within what the lots
    hold (`claimMembers_within` up to `claimInvoices_within`);
  * `claims_bounded`: of each lot no more is claimed than it holds, a line claims no
    more than it has not shipped and for each allocated lot no more than was allocated
    of it, on lots reached from that lot by splits and merges; and an invoice finalized
    later leaves the claims of the earlier ones as they are where the goods of their
    lots are found in the same places with it as without it (`SameHolders`).
-/
import Celerp.Sales.Claims
import Mathlib.Data.List.ReduceOption
import Mathlib.Data.List.TakeWhile

namespace Celerp

open Grouping Tally Outcome

namespace ClaimBooks
variable (B : ClaimBooks)

/-- What claims hold of a lot. -/
def claimed (claims : List UnshippedClaim) (lot : String) : ℚ :=
  total lot (claims.map fun c => (c.lotId, c.qty))

/-- The claims of an invoice. -/
def claimsOf (claims : List UnshippedClaim) (docId : String) : List UnshippedClaim :=
  claims.filter (·.docId = docId)

/-- The claims of a line of an invoice. -/
def lineClaims (claims : List UnshippedClaim) (docId : String) (i : ℕ) : List UnshippedClaim :=
  (claimsOf claims docId).filter (·.line = i)

/-- What claims come to. -/
def claimedQty (claims : List UnshippedClaim) : ℚ := (claims.map (·.qty)).sum

/-- A lot that has anything on hand to claim. -/
def stocked (row : ItemRow) : Bool := (onHandValue row).isSome ∧ EPS < row.state.quantity

/-- The lots with anything to claim that hold the goods of an allocated lot, as they are
    found when these lots are. -/
def stockWhere (roots : List String) (lot : String) : List ItemRow :=
  ((B.items.heldWhere roots lot).map B.reading).filter stocked

/-- The goods of what invoices finalized before `later` were allocated are found in the
    same places whether the lots `later` was allocated are looked into or not. -/
def SameHolders (invoices more : OpenInvoices) (later : OpenInvoice) : Prop :=
  ∀ inv ∈ invoices.list, ¬FinalizedBy later inv → ∀ a ∈ inv.allocations, ∀ lot ∈ a.2.lots,
    B.stockWhere (allocatedLots invoices.list) lot.lotEntityId =
      B.stockWhere (allocatedLots more.list) lot.lotEntityId

/-! ## What is taken for an allocated lot -/

/-- What was taken, as a tally. -/
def takes (taken : List Taken) : List (String × ℚ) := taken.map fun t => (t.lotId, t.qty)

/-- The tally moves by what is taken, and stays within what the lots hold. -/
structure TakesWithin (used : Used) (moved : List (String × ℚ)) (used' : Used) : Prop where
  used_eq : ∀ lot, used' lot = used lot + total lot moved
  within : (∀ lot, used lot ≤ B.holds lot) → ∀ lot, used' lot ≤ B.holds lot
  pos : ∀ t ∈ moved, 0 < t.2

section
variable {B} {used used' used'' : Used} {moved more : List (String × ℚ)}

theorem TakesWithin.nil : B.TakesWithin used [] used :=
  ⟨fun _ => by simp, fun h => h, fun _ h => absurd h List.not_mem_nil⟩

theorem TakesWithin.append (h : B.TakesWithin used moved used') (h' : B.TakesWithin used' more used'') :
    B.TakesWithin used (moved ++ more) used'' where
  used_eq lot := by rw [h'.used_eq, h.used_eq, total_append, add_assoc]
  within hle := h'.within (h.within hle)
  pos := List.forall_mem_append.2 ⟨h.pos, h'.pos⟩

theorem TakesWithin.perm (h : B.TakesWithin used moved used') (hperm : more.Perm moved) :
    B.TakesWithin used more used' where
  used_eq lot := by rw [h.used_eq, total, total, ((hperm.map _).sum_eq)]
  within := h.within
  pos t ht := h.pos t (hperm.mem_iff.1 ht)

theorem TakesWithin.nonneg (h : B.TakesWithin used moved used') (hused : ∀ lot, 0 ≤ used lot) (lot : String) :
    0 ≤ used' lot := by
  rw [h.used_eq]
  exact add_nonneg (hused lot) (total_nonneg fun t ht => (h.pos t ht).le)

theorem TakesWithin.sum_nonneg (h : B.TakesWithin used moved used') : 0 ≤ (moved.map Prod.snd).sum := by
  refine List.sum_nonneg fun v hv => ?_
  obtain ⟨t, ht, rfl⟩ := List.mem_map.1 hv
  exact (h.pos t ht).le

/-- One lot taken from. -/
theorem TakesWithin.single {m : ItemRow} {row : ItemRow} {qty : ℚ} (hget : B.items.get? m.entityId = some row)
    (hm : B.reading row = m) (hvalue : (onHandValue m).isSome) (hqty : EPS < qty)
    (hle : qty ≤ m.state.quantity - used m.entityId) :
    B.TakesWithin used [(m.entityId, qty)]
      (Function.update used m.entityId (used m.entityId + qty)) where
  used_eq lot := by
    by_cases hlot : lot = m.entityId
    · subst hlot
      simp
    · simp [Function.update_of_ne hlot, Ne.symm hlot]
  within h lot := by
    by_cases hlot : lot = m.entityId
    · subst hlot
      have hholds : B.holds m.entityId = max 0 m.state.quantity := by
        simp [holds, hget, hm, hvalue]
      rw [Function.update_self, hholds]
      exact le_max_of_le_right (by linarith)
    · rw [Function.update_of_ne hlot]
      exact h lot
  pos t ht := by
    obtain rfl := List.mem_singleton.1 ht
    exact EPS_pos.trans hqty

/-- What is taken of the lots that hold an allocated lot's goods: no more than is wanted,
    of these lots, within what they hold. -/
theorem claimMembers_within (unitCost : ℚ) : ∀ (members : List ItemRow) (want : ℚ) (used : Used),
    (∀ m ∈ members, ∃ row, B.items.get? m.entityId = some row ∧ B.reading row = m) →
      B.TakesWithin used (takes (claimMembers unitCost members want used).1)
          (claimMembers unitCost members want used).2 ∧
        ((claimMembers unitCost members want used).1.map (·.qty)).sum ≤ max 0 want ∧
        ∀ t ∈ (claimMembers unitCost members want used).1, ∃ m ∈ members, m.entityId = t.lotId
  | [], want, used, _ =>
    ⟨TakesWithin.nil, le_max_left _ _, fun _ h => absurd h List.not_mem_nil⟩
  | m :: members, want, used, hmembers => by
    rw [List.forall_mem_cons] at hmembers
    have hskip := claimMembers_within unitCost members want used hmembers.2
    have hskip' : ∀ t ∈ (claimMembers unitCost members want used).1,
        ∃ m' ∈ m :: members, m'.entityId = t.lotId := fun t ht => by
      obtain ⟨m', hm', heq⟩ := hskip.2.2 t ht
      exact ⟨m', List.mem_cons_of_mem _ hm', heq⟩
    unfold claimMembers
    dsimp only
    split
    · exact ⟨hskip.1, hskip.2.1, hskip'⟩
    · next value hvalue =>
      split_ifs with hqty
      · exact ⟨hskip.1, hskip.2.1, hskip'⟩
      · rw [not_le] at hqty
        obtain ⟨row, hget, hrow⟩ := hmembers.1
        have hone : B.TakesWithin used _ _ :=
          TakesWithin.single hget hrow (by simp [hvalue]) hqty (min_le_right _ _)
        obtain ⟨hrest, hsum, hmem⟩ := claimMembers_within unitCost members _ (Function.update used m.entityId
          (used m.entityId + min want (m.state.quantity - used m.entityId))) hmembers.2
        refine ⟨hone.append hrest, ?_, ?_⟩
        · have hwant : min want (m.state.quantity - used m.entityId) ≤ want := min_le_left _ _
          rw [max_eq_right (sub_nonneg.2 hwant)] at hsum
          rw [List.map_cons, List.sum_cons]
          exact le_max_of_le_right (by linarith)
        · refine List.forall_mem_cons.2 ⟨⟨m, List.mem_cons_self, rfl⟩, fun t ht => ?_⟩
          obtain ⟨m', hm', heq⟩ := hmem t ht
          exact ⟨m', List.mem_cons_of_mem _ hm', heq⟩

/-- The lots looked into for an allocated lot are reached from it. -/
theorem mem_membersOf {roots : List String} {docId lot : String} {m : ItemRow}
    (h : m ∈ B.membersOf (B.items.heldWhere roots) docId lot) :
    (∃ row, B.items.get? m.entityId = some row ∧ B.reading row = m) ∧
      B.items.Follows lot m.entityId := by
  rw [membersOf, List.mem_insertionSort] at h
  obtain ⟨row, hrow, rfl⟩ := List.mem_map.1 h
  obtain ⟨hget, hfollows⟩ := Items.follows_of_mem_heldWhere hrow
  exact ⟨⟨row, hget, rfl⟩, hfollows⟩

/-- What is taken for an allocated lot: no more than is wanted, on lots reached from it. -/
theorem claimLot_within {roots : List String} {docId : String} {lot : AllocatedLot} {want : ℚ}
    {t : List Taken × Used} (h : B.claimLot (B.items.heldWhere roots) docId lot want used = .ok t) :
    B.TakesWithin used (takes t.1) t.2 ∧ (t.1.map (·.qty)).sum ≤ max 0 want ∧
      ∀ taken ∈ t.1, B.items.Follows lot.lotEntityId taken.lotId := by
  have hmembers := claimMembers_within (B := B) lot.unitCost
    (B.membersOf (B.items.heldWhere roots) docId lot.lotEntityId) want used
    fun m hm => (mem_membersOf hm).1
  unfold claimLot at h
  dsimp only at h
  generalize claimMembers lot.unitCost
    (B.membersOf (B.items.heldWhere roots) docId lot.lotEntityId) want used = c at h hmembers
  obtain ⟨hwithin, hsum, hmem⟩ := hmembers
  have hfollows : ∀ taken ∈ c.1, B.items.Follows lot.lotEntityId taken.lotId := by
    intro taken htaken
    obtain ⟨m, hm, heq⟩ := hmem taken htaken
    exact heq ▸ (mem_membersOf hm).2
  split_ifs at h
  · obtain ⟨key, -, h⟩ := bind_eq_ok.1 h
    obtain rfl := Except.ok.inj h
    -- the account a lot is costed against changes nothing that is taken
    refine ⟨?_, by simpa [Function.comp_def] using hsum, ?_⟩
    · simpa [takes, Function.comp_def] using hwithin
    · intro taken htaken
      obtain ⟨taken', htaken', rfl⟩ := List.mem_map.1 htaken
      exact hfollows taken' htaken'
  · obtain rfl := Except.ok.inj h
    exact ⟨hwithin, hsum, hfollows⟩

/-! ## A line, an invoice, all of them -/

/-- What is taken for the allocated lots of a line, lot by lot: of each no more than was
    allocated of it, on lots reached from it. -/
def Pieces (items : Items) {α : Type} (qty : α → ℚ) (lotId : α → String) (lots : List AllocatedLot)
    (pieces : List (List α)) : Prop :=
  List.Forall₂ (fun lot piece => (piece.map qty).sum ≤ max 0 lot.qty ∧
    ∀ t ∈ piece, items.Follows lot.lotEntityId (lotId t)) lots pieces

theorem claimLots_within {roots : List String} {docId : String} : ∀ {lots : List AllocatedLot} {left : ℚ}
    {used : Used} {t : List Taken × Used},
    B.claimLots (B.items.heldWhere roots) docId lots left used = .ok t →
      B.TakesWithin used (takes t.1) t.2 ∧ (t.1.map (·.qty)).sum ≤ max 0 left ∧
        ∃ pieces, Pieces B.items (·.qty) (·.lotId) lots pieces ∧ t.1 = pieces.flatten
  | [], left, used, t, h => by
    obtain rfl := Except.ok.inj h
    exact ⟨TakesWithin.nil, le_max_left _ _, [], .nil, rfl⟩
  | lot :: lots, left, used, t, h => by
    unfold claimLots at h
    obtain ⟨first, hfirst, h⟩ := bind_eq_ok.1 h
    obtain ⟨rest, hrest, h⟩ := bind_eq_ok.1 h
    obtain rfl := Except.ok.inj h
    obtain ⟨hwithin, hsum, hfollows⟩ := claimLot_within hfirst
    obtain ⟨hwithin', hsum', pieces, hpieces, heq⟩ := claimLots_within hrest
    have hqty : (first.1.map (·.qty)).sum ≤ max 0 lot.qty :=
      hsum.trans (max_le_max le_rfl (min_le_left _ _))
    have hleft : (first.1.map (·.qty)).sum ≤ max 0 left :=
      hsum.trans (max_le_max le_rfl (min_le_right _ _))
    have hpos : 0 ≤ (first.1.map (·.qty)).sum := by
      simpa [takes, Function.comp_def] using hwithin.sum_nonneg
    refine ⟨?_, ?_, first.1 :: pieces, .cons ⟨hqty, hfollows⟩ hpieces, ?_⟩
    · simpa [takes] using hwithin.append hwithin'
    · rw [List.map_append, List.sum_append]
      rcases le_total left 0 with hneg | hge
      · rw [max_eq_left hneg] at hleft ⊢
        rw [max_eq_left (by linarith)] at hsum'
        linarith
      · rw [max_eq_right hge] at hleft ⊢
        rw [max_eq_right (by linarith)] at hsum'
        linarith
    · rw [List.flatten_cons, ← heq]

/-- What the claims of a line come to. -/
structure LineWithin (B : ClaimBooks) (docId : String) (held : HeldLine) (claims : List UnshippedClaim) :
    Prop where
  tagged : ∀ c ∈ claims, c.docId = docId ∧ c.line = held.index
  sum_le : claimedQty claims ≤ max 0 held.unshipped
  pieces : ∃ pieces, Pieces B.items (·.qty) (·.lotId) held.alloc.lots pieces ∧
    claims.Perm pieces.flatten

theorem claimLine_within {roots : List String} {docId : String} {held : HeldLine}
    {c : List UnshippedClaim × Used}
    (h : B.claimLine (B.items.heldWhere roots) docId held used = .ok c) :
    B.TakesWithin used (c.1.map fun c => (c.lotId, c.qty)) c.2 ∧ LineWithin B docId held c.1 := by
  unfold claimLine at h
  obtain ⟨t, ht, h⟩ := bind_eq_ok.1 h
  obtain rfl := Except.ok.inj h
  obtain ⟨hwithin, hsum, pieces, hpieces, heq⟩ := claimLots_within ht
  have hperm := perm_grouped (·.key) t.1
  set claim : Taken → UnshippedClaim := fun taken => ⟨docId, held.index, taken.lotId, taken.qty,
    taken.key, ((((shares (weights (t.1.filter (·.key = taken.key)))
      ((taken.key.bind fun k => held.byKey.lookup k).getD 0) B.currency).getD []).lookup
        taken.lotId).getD 0), taken.onHand⟩ with hclaim
  refine ⟨?_, ?_, ?_, pieces.map (List.map claim), ?_, ?_⟩
  · refine hwithin.perm ?_
    rw [List.map_map, takes]
    exact hperm.map _
  · intro c hc
    obtain ⟨taken, -, rfl⟩ := List.mem_map.1 hc
    exact ⟨rfl, rfl⟩
  · rw [claimedQty, List.map_map]
    exact ((hperm.map fun taken : Taken => taken.qty).sum_eq).trans_le hsum
  · rw [Pieces, List.forall₂_map_right_iff]
    refine hpieces.imp fun lot piece hpiece => ⟨?_, ?_⟩
    · simpa [Function.comp_def, hclaim] using hpiece.1
    · intro c hc
      obtain ⟨taken, htaken, rfl⟩ := List.mem_map.1 hc
      exact hpiece.2 taken htaken
  · rw [← List.map_flatten, ← heq]
    exact hperm.map _

theorem claimLines_within {roots : List String} {docId : String} : ∀ {lines : List HeldLine} {used : Used}
    {c : List UnshippedClaim × Used},
    B.claimLines (B.items.heldWhere roots) docId lines used = .ok c →
      B.TakesWithin used (c.1.map fun c => (c.lotId, c.qty)) c.2 ∧
        ∃ blocks : List (HeldLine × List UnshippedClaim), blocks.map Prod.fst = lines ∧
          c.1 = blocks.flatMap Prod.snd ∧ ∀ b ∈ blocks, LineWithin B docId b.1 b.2
  | [], used, c, h => by
    obtain rfl := Except.ok.inj h
    exact ⟨TakesWithin.nil, [], rfl, rfl, fun _ hb => absurd hb List.not_mem_nil⟩
  | held :: lines, used, c, h => by
    unfold claimLines at h
    obtain ⟨first, hfirst, h⟩ := bind_eq_ok.1 h
    obtain ⟨rest, hrest, h⟩ := bind_eq_ok.1 h
    obtain rfl := Except.ok.inj h
    obtain ⟨hwithin, hline⟩ := claimLine_within hfirst
    obtain ⟨hwithin', blocks, hlines, hclaims, hblocks⟩ := claimLines_within hrest
    refine ⟨?_, (held, first.1) :: blocks, by rw [List.map_cons, hlines], ?_, ?_⟩
    · simpa using hwithin.append hwithin'
    · rw [List.flatMap_cons, ← hclaims]
    · exact List.forall_mem_cons.2 ⟨hline, hblocks⟩

/-- A line held is held for what it has not shipped. -/
theorem heldLine_eq {inv : OpenInvoice} {i : ℕ} {a : Allocation} {held : HeldLine}
    (h : B.heldLine inv i a = .ok (some held)) :
    held.index = i ∧ held.alloc = a ∧ held.unshipped = inv.unshippedQty i a := by
  unfold heldLine at h
  by_cases hnone : (!inv.ships i) = true ∧ (!inv.returns i) = true
  · rw [if_pos hnone] at h
    obtain ⟨byKey, -, h⟩ := bind_eq_ok.1 h
    obtain rfl := Option.some_inj.1 (Except.ok.inj h)
    have hshipped : inv.shippedQty i = 0 := by
      have hships : inv.ships i = false := by simpa using hnone.1
      rw [OpenInvoice.shippedQty, List.filter_eq_nil_iff.2, List.map_nil, List.sum_nil]
      simpa [OpenInvoice.ships] using hships
    have hback : inv.backQty i = 0 := by
      have hreturns : inv.returns i = false := by simpa using hnone.2
      rw [OpenInvoice.backQty, List.filter_eq_nil_iff.2, List.map_nil, List.sum_nil]
      simpa [OpenInvoice.returns] using hreturns
    exact ⟨rfl, rfl, by rw [OpenInvoice.unshippedQty, hshipped, hback, sub_zero, sub_zero]⟩
  · rw [if_neg hnone] at h
    dsimp only at h
    by_cases hpos : 0 < a.quantity ∧ EPS < inv.unshippedQty i a
    · rw [if_pos hpos] at h
      obtain ⟨byKey, -, h⟩ := bind_eq_ok.1 h
      obtain rfl := Option.some_inj.1 (Except.ok.inj h)
      exact ⟨rfl, rfl, rfl⟩
    · rw [if_neg hpos] at h
      exact absurd (Except.ok.inj h) nofun

/-- A held line is a line of the invoice's allocation. -/
def HeldOf (inv : OpenInvoice) (held : HeldLine) : Prop :=
  ∃ a ∈ inv.allocations, held.index = a.1 ∧ held.alloc = a.2 ∧
    held.unshipped = inv.unshippedQty a.1 a.2

theorem recognized_held {inv : OpenInvoice} {r : List (String × ℚ) × List HeldLine}
    (h : B.recognizedByAccount inv = .ok r) :
    (r.2.map (·.index)).Nodup ∧ ∀ held ∈ r.2, HeldOf inv held := by
  unfold recognizedByAccount at h
  obtain ⟨shipped, -, h⟩ := bind_eq_ok.1 h
  obtain ⟨-, -, h⟩ := bind_eq_ok.1 h
  obtain ⟨opts, hopts, h⟩ := bind_eq_ok.1 h
  obtain rfl := Except.ok.inj h
  have hlines : ∀ {allocs : List (ℕ × Allocation)} {opts : List (Option HeldLine)},
      List.Forall₂ (fun a o => B.heldLine inv a.1 a.2 = .ok o) allocs opts →
        (opts.reduceOption.map (·.index)).Sublist (allocs.map Prod.fst) ∧
        ∀ held ∈ opts.reduceOption, ∃ a ∈ allocs, held.index = a.1 ∧ held.alloc = a.2 ∧
          held.unshipped = inv.unshippedQty a.1 a.2 := by
    intro allocs opts hall
    induction hall with
    | nil => exact ⟨.slnil, fun _ hh => absurd hh List.not_mem_nil⟩
    | @cons a o allocs opts ha _ ih =>
      have hrest : ∀ held ∈ opts.reduceOption, ∃ a' ∈ a :: allocs, held.index = a'.1 ∧
          held.alloc = a'.2 ∧ held.unshipped = inv.unshippedQty a'.1 a'.2 := fun held hh => by
        obtain ⟨a', ha', heq⟩ := ih.2 held hh
        exact ⟨a', List.mem_cons_of_mem _ ha', heq⟩
      cases o with
      | none => exact ⟨ih.1.cons _, hrest⟩
      | some held =>
        obtain ⟨hindex, halloc, hunshipped⟩ := heldLine_eq ha
        refine ⟨?_, List.forall_mem_cons.2 ⟨⟨a, List.mem_cons_self, hindex, halloc, hunshipped⟩, hrest⟩⟩
        rw [List.reduceOption_cons_of_some, List.map_cons, List.map_cons, hindex]
        exact ih.1.cons_cons _
  obtain ⟨hsublist, hmem⟩ := hlines (forall₂_of_mapM_eq_ok hopts)
  exact ⟨hsublist.nodup inv.nodup, hmem⟩

/-- What the claims of an invoice are: line by line, each within what it holds. -/
def InvoiceWithin (B : ClaimBooks) (inv : OpenInvoice) (claims : List UnshippedClaim) : Prop :=
  ∃ blocks : List (HeldLine × List UnshippedClaim), (blocks.map (·.1.index)).Nodup ∧
    claims = blocks.flatMap Prod.snd ∧
    ∀ b ∈ blocks, HeldOf inv b.1 ∧ LineWithin B inv.docId b.1 b.2

theorem claimInvoices_within {roots : List String} : ∀ {invoices : List OpenInvoice} {used : Used}
    {c : List UnshippedClaim × Used},
    B.claimInvoices (B.items.heldWhere roots) invoices used = .ok c →
      B.TakesWithin used (c.1.map fun c => (c.lotId, c.qty)) c.2 ∧
        ∃ per : List (OpenInvoice × List UnshippedClaim), per.map Prod.fst = invoices ∧
          c.1 = per.flatMap Prod.snd ∧ ∀ p ∈ per, InvoiceWithin B p.1 p.2
  | [], used, c, h => by
    obtain rfl := Except.ok.inj h
    exact ⟨TakesWithin.nil, [], rfl, rfl, fun _ hp => absurd hp List.not_mem_nil⟩
  | inv :: invoices, used, c, h => by
    unfold claimInvoices at h
    obtain ⟨r, hr, h⟩ := bind_eq_ok.1 h
    obtain ⟨first, hfirst, h⟩ := bind_eq_ok.1 h
    obtain ⟨rest, hrest, h⟩ := bind_eq_ok.1 h
    obtain rfl := Except.ok.inj h
    obtain ⟨hnodup, hheld⟩ := recognized_held hr
    obtain ⟨hwithin, blocks, hlines, hclaims, hblocks⟩ := claimLines_within hfirst
    obtain ⟨hwithin', per, hper, hclaims', hpers⟩ := claimInvoices_within hrest
    have hsorted : (blocks.map Prod.fst).Perm r.2 := hlines ▸ List.perm_insertionSort _ _
    refine ⟨?_, (inv, first.1) :: per, by rw [List.map_cons, hper], ?_, ?_⟩
    · simpa using hwithin.append hwithin'
    · rw [List.flatMap_cons, ← hclaims']
    · refine List.forall_mem_cons.2 ⟨⟨blocks, ?_, hclaims, fun b hb => ⟨?_, hblocks b hb⟩⟩, hpers⟩
      · have hindex : blocks.map (·.1.index) = (blocks.map Prod.fst).map (·.index) := by simp
        rw [hindex]
        exact (hsorted.map _).nodup_iff.2 hnodup
      · exact hheld b.1 (hsorted.mem_iff.1 (List.mem_map_of_mem hb))

theorem InvoiceWithin.tagged {inv : OpenInvoice} {claims : List UnshippedClaim}
    (h : InvoiceWithin B inv claims) : ∀ c ∈ claims, c.docId = inv.docId := by
  obtain ⟨blocks, -, rfl, hblocks⟩ := h
  intro c hc
  obtain ⟨b, hb, hc⟩ := List.mem_flatMap.1 hc
  exact ((hblocks b hb).2.tagged c hc).1

/-- What a line of an invoice claims. -/
theorem InvoiceWithin.line {inv : OpenInvoice} {claims : List UnshippedClaim}
    (h : InvoiceWithin B inv claims) {a : ℕ × Allocation} (ha : a ∈ inv.allocations) :
    claimedQty (claims.filter (·.line = a.1)) ≤ max 0 (inv.unshippedQty a.1 a.2) ∧
      ∃ pieces, Pieces B.items (·.qty) (·.lotId) a.2.lots pieces ∧
        (claims.filter (·.line = a.1)).Perm pieces.flatten := by
  obtain ⟨blocks, hnodup, rfl, hblocks⟩ := h
  by_cases hline : ∃ b ∈ blocks, b.1.index = a.1
  · obtain ⟨b, hb, hindex⟩ := hline
    obtain ⟨⟨a', ha', hindex', halloc, hunshipped⟩, hwithin⟩ := hblocks b hb
    have heq : a' = a := List.inj_on_of_nodup_map inv.nodup ha' ha (hindex' ▸ hindex)
    subst heq
    have hfilter : (blocks.flatMap Prod.snd).filter (·.line = a'.1) = b.2 := by
      rw [← hindex]
      exact filter_flatMap_key (·.line) (fun b => b.1.index)
        (fun b hb c hc => ((hblocks b hb).2.tagged c hc).2) hnodup hb
    rw [hfilter, ← hunshipped, ← halloc]
    exact ⟨hwithin.sum_le, hwithin.pieces⟩
  · have hnil : (blocks.flatMap Prod.snd).filter (·.line = a.1) = [] := by
      rw [List.filter_eq_nil_iff]
      intro c hc
      obtain ⟨b, hb, hc⟩ := List.mem_flatMap.1 hc
      have hne : b.1.index ≠ a.1 := fun heq => hline ⟨b, hb, heq⟩
      simpa [((hblocks b hb).2.tagged c hc).2] using hne
    rw [hnil]
    refine ⟨le_max_left _ _, a.2.lots.map fun _ => [], ?_, ?_⟩
    · rw [Pieces, List.forall₂_map_right_iff, List.forall₂_same]
      exact fun lot _ => ⟨le_max_left _ _, fun _ ht => absurd ht List.not_mem_nil⟩
    · simp

end

/-! ## An invoice finalized later -/

section
variable {B} {used : Used} {roots roots' : List String} {docId : String}

/-- A lot with nothing to claim is passed over. -/
theorem claimMembers_stocked (unitCost : ℚ) : ∀ {members : List ItemRow} {want : ℚ} {used : Used},
    (∀ lot, 0 ≤ used lot) → claimMembers unitCost members want used =
      claimMembers unitCost (members.filter stocked) want used
  | [], _, _, _ => rfl
  | m :: members, want, used, hused => by
    have hskip : claimMembers unitCost members want used = _ := claimMembers_stocked unitCost hused
    by_cases hm : stocked m = true
    · rw [List.filter_cons_of_pos hm]
      unfold claimMembers
      dsimp only
      split
      · exact hskip
      · split_ifs with hqty
        · exact hskip
        · have hused' : ∀ lot, 0 ≤ Function.update used m.entityId
              (used m.entityId + min want (m.state.quantity - used m.entityId)) lot := by
            intro lot
            by_cases hlot : lot = m.entityId
            · subst hlot
              rw [Function.update_self]
              exact add_nonneg (hused _) (EPS_pos.trans (not_le.1 hqty)).le
            · rw [Function.update_of_ne hlot]
              exact hused lot
          rw [claimMembers_stocked unitCost hused']
    · rw [List.filter_cons_of_neg hm, ← hskip]
      conv_lhs => unfold claimMembers
      dsimp only
      split
      · rfl
      · next value hvalue =>
        have hquantity : m.state.quantity ≤ EPS := by
          simpa [stocked, hvalue] using hm
        have hqty : min want (m.state.quantity - used m.entityId) ≤ EPS :=
          (min_le_right _ _).trans (by linarith [hused m.entityId])
        rw [if_pos hqty]

theorem stocked_membersOf (lot : String) :
    (B.membersOf (B.items.heldWhere roots) docId lot).filter stocked =
      (B.stockWhere roots lot).insertionSort fun a b => holdOrder docId a.state ≤ holdOrder docId b.state :=
  filter_insertionSort (fun _ _ => le_total _ _) fun _ _ _ => le_trans

theorem claimLot_congr {lot : AllocatedLot} {want : ℚ} (hused : ∀ lot, 0 ≤ used lot)
    (hsame : B.stockWhere roots lot.lotEntityId = B.stockWhere roots' lot.lotEntityId) :
    B.claimLot (B.items.heldWhere roots) docId lot want used =
      B.claimLot (B.items.heldWhere roots') docId lot want used := by
  unfold claimLot
  rw [claimMembers_stocked _ hused, stocked_membersOf, hsame, ← stocked_membersOf,
    ← claimMembers_stocked _ hused]

theorem claimLots_congr : ∀ {lots : List AllocatedLot} {left : ℚ} {used : Used}, (∀ lot, 0 ≤ used lot) →
    (∀ lot ∈ lots, B.stockWhere roots lot.lotEntityId = B.stockWhere roots' lot.lotEntityId) →
    B.claimLots (B.items.heldWhere roots) docId lots left used =
      B.claimLots (B.items.heldWhere roots') docId lots left used
  | [], _, _, _, _ => rfl
  | lot :: lots, left, used, hused, hsame => by
    rw [List.forall_mem_cons] at hsame
    unfold claimLots
    rw [← claimLot_congr hused hsame.1]
    refine bind_congr_of_ok fun t ht => ?_
    rw [claimLots_congr ((claimLot_within ht).1.nonneg hused) hsame.2]

theorem claimLines_congr : ∀ {lines : List HeldLine} {used : Used}, (∀ lot, 0 ≤ used lot) →
    (∀ held ∈ lines, ∀ lot ∈ held.alloc.lots,
      B.stockWhere roots lot.lotEntityId = B.stockWhere roots' lot.lotEntityId) →
    B.claimLines (B.items.heldWhere roots) docId lines used =
      B.claimLines (B.items.heldWhere roots') docId lines used
  | [], _, _, _ => rfl
  | held :: lines, used, hused, hsame => by
    rw [List.forall_mem_cons] at hsame
    have hline : B.claimLine (B.items.heldWhere roots) docId held used =
        B.claimLine (B.items.heldWhere roots') docId held used := by
      unfold claimLine
      rw [claimLots_congr hused hsame.1]
    unfold claimLines
    rw [← hline]
    refine bind_congr_of_ok fun c hc => ?_
    rw [claimLines_congr ((claimLine_within hc).1.nonneg hused) hsame.2]

theorem claimInvoices_congr : ∀ {invoices : List OpenInvoice} {used : Used}, (∀ lot, 0 ≤ used lot) →
    (∀ inv ∈ invoices, ∀ a ∈ inv.allocations, ∀ lot ∈ a.2.lots,
      B.stockWhere roots lot.lotEntityId = B.stockWhere roots' lot.lotEntityId) →
    B.claimInvoices (B.items.heldWhere roots) invoices used =
      B.claimInvoices (B.items.heldWhere roots') invoices used
  | [], _, _, _ => rfl
  | inv :: invoices, used, hused, hsame => by
    rw [List.forall_mem_cons] at hsame
    unfold claimInvoices
    refine bind_congr_of_ok fun r hr => ?_
    have hlines : ∀ held ∈ r.2.insertionSort (fun a b => a.index ≤ b.index), ∀ lot ∈ held.alloc.lots,
        B.stockWhere roots lot.lotEntityId = B.stockWhere roots' lot.lotEntityId := by
      intro held hheld lot hlot
      rw [List.mem_insertionSort] at hheld
      obtain ⟨a, ha, -, halloc, -⟩ := (recognized_held hr).2 held hheld
      exact hsame.1 a ha lot (halloc ▸ hlot)
    rw [← claimLines_congr hused hlines]
    refine bind_congr_of_ok fun c hc => ?_
    rw [claimInvoices_congr ((claimLines_within hc).1.nonneg hused) hsame.2]

theorem claimInvoices_append {heldWhere : String → List ItemRow} : ∀ {first second : List OpenInvoice}
    {used : Used} {c : List UnshippedClaim × Used},
    B.claimInvoices heldWhere (first ++ second) used = .ok c →
      ∃ a b, B.claimInvoices heldWhere first used = .ok a ∧
        B.claimInvoices heldWhere second a.2 = .ok b ∧ c.1 = a.1 ++ b.1
  | [], _, used, c, h => ⟨([], used), c, rfl, h, rfl⟩
  | inv :: first, second, used, c, h => by
    unfold claimInvoices at h
    obtain ⟨r, hr, h⟩ := bind_eq_ok.1 h
    obtain ⟨lines, hlines, h⟩ := bind_eq_ok.1 h
    obtain ⟨rest, hrest, h⟩ := bind_eq_ok.1 h
    obtain rfl := Except.ok.inj h
    obtain ⟨a, b, ha, hb, heq⟩ := claimInvoices_append hrest
    refine ⟨(lines.1 ++ a.1, a.2), b, ?_, hb, by rw [heq, List.append_assoc]⟩
    unfold claimInvoices
    refine bind_eq_ok.2 ⟨r, hr, bind_eq_ok.2 ⟨lines, hlines, bind_eq_ok.2 ⟨a, ha, rfl⟩⟩⟩

/-- Invoices claim under their own ids only. -/
theorem claimsOf_of_not_mem {invoices : List OpenInvoice} {c : List UnshippedClaim × Used}
    (h : B.claimInvoices (B.items.heldWhere roots) invoices used = .ok c)
    (hdoc : docId ∉ invoices.map (·.docId)) : claimsOf c.1 docId = [] := by
  obtain ⟨-, per, hper, hclaims, hwithin⟩ := claimInvoices_within h
  rw [claimsOf, List.filter_eq_nil_iff]
  intro claim hclaim
  obtain ⟨p, hp, hclaim⟩ := List.mem_flatMap.1 (hclaims ▸ hclaim)
  have hne : p.1.docId ≠ docId := by
    intro heq
    refine hdoc (heq ▸ List.mem_map_of_mem ?_)
    exact hper ▸ List.mem_map_of_mem hp
  simpa [(hwithin p hp).tagged claim hclaim] using hne

end

/-! ## The claims of open invoices -/

section
variable {B} {invoices more : OpenInvoices} {claims claims' : List UnshippedClaim} {later inv : OpenInvoice}

theorem finalizedBy_total (a b : OpenInvoice) : FinalizedBy a b ∨ FinalizedBy b a := by
  unfold FinalizedBy
  rcases lt_trichotomy a.seq b.seq with h | h | h
  · exact Or.inl (Or.inl h)
  · rcases String.le_total a.docId b.docId with hdoc | hdoc
    · exact Or.inl (Or.inr ⟨h, hdoc⟩)
    · exact Or.inr (Or.inr ⟨h.symm, hdoc⟩)
  · exact Or.inr (Or.inl h)

theorem finalizedBy_trans (a b c : OpenInvoice) (hab : FinalizedBy a b) (hbc : FinalizedBy b c) :
    FinalizedBy a c := by
  unfold FinalizedBy at *
  rcases hab with hab | ⟨hab, hdoc⟩ <;> rcases hbc with hbc | ⟨hbc, hdoc'⟩
  · exact Or.inl (hab.trans hbc)
  · exact Or.inl (hbc ▸ hab)
  · exact Or.inl (hab ▸ hbc)
  · exact Or.inr ⟨hab.trans hbc, String.le_trans hdoc hdoc'⟩

theorem unshippedClaims_eq_ok (h : B.unshippedClaims invoices = .ok claims) :
    ∃ used, B.claimInvoices (B.items.heldWhere (allocatedLots invoices.list))
      (invoices.list.insertionSort FinalizedBy) (fun _ => 0) = .ok (claims, used) := by
  unfold unshippedClaims at h
  obtain ⟨c, hc, h⟩ := bind_eq_ok.1 h
  obtain rfl := Except.ok.inj h
  exact ⟨c.2, hc⟩

/-- **Of each lot no more is claimed than it holds.** -/
theorem claimed_le_holds (h : B.unshippedClaims invoices = .ok claims) (lot : String) :
    claimed claims lot ≤ B.holds lot := by
  obtain ⟨used, hused⟩ := unshippedClaims_eq_ok h
  have hwithin := (claimInvoices_within hused).1
  have hstart : ∀ lot, (0 : ℚ) ≤ B.holds lot := by
    intro lot
    unfold holds
    split
    · split_ifs
      · exact le_max_left _ _
      · exact le_rfl
    · exact le_rfl
  have hle := hwithin.within hstart lot
  rwa [hwithin.used_eq, zero_add] at hle

/-- The claims of an invoice are line by line within what it holds. -/
theorem claimsOf_within (h : B.unshippedClaims invoices = .ok claims) :
    (∀ inv ∈ invoices.list, InvoiceWithin B inv (claimsOf claims inv.docId)) ∧
      ∀ c ∈ claims, ∃ inv ∈ invoices.list, c.docId = inv.docId := by
  obtain ⟨used, hused⟩ := unshippedClaims_eq_ok h
  obtain ⟨-, per, hper, hclaims, hwithin⟩ := claimInvoices_within hused
  replace hclaims : claims = per.flatMap Prod.snd := hclaims
  have hperm : (per.map Prod.fst).Perm invoices.list := hper ▸ List.perm_insertionSort _ _
  have hnodup : (per.map (·.1.docId)).Nodup := by
    have hids : per.map (·.1.docId) = (per.map Prod.fst).map (·.docId) := by simp
    rw [hids]
    exact (hperm.map _).nodup_iff.2 invoices.nodup
  have htagged : ∀ p ∈ per, ∀ c ∈ p.2, c.docId = p.1.docId := fun p hp => (hwithin p hp).tagged
  constructor
  · intro inv hinv
    obtain ⟨p, hp, rfl⟩ := List.mem_map.1 (hperm.mem_iff.2 hinv)
    have hfilter : claimsOf claims p.1.docId = p.2 := by
      rw [claimsOf, hclaims]
      exact filter_flatMap_key (fun c : UnshippedClaim => c.docId) (fun p => p.1.docId) htagged
        hnodup hp
    exact hfilter ▸ hwithin p hp
  · intro c hc
    obtain ⟨p, hp, hc⟩ := List.mem_flatMap.1 (hclaims ▸ hc)
    exact ⟨p.1, hperm.mem_iff.1 (List.mem_map_of_mem hp), htagged p hp c hc⟩

/-- **A claim is on a lot reached from one its line was allocated.** -/
theorem reached_of_claim (h : B.unshippedClaims invoices = .ok claims) {c : UnshippedClaim}
    (hc : c ∈ claims) : ∃ inv ∈ invoices.list, c.docId = inv.docId ∧ ∃ a ∈ inv.allocations,
      c.line = a.1 ∧ ∃ lot ∈ a.2.lots, B.items.Follows lot.lotEntityId c.lotId := by
  obtain ⟨hwithin, hdocs⟩ := claimsOf_within h
  obtain ⟨inv, hinv, hdoc⟩ := hdocs c hc
  obtain ⟨blocks, -, hclaims, hblocks⟩ := hwithin inv hinv
  have hmem : c ∈ claimsOf claims inv.docId := List.mem_filter.2 ⟨hc, by simp [hdoc]⟩
  rw [hclaims] at hmem
  obtain ⟨b, hb, hmem⟩ := List.mem_flatMap.1 hmem
  obtain ⟨⟨a, ha, hindex, halloc, -⟩, hline⟩ := hblocks b hb
  obtain ⟨pieces, hpieces, hperm⟩ := hline.pieces
  obtain ⟨piece, hpiece, hmem'⟩ := List.mem_flatten.1 (hperm.mem_iff.1 hmem)
  obtain ⟨lot, hlot, -, hfollows⟩ := exists_of_mem_right hpieces hpiece
  exact ⟨inv, hinv, hdoc, a, ha, hindex ▸ (hline.tagged c hmem).2, lot, halloc ▸ hlot, hfollows c hmem'⟩

/-- **An invoice finalized later leaves the claims of an earlier one as they are**, where
    the goods of what those were allocated are found in the same places. -/
theorem claimsOf_later (hmore : more.list = later :: invoices.list) (hsame : B.SameHolders invoices more later)
    (h : B.unshippedClaims invoices = .ok claims) (h' : B.unshippedClaims more = .ok claims')
    (hinv : inv ∈ invoices.list) (hearlier : ¬FinalizedBy later inv) :
    claimsOf claims inv.docId = claimsOf claims' inv.docId := by
  have : Std.Total FinalizedBy := ⟨finalizedBy_total⟩
  have : IsTrans OpenInvoice FinalizedBy := ⟨finalizedBy_trans⟩
  set sorted := invoices.list.insertionSort FinalizedBy with hsorted
  have hperm : sorted.Perm invoices.list := List.perm_insertionSort _ _
  set before := sorted.takeWhile fun b => ¬FinalizedBy later b with hbefore
  set after := sorted.dropWhile fun b => ¬FinalizedBy later b with hafter
  have hsplit : sorted = before ++ after := List.takeWhile_append_dropWhile.symm
  have hsplit' : more.list.insertionSort FinalizedBy = before ++ later :: after := by
    rw [hmore]
    exact List.insertionSort_cons_eq_take_drop _ _ _
  have hmem : inv ∈ before := mem_takeWhile_of_not_rel finalizedBy_trans
    (List.pairwise_insertionSort _ _) (hperm.mem_iff.2 hinv) hearlier
  -- the invoices before it claim the same, and no other claims under their ids
  obtain ⟨used, hused⟩ := unshippedClaims_eq_ok h
  obtain ⟨used', hused'⟩ := unshippedClaims_eq_ok h'
  rw [← hsorted, hsplit] at hused
  rw [hsplit'] at hused'
  obtain ⟨a, b, ha, hb, heq⟩ := claimInvoices_append hused
  obtain ⟨a', b', ha', hb', heq'⟩ := claimInvoices_append hused'
  have hsame' : ∀ inv ∈ before, ∀ a ∈ inv.allocations, ∀ lot ∈ a.2.lots,
      B.stockWhere (allocatedLots invoices.list) lot.lotEntityId =
        B.stockWhere (allocatedLots more.list) lot.lotEntityId := by
    intro inv hinv
    have hnot : ¬FinalizedBy later inv := by simpa using List.mem_takeWhile_imp hinv
    exact hsame inv (hperm.mem_iff.1 (List.takeWhile_subset _ hinv)) hnot
  have hstart : ∀ _ : String, (0 : ℚ) ≤ 0 := fun _ => le_rfl
  rw [claimInvoices_congr hstart hsame', ha', Except.ok.injEq] at ha
  subst ha
  have hnodup : ((before ++ after).map (·.docId)).Nodup :=
    hsplit ▸ (hperm.map _).nodup_iff.2 invoices.nodup
  have hnodup' : ((before ++ later :: after).map (·.docId)).Nodup := by
    rw [← hsplit']
    exact ((List.perm_insertionSort _ _).map _).nodup_iff.2 more.nodup
  have hnot : inv.docId ∉ after.map (·.docId) := by
    rw [List.map_append, List.nodup_append'] at hnodup
    exact fun hmem' => hnodup.2.2 (List.mem_map_of_mem hmem) hmem'
  have hnot' : inv.docId ∉ (later :: after).map (·.docId) := by
    rw [List.map_append, List.nodup_append'] at hnodup'
    exact fun hmem' => hnodup'.2.2 (List.mem_map_of_mem hmem) hmem'
  have hb0 := claimsOf_of_not_mem hb hnot
  have hb0' := claimsOf_of_not_mem hb' hnot'
  simp only at heq heq'
  rw [claimsOf] at hb0 hb0' ⊢
  rw [claimsOf, heq, heq', List.filter_append, List.filter_append, hb0, hb0']

/-- **Claims never exceed the stock**: of each lot no more is claimed than it holds; a
    line claims no more than it has not shipped, and for each allocated lot no more than
    was allocated of it, on lots reached from it; no other lot is claimed; and an invoice
    finalized later leaves the claims of the earlier ones as they are, where `SameHolders`
    holds. -/
theorem claims_bounded (B : ClaimBooks) (invoices : OpenInvoices) (claims : List UnshippedClaim)
    (h : B.unshippedClaims invoices = .ok claims) :
    (∀ lot, claimed claims lot ≤ B.holds lot) ∧
    (∀ inv ∈ invoices.list, ∀ a ∈ inv.allocations,
      claimedQty (lineClaims claims inv.docId a.1) ≤ max 0 (inv.unshippedQty a.1 a.2) ∧
      ∃ pieces, List.Forall₂ (fun lot piece => claimedQty piece ≤ max 0 lot.qty ∧
          ∀ c ∈ piece, B.items.Follows lot.lotEntityId c.lotId) a.2.lots pieces ∧
        (lineClaims claims inv.docId a.1).Perm pieces.flatten) ∧
    (∀ c ∈ claims, ∃ inv ∈ invoices.list, c.docId = inv.docId ∧ ∃ a ∈ inv.allocations, c.line = a.1 ∧
      ∃ lot ∈ a.2.lots, B.items.Follows lot.lotEntityId c.lotId) ∧
    ∀ (later : OpenInvoice) (more : OpenInvoices) (claims' : List UnshippedClaim),
      more.list = later :: invoices.list → B.unshippedClaims more = .ok claims' →
      B.SameHolders invoices more later → ∀ inv ∈ invoices.list, ¬FinalizedBy later inv →
        claimsOf claims inv.docId = claimsOf claims' inv.docId := by
  refine ⟨claimed_le_holds h, fun inv hinv a ha => ?_, fun c hc => reached_of_claim h hc, ?_⟩
  · exact ((claimsOf_within h).1 inv hinv).line ha
  · intro later more claims' hmore h' hsame inv hinv hearlier
    exact claimsOf_later hmore hsame h h' hinv hearlier

end

/-- A lot of owned stock. -/
def ringLot (id : String) (quantity : ℚ) (splitFrom : Option String) : ItemRow where
  entityId := id
  createdAt := ""
  consignedIn := false
  state := { LotCost.costed quantity (10 * quantity) [] false with
    sku := "ring", status := "available", inventoryAccount := some "1200", splitFrom := splitFrom }

/-- Twenty rings, of which 15 were split off into a lot of their own. -/
def splitRings : ClaimBooks where
  items := ⟨[ringLot "item:a" 5 none, ringLot "item:x" 15 (some "item:a")], by decide⟩
  states := []
  currency := "USD"
  consignorOf := fun _ => none
  payableCodes := []
  relieved := fun _ => none
  pending := true
  costed := false

/-- An invoice with one line, allocated some units of a lot. -/
def ringSale (docId : String) (seq : ℕ) (lot : String) (qty : ℚ) : OpenInvoice where
  docId := docId
  lines := [{ itemId := some lot, quantity := qty }]
  seq := seq
  allocations := [(0, ⟨[⟨lot, qty, 10, some "1200"⟩], 0, 10 * qty⟩)]
  nodup := List.nodup_singleton 0
  repriced := fun _ => 0
  shipped := []
  back := []

def firstSale : OpenInvoices := ⟨[ringSale "doc:1" 1 "item:a" 10], by decide⟩

def bothSales : OpenInvoices := ⟨[ringSale "doc:2" 2 "item:x" 2, ringSale "doc:1" 1 "item:a" 10], by decide⟩

/-- The first sale claims 5 rings on the lot it was allocated and 5 on the part split off
    it; once a later sale is allocated that part, it claims the 5 alone. -/
theorem splitRings_claim_lost :
    ∃ claims claims', splitRings.unshippedClaims firstSale = .ok claims ∧
      bothSales.list = ringSale "doc:2" 2 "item:x" 2 :: firstSale.list ∧
      splitRings.unshippedClaims bothSales = .ok claims' ∧
      ¬FinalizedBy (ringSale "doc:2" 2 "item:x" 2) (ringSale "doc:1" 1 "item:a" 10) ∧
      claimsOf claims "doc:1" ≠ claimsOf claims' "doc:1" := by
  refine ⟨[⟨"doc:1", 0, "item:a", 5, none, 0, 50⟩, ⟨"doc:1", 0, "item:x", 5, none, 0, 150⟩],
    [⟨"doc:1", 0, "item:a", 5, none, 0, 50⟩, ⟨"doc:2", 0, "item:x", 2, none, 0, 150⟩], ?_, rfl, ?_, ?_, ?_⟩
  · decide +kernel
  · decide +kernel
  · decide +kernel
  · decide +kernel

def firstClaims : List UnshippedClaim :=
  [⟨"doc:1", 0, "item:a", 5, none, 0, 50⟩, ⟨"doc:1", 0, "item:x", 5, none, 0, 150⟩]

/-- The first sale and a later one of the lot it was allocated too. -/
def sameLotSales : OpenInvoices :=
  ⟨[ringSale "doc:2" 2 "item:a" 12, ringSale "doc:1" 1 "item:a" 10], by decide⟩

theorem claims_bounded_firstSale :
    (∀ lot, claimed firstClaims lot ≤ splitRings.holds lot) ∧
      claimsOf firstClaims "doc:1" =
        claimsOf (firstClaims ++ [⟨"doc:2", 0, "item:x", 10, none, 0, 150⟩]) "doc:1" := by
  have hbounded := claims_bounded splitRings firstSale firstClaims (by decide +kernel)
  refine ⟨hbounded.1, ?_⟩
  refine hbounded.2.2.2 (ringSale "doc:2" 2 "item:a" 12) sameLotSales _ rfl (by decide +kernel) ?_
    (ringSale "doc:1" 1 "item:a" 10) List.mem_cons_self (by decide +kernel)
  have hroots : allocatedLots firstSale.list = allocatedLots sameLotSales.list := by decide +kernel
  intro inv _ _ a _ lot _
  rw [hroots]

end ClaimBooks

end Celerp
