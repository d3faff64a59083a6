/-
  The claims a shipment leaves no goods for (`moved_costs` in `celerp/services/auto_je.py`).

  An invoice that ships goods other open invoices set aside takes those invoices' cost with
  them.  A lot keeps what remains in stock for the invoices that took it first, so the
  claims that move are the latest ones.

  * `moving` is the loop over the lots shipped, `moveLatest` its inner loop over the claims
    on one lot, latest first, and `movedCosts` the function;
  * `moveLatest_eq`: each claim gives up what `Drain.drain` takes of it;
  * `movedCosts_latest`: what moves of each lot are its latest claims, as much as the
    shipment leaves no goods for, to the 1e-9 the loop stops at.
-/
import Celerp.Lib.Drain
import Celerp.Sales.ClaimsHeld

namespace Celerp

open Drain Grouping Tally Outcome

namespace ClaimBooks

/-! ## Moving claims -/

/-- A claim with the quantity it gives up, at its amount in proportion. -/
def givingUp (c : UnshippedClaim) (qty : ℚ) : UnshippedClaim :=
  { c with qty := qty, amount := if c.qty ≠ 0 then c.amount * qty / c.qty else 0 }

/-- The claims on a lot that give up what the shipment leaves no goods for, latest first. -/
def moveLatest : ℚ → List UnshippedClaim → List UnshippedClaim
  | _, [] => []
  | excess, claim :: claims =>
    if excess ≤ EPS then []
    else givingUp claim (min claim.qty excess) :: moveLatest (excess - min claim.qty excess) claims

/-- A claim filed under its invoice (`moving.setdefault(doc_id, []).append`). -/
def file (moving : List (String × List UnshippedClaim)) (c : UnshippedClaim) :
    List (String × List UnshippedClaim) :=
  if c.docId ∈ moving.map Prod.fst then moving.map fun m => if m.1 = c.docId then (m.1, m.2 ++ [c]) else m
  else moving ++ [(c.docId, [c])]

variable (B : ClaimBooks)

/-- The quantity of a lot. -/
def quantityOf (lot : String) : ℚ := (B.items.get? lot).elim 0 (·.state.quantity)

/-- What a shipment of `take` leaves in a lot, if there is such a lot. -/
def remaining (lot : String) (take : ℚ) : ℚ := (B.items.get? lot).elim 0 (·.state.quantity - take)

/-- What the claims on a lot come to past what a shipment of `take` leaves in it. -/
def overOf (on : List UnshippedClaim) (lot : String) (take : ℚ) : ℚ :=
  min take (claimedQty on - max (B.remaining lot take) 0)

/-- What moves of the claims on one lot shipped. -/
def lotMoves (claims : List UnshippedClaim) (t : String × ℚ) : List UnshippedClaim :=
  let on := claims.filter (·.lotId = t.1)
  moveLatest (B.overOf on t.1 t.2) on.reverse

/-- The loop of `moved_costs`, over the lots shipped with what is taken of each. -/
def moving (claims : List UnshippedClaim) (taken : List (String × ℚ)) : List (String × List UnshippedClaim) :=
  taken.foldl (fun moving t => (B.lotMoves claims t).foldl file moving) []

/-- `moved_costs`, over the other open invoices that may hold goods of the lots. -/
def movedCosts (invoices : OpenInvoices) (taken : List (String × ℚ)) :
    Except CogsError (List (String × List UnshippedClaim)) :=
  if taken = [] then .ok []
  else do
    let claims ← { B with states := [], pending := false, costed := true : ClaimBooks }.unshippedClaims invoices
    pure (B.moving (claims.filter (·.lotId ∈ taken.map Prod.fst)) taken)

/-! ## What a lot's claims give up -/

/-- The moves claims make that give up these quantities: none of those that give up
    nothing. -/
def movesOf (claims : List UnshippedClaim) (given : List ℚ) : List UnshippedClaim :=
  ((claims.zip given).filter (·.2 ≠ 0)).map fun p => givingUp p.1 p.2

theorem moveLatest_eq : ∀ {excess : ℚ} {claims : List UnshippedClaim}, (∀ c ∈ claims, 0 < c.qty) →
    moveLatest excess claims = movesOf claims (drain EPS excess (claims.map (·.qty)))
  | _, [], _ => rfl
  | excess, c :: claims, hpos => by
    rw [List.forall_mem_cons] at hpos
    rw [moveLatest, List.map_cons]
    by_cases hover : excess ≤ EPS
    · rw [if_pos hover, drain_eq_zero hover, movesOf, List.filter_eq_nil_iff.2, List.map_nil]
      intro p hp
      obtain ⟨q, -, hq⟩ := List.mem_map.1 (List.of_mem_zip hp).2
      simp [← hq]
    · have hgiven : min c.qty excess ≠ 0 := (lt_min hpos.1 (EPS_pos.trans (not_le.1 hover))).ne'
      rw [if_neg hover, drain, if_neg hover, moveLatest_eq hpos.2, movesOf, movesOf, List.zip_cons_cons,
        List.filter_cons_of_pos (by simpa using hgiven), List.map_cons]

/-- What moves of the claims on a lot of which `remaining` stays and `take` is shipped: each
    claim gives up a quantity, the latest claims first, a claim nothing before the later
    ones have given up all of theirs; in all what the claims come to past what remains,
    never more than is shipped.  The loop stops at `EPS`: what is left over at most that
    does not move, which happens only where every claim moves whole or not at all. -/
def LatestMoved (on : List UnshippedClaim) (remaining take : ℚ) (moves : List UnshippedClaim) : Prop :=
  ∃ given : List ℚ, given.length = on.length ∧ moves.Perm (movesOf on.reverse given) ∧
    (∀ p ∈ on.reverse.zip given, 0 ≤ p.2 ∧ p.2 ≤ p.1.qty) ∧
    (on.reverse.zip given).Pairwise (fun later earlier => earlier.2 ≠ 0 → later.2 = later.1.qty) ∧
    given.sum ≤ take ∧ claimedQty on - given.sum ≤ remaining + EPS ∧
    (given.sum = max 0 (claimedQty on - remaining) ∨
      given.sum ≤ max 0 (claimedQty on - remaining) ∧ max 0 (claimedQty on - remaining) ≤ given.sum + EPS ∧
        ∀ p ∈ on.reverse.zip given, p.2 = 0 ∨ p.2 = p.1.qty)

section
variable {B} {on : List UnshippedClaim} {lot : String} {take : ℚ}

/-- Facts about the quantities of claims, of facts about the claims. -/
theorem forall_zip_qty {claims : List UnshippedClaim} {given : List ℚ} {P : ℚ × ℚ → Prop}
    (h : ∀ p ∈ (claims.map (·.qty)).zip given, P p) : ∀ p ∈ claims.zip given, P (p.1.qty, p.2) := by
  intro p hp
  refine h _ ?_
  rw [List.zip_map_left]
  exact List.mem_map_of_mem hp

theorem latestMoved_moveLatest (hpos : ∀ c ∈ on, 0 < c.qty) (htake : 0 ≤ take)
    (hheld : take ≤ B.quantityOf lot) (hfit : claimedQty on ≤ B.quantityOf lot) :
    LatestMoved on (B.quantityOf lot - take) take (moveLatest (B.overOf on lot take) on.reverse) := by
  have hpos' : ∀ c ∈ on.reverse, 0 < c.qty := fun c hc => hpos c (List.mem_reverse.1 hc)
  have hcaps : ∀ q ∈ on.reverse.map (·.qty), 0 ≤ q := by
    intro q hq
    obtain ⟨c, hc, rfl⟩ := List.mem_map.1 hq
    exact (hpos' c hc).le
  have hsum : (on.reverse.map (·.qty)).sum = claimedQty on := by
    rw [List.map_reverse, List.sum_reverse, claimedQty]
  have hremaining : max (B.remaining lot take) 0 = B.quantityOf lot - take := by
    unfold remaining quantityOf at *
    cases h : B.items.get? lot with
    | none =>
      rw [h] at hheld
      have hzero : take = 0 := le_antisymm hheld htake
      simp [hzero]
    | some row =>
      rw [h] at hheld
      exact max_eq_left (sub_nonneg.2 hheld)
  have hover : B.overOf on lot take = claimedQty on - (B.quantityOf lot - take) := by
    rw [overOf, hremaining]
    exact min_eq_right (by linarith)
  have hEPS : (0 : ℚ) ≤ EPS := EPS_pos.le
  have hwant : B.overOf on lot take ≤ (on.reverse.map (·.qty)).sum := by
    rw [hsum, hover]
    linarith
  have hle : (drain EPS (B.overOf on lot take) (on.reverse.map (·.qty))).sum ≤ max 0 (B.overOf on lot take) :=
    sum_drain_le hEPS hcaps
  obtain ⟨hshort, hexact⟩ := drain_short hEPS hcaps hwant
  have hmax : max 0 (B.overOf on lot take) ≤ take := max_le htake (hover ▸ by linarith)
  refine ⟨drain EPS (B.overOf on lot take) (on.reverse.map (·.qty)), ?_, ?_, ?_, ?_, ?_, ?_, ?_⟩
  · rw [length_drain, List.length_map, List.length_reverse]
  · rw [moveLatest_eq hpos']
  · exact forall_zip_qty (drain_bounds hEPS hcaps)
  · have hfull : ((on.reverse.map (·.qty)).zip
        (drain EPS (B.overOf on lot take) (on.reverse.map (·.qty)))).Pairwise
          fun a b => b.2 ≠ 0 → a.2 = a.1 := drain_pairwise hEPS
    rw [List.zip_map_left, List.pairwise_map] at hfull
    exact hfull
  · exact le_trans hle hmax
  · have := le_max_right 0 (B.overOf on lot take)
    rw [hover] at *
    linarith
  · rw [← hover]
    rcases hexact with hexact | hwhole
    · exact .inl hexact
    · exact .inr ⟨hle, by linarith, forall_zip_qty hwhole⟩

end

/-! ## Filing what moves -/

/-- What moves stands under its invoice, each invoice once. -/
structure Filed (moved : List (String × List UnshippedClaim)) : Prop where
  nodup : (moved.map Prod.fst).Nodup
  filed : ∀ m ∈ moved, ∀ c ∈ m.2, c.docId = m.1

section
variable {moved : List (String × List UnshippedClaim)} {c : UnshippedClaim}

theorem keys_file_of_mem (d : String) :
    (moved.map fun m => if m.1 = d then (m.1, m.2 ++ [c]) else m).map Prod.fst = moved.map Prod.fst := by
  rw [List.map_map]
  refine List.map_congr_left fun m _ => ?_
  simp only [Function.comp_apply]
  split_ifs <;> rfl

theorem perm_file_of_mem {d : String} (hnodup : (moved.map Prod.fst).Nodup) (hd : d ∈ moved.map Prod.fst) :
    ((moved.map fun m => if m.1 = d then (m.1, m.2 ++ [c]) else m).flatMap Prod.snd).Perm
      (c :: moved.flatMap Prod.snd) := by
  induction moved with
  | nil => exact absurd hd List.not_mem_nil
  | cons m moved ih =>
    rw [List.map_cons, List.nodup_cons] at hnodup
    rw [List.map_cons, List.flatMap_cons, List.flatMap_cons]
    by_cases hm : m.1 = d
    · have hrest : (moved.map fun m => if m.1 = d then (m.1, m.2 ++ [c]) else m) = moved := by
        refine (List.map_congr_left fun m' hm' => if_neg ?_).trans (List.map_id moved)
        rintro heq
        exact hnodup.1 (hm ▸ heq ▸ List.mem_map_of_mem hm')
      rw [if_pos hm, hrest, List.append_assoc, List.singleton_append]
      exact List.perm_middle
    · have hd' : d ∈ moved.map Prod.fst := by
        rcases List.mem_cons.1 hd with rfl | hd
        · exact absurd rfl hm
        · exact hd
      rw [if_neg hm]
      exact ((ih hnodup.2 hd').append_left m.2).trans List.perm_middle

/-- One claim filed. -/
theorem Filed.file (h : Filed moved) (c : UnshippedClaim) :
    Filed (file moved c) ∧ ((ClaimBooks.file moved c).flatMap Prod.snd).Perm (c :: moved.flatMap Prod.snd) := by
  unfold ClaimBooks.file
  split_ifs with hmem
  · refine ⟨⟨?_, ?_⟩, perm_file_of_mem h.nodup hmem⟩
    · rw [keys_file_of_mem]
      exact h.nodup
    · refine List.forall_mem_map.2 fun m hm => ?_
      split_ifs with hdoc
      · refine List.forall_mem_append.2 ⟨h.filed m hm, ?_⟩
        simpa using hdoc.symm
      · exact h.filed m hm
  · refine ⟨⟨?_, ?_⟩, ?_⟩
    · rw [List.map_append, List.map_singleton, List.nodup_append_comm]
      exact List.nodup_cons.2 ⟨hmem, h.nodup⟩
    · refine List.forall_mem_append.2 ⟨h.filed, ?_⟩
      simp
    · rw [List.flatMap_append]
      simp

theorem Filed.foldl (moves : List UnshippedClaim) : ∀ {moved : List (String × List UnshippedClaim)},
    Filed moved → Filed (moves.foldl ClaimBooks.file moved) ∧
      ((moves.foldl ClaimBooks.file moved).flatMap Prod.snd).Perm (moved.flatMap Prod.snd ++ moves) := by
  induction moves with
  | nil =>
    intro moved h
    exact ⟨h, by simp⟩
  | cons c moves ih =>
    intro moved h
    obtain ⟨hfiled, hperm⟩ := h.file c
    obtain ⟨hfiled', hperm'⟩ := ih hfiled
    refine ⟨hfiled', hperm'.trans ?_⟩
    exact (hperm.append_right moves).trans List.perm_middle.symm

theorem Filed.foldl_lots (B : ClaimBooks) (claims : List UnshippedClaim) (taken : List (String × ℚ)) :
    ∀ {moved : List (String × List UnshippedClaim)}, Filed moved →
      Filed (taken.foldl (fun moving t => (B.lotMoves claims t).foldl ClaimBooks.file moving) moved) ∧
        ((taken.foldl (fun moving t => (B.lotMoves claims t).foldl ClaimBooks.file moving) moved).flatMap
          Prod.snd).Perm (moved.flatMap Prod.snd ++ taken.flatMap (B.lotMoves claims)) := by
  induction taken with
  | nil =>
    intro moved h
    exact ⟨h, by simp⟩
  | cons t taken ih =>
    intro moved h
    obtain ⟨hfiled, hperm⟩ := Filed.foldl (B.lotMoves claims t) h
    obtain ⟨hfiled', hperm'⟩ := ih hfiled
    refine ⟨hfiled', hperm'.trans ?_⟩
    rw [List.flatMap_cons, ← List.append_assoc]
    exact hperm.append_right _

/-- The loop files what each lot's claims give up. -/
theorem moving_filed (B : ClaimBooks) (claims : List UnshippedClaim) (taken : List (String × ℚ)) :
    Filed (B.moving claims taken) ∧
      ((B.moving claims taken).flatMap Prod.snd).Perm (taken.flatMap (B.lotMoves claims)) :=
  Filed.foldl_lots B claims taken ⟨List.nodup_nil, fun _ h => absurd h List.not_mem_nil⟩

end

/-! ## What moves -/

/-- What moves of claims for lots shipped: filed by invoice, on these lots only, and of each
    lot its latest claims. -/
structure MovesLatest (B : ClaimBooks) (claims : List UnshippedClaim) (taken : List (String × ℚ))
    (moved : List (String × List UnshippedClaim)) : Prop where
  filed : Filed moved
  lots : ∀ c ∈ moved.flatMap Prod.snd, c.lotId ∈ taken.map Prod.fst
  latest : ∀ t ∈ taken, LatestMoved (claims.filter (·.lotId = t.1)) (B.quantityOf t.1 - t.2) t.2
    ((moved.flatMap Prod.snd).filter (·.lotId = t.1))

section
variable {B : ClaimBooks} {claims : List UnshippedClaim} {taken : List (String × ℚ)}

theorem lotId_of_mem_moveLatest : ∀ {excess : ℚ} {claims : List UnshippedClaim} {m : UnshippedClaim},
    m ∈ moveLatest excess claims → ∃ c ∈ claims, m.lotId = c.lotId
  | _, [], _, h => absurd h List.not_mem_nil
  | excess, c :: claims, m, h => by
    unfold moveLatest at h
    split_ifs at h
    · exact absurd h List.not_mem_nil
    · rcases List.mem_cons.1 h with rfl | h
      · exact ⟨c, List.mem_cons_self, rfl⟩
      · obtain ⟨c', hc', hlot⟩ := lotId_of_mem_moveLatest h
        exact ⟨c', List.mem_cons_of_mem _ hc', hlot⟩

theorem LatestMoved.perm {on moves moves' : List UnshippedClaim} {remaining take : ℚ}
    (h : LatestMoved on remaining take moves) (hperm : moves'.Perm moves) :
    LatestMoved on remaining take moves' := by
  obtain ⟨given, hlength, hmoves, hrest⟩ := h
  exact ⟨given, hlength, hperm.trans hmoves, hrest⟩

theorem moving_latest (hlots : (taken.map Prod.fst).Nodup)
    (hheld : ∀ t ∈ taken, 0 ≤ t.2 ∧ t.2 ≤ B.quantityOf t.1) (hpos : ∀ c ∈ claims, 0 < c.qty)
    (hfit : ∀ t ∈ taken, claimedQty (claims.filter (·.lotId = t.1)) ≤ B.quantityOf t.1) :
    B.MovesLatest claims taken (B.moving claims taken) := by
  obtain ⟨hfiled, hperm⟩ := moving_filed B claims taken
  have hmoves : ∀ t ∈ taken, ∀ m ∈ B.lotMoves claims t, m.lotId = t.1 := by
    intro t _ m hm
    obtain ⟨c, hc, hlot⟩ := lotId_of_mem_moveLatest hm
    rw [hlot]
    simpa using (List.mem_filter.1 (List.mem_reverse.1 hc)).2
  refine ⟨hfiled, fun c hc => ?_, fun t ht => ?_⟩
  · obtain ⟨t, ht, hm⟩ := List.mem_flatMap.1 (hperm.mem_iff.1 hc)
    exact hmoves t ht c hm ▸ List.mem_map_of_mem ht
  · have hon := filter_flatMap_key (fun c : UnshippedClaim => c.lotId) Prod.fst hmoves hlots ht
    refine LatestMoved.perm ?_ ((hperm.filter _).trans (.of_eq hon))
    obtain ⟨htake, hle⟩ := hheld t ht
    exact latestMoved_moveLatest (fun c hc => hpos c (List.mem_of_mem_filter hc)) htake hle (hfit t ht)

theorem claimedQty_filter (claims : List UnshippedClaim) (lot : String) :
    claimedQty (claims.filter (·.lotId = lot)) = claimed claims lot := by
  induction claims with
  | nil => rfl
  | cons c claims ih =>
    rw [claimed, List.map_cons, total_cons, ← claimed, ← ih, List.filter_cons]
    by_cases hlot : c.lotId = lot
    · simp [hlot, claimedQty]
    · simp [hlot, claimedQty]

theorem qty_pos_of_unshipped {invoices : OpenInvoices} (h : B.unshippedClaims invoices = .ok claims) :
    ∀ c ∈ claims, 0 < c.qty := by
  obtain ⟨used, hused⟩ := unshippedClaims_eq_ok h
  intro c hc
  exact (claimInvoices_within hused).1.pos (c.lotId, c.qty) (List.mem_map_of_mem hc)

theorem holds_le_quantityOf (hstates : B.states = []) {lot : String} (hlot : 0 ≤ B.quantityOf lot) :
    B.holds lot ≤ B.quantityOf lot := by
  unfold holds quantityOf at *
  cases h : B.items.get? lot with
  | none => simp
  | some row =>
    rw [h] at hlot
    have hread : B.reading row = row := by simp [reading, hstates]
    rw [Option.map_some, hread]
    simp only [Option.elim_some] at hlot ⊢
    split_ifs
    · exact max_le hlot le_rfl
    · exact hlot

end

/-- **Shipping goods takes the latest claims on them.**  For lots of which no more is shipped
    than they hold, and claims on them that fit what they hold, what moves of each lot are its
    latest claims, as `LatestMoved` says; and the claims `moved_costs` reads are such claims. -/
theorem movedCosts_latest (B : ClaimBooks) (taken : List (String × ℚ)) (hlots : (taken.map Prod.fst).Nodup)
    (hheld : ∀ t ∈ taken, 0 ≤ t.2 ∧ t.2 ≤ B.quantityOf t.1) :
    (∀ claims : List UnshippedClaim, (∀ c ∈ claims, 0 < c.qty) →
      (∀ t ∈ taken, claimedQty (claims.filter (·.lotId = t.1)) ≤ B.quantityOf t.1) →
      B.MovesLatest claims taken (B.moving claims taken)) ∧
    ∀ (invoices : OpenInvoices) (moved : List (String × List UnshippedClaim)), taken ≠ [] →
      B.movedCosts invoices taken = .ok moved → ∃ claims,
        { B with states := [], pending := false, costed := true : ClaimBooks }.unshippedClaims invoices = .ok claims ∧
          B.MovesLatest claims taken moved := by
  refine ⟨fun claims hpos hfit => moving_latest hlots hheld hpos hfit, fun invoices moved hne h => ?_⟩
  rw [movedCosts, if_neg hne] at h
  obtain ⟨claims, hclaims, h⟩ := bind_eq_ok.1 h
  obtain rfl := Except.ok.inj h
  have hsame : ∀ t ∈ taken, (claims.filter (·.lotId ∈ taken.map Prod.fst)).filter (·.lotId = t.1) =
      claims.filter (·.lotId = t.1) := by
    intro t ht
    rw [List.filter_filter]
    refine List.filter_congr fun c _ => ?_
    by_cases hc : c.lotId = t.1
    · have hmem : c.lotId ∈ taken.map Prod.fst := hc ▸ List.mem_map_of_mem ht
      simp only [hmem, decide_true, Bool.and_true]
    · simp [hc]
  refine ⟨claims, hclaims, ?_⟩
  have hmoves : B.MovesLatest (claims.filter (·.lotId ∈ taken.map Prod.fst)) taken
      (B.moving (claims.filter (·.lotId ∈ taken.map Prod.fst)) taken) := by
    refine moving_latest hlots hheld (fun c hc => qty_pos_of_unshipped hclaims c (List.mem_of_mem_filter hc)) ?_
    intro t ht
    obtain ⟨htake, hle⟩ := hheld t ht
    rw [hsame t ht, claimedQty_filter]
    exact (claimed_le_holds hclaims t.1).trans (holds_le_quantityOf rfl (htake.trans hle))
  refine ⟨hmoves.filed, hmoves.lots, fun t ht => ?_⟩
  have := hmoves.latest t ht
  rwa [hsame t ht] at this

/-- A lot of two rings, claims costed. -/
def twoRings : ClaimBooks :=
  { splitRings with items := ⟨[ringLot "item:a" 2 none], by decide⟩, costed := true }

/-- Two invoices of a ring of the lot each. -/
def ringSales : OpenInvoices := ⟨[ringSale "doc:1" 1 "item:a" 1, ringSale "doc:2" 2 "item:a" 1], by decide⟩

def ringClaims : List UnshippedClaim :=
  [⟨"doc:1", 0, "item:a", 1, some "1200", 10, 20⟩, ⟨"doc:2", 0, "item:a", 1, some "1200", 10, 20⟩]

/-- A shipment of half a ring takes half of what the later invoice set aside. -/
theorem halfRing_moved :
    twoRings.MovesLatest ringClaims [("item:a", 1 / 2)] (twoRings.moving ringClaims [("item:a", 1 / 2)]) ∧
      ∃ claims, { twoRings with states := [], pending := false, costed := true : ClaimBooks }.unshippedClaims
          ringSales = .ok claims ∧
        twoRings.MovesLatest claims [("item:a", 1 / 2)]
          [("doc:2", [⟨"doc:2", 0, "item:a", 1 / 2, some "1200", 5, 20⟩])] := by
  have hmoved := movedCosts_latest twoRings [("item:a", 1 / 2)] (by decide +kernel) (by decide +kernel)
  constructor
  · exact hmoved.1 ringClaims (by decide +kernel) (by decide +kernel)
  · exact hmoved.2 ringSales _ (by decide +kernel) (by decide +kernel)

/-- Where half a billionth of a ring is shipped, the claims on the lot are more than what
    remains by that much, and nothing moves. -/
theorem speck_not_moved :
    ¬ ∀ (B : ClaimBooks) (claims : List UnshippedClaim) (taken : List (String × ℚ)),
      (taken.map Prod.fst).Nodup → (∀ t ∈ taken, 0 ≤ t.2 ∧ t.2 ≤ B.quantityOf t.1) →
      (∀ c ∈ claims, 0 < c.qty) →
      (∀ t ∈ taken, claimedQty (claims.filter (·.lotId = t.1)) ≤ B.quantityOf t.1) →
      ∀ t ∈ taken, claimedQty (((B.moving claims taken).flatMap Prod.snd).filter (·.lotId = t.1)) =
        max 0 (claimedQty (claims.filter (·.lotId = t.1)) - (B.quantityOf t.1 - t.2)) := by
  intro h
  have hmoved := h twoRings ringClaims [("item:a", 1 / 2 / 10 ^ 9)] (by decide +kernel) (by decide +kernel)
    (by decide +kernel) (by decide +kernel) ("item:a", 1 / 2 / 10 ^ 9) List.mem_cons_self
  revert hmoved
  decide +kernel

end ClaimBooks

end Celerp
