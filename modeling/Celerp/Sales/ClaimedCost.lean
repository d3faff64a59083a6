/-
  The cost the claims of a line carry (`unshipped_claims`, `_shares` in
  `celerp/services/auto_je.py`).

  What a line's cost on an account comes to is shared over the lots its claims on the
  account are on, by lot, and each claim carries the share of its lot.

  * the shares come to the rounded cost (`sum_lotShares`), and the claims to the shares,
    each as often as its lot is taken (`sum_lookup`);
  * `LineTurns` is the claims loop line by line, each line at what the claims ahead of it
    took (`claimInvoices_turns`, `LineTurns.before`);
  * `claimedCost_iff`: the claims of a line on an account come to its rounded cost exactly
    when no lot that bears any of the cost is taken twice.
-/
import Celerp.Sales.ClaimsHeld

namespace Celerp

open Grouping Tally Outcome

/-! ## Shares by lot -/

section
variable {parts : List (String × ℚ)} {amount : ℚ} {c : String}

/-- The shares of an amount over parts: they come to the amount rounded, each part has
    one at most, and they are all on its side of nothing. -/
structure SharesOf (parts : List (String × ℚ)) (amount : ℚ) (c : String) (l : List (String × ℚ)) : Prop where
  sum_eq : (l.map Prod.snd).sum = roundMoney amount c
  keys : (l.map Prod.fst).Sublist (parts.map Prod.fst)
  sign : (∀ p ∈ l, 0 ≤ p.2) ∨ ∀ p ∈ l, p.2 ≤ 0

theorem sharesOf_head (p : String × ℚ) (amount : ℚ) (c : String) :
    SharesOf (p :: parts) amount c [(p.1, roundMoney amount c)] where
  sum_eq := by simp
  keys := by simp
  sign := by simpa using le_total 0 (roundMoney amount c)

theorem sharesOf_weighted {weighted : List (String × ℚ)} (hsub : weighted.Sublist parts)
    (hpos : ∀ p ∈ weighted, 0 < p.2) (hne : weighted ≠ []) :
    SharesOf parts amount c
      ((weighted.map Prod.fst).zip (allocateProRata amount (weighted.map Prod.snd) c)) := by
  have hlength : (weighted.map Prod.fst).length =
      (allocateProRata amount (weighted.map Prod.snd) c).length := by
    rw [length_allocateProRata, List.length_map, List.length_map]
  have hweights : ∀ w ∈ weighted.map Prod.snd, 0 < w := by
    intro w hw
    obtain ⟨p, hp, rfl⟩ := List.mem_map.1 hw
    exact hpos p hp
  have hsum : (weighted.map Prod.snd).sum ≠ 0 :=
    (List.sum_pos _ hweights (by simpa using hne)).ne'
  constructor
  · rw [List.map_snd_zip hlength.ge, sum_allocateProRata hsum]
  · rw [List.map_fst_zip hlength.le]
    exact hsub.map _
  · rcases allocateProRata_sign (fun w hw => (hweights w hw).le) amount c with hnn | hnp
    · exact .inl fun p hp => hnn p.2 (List.of_mem_zip hp).2
    · exact .inr fun p hp => hnp p.2 (List.of_mem_zip hp).2

theorem shares_spec (hparts : parts ≠ []) :
    ∃ l, shares parts amount c = some l ∧ SharesOf parts amount c l := by
  unfold shares
  split
  · obtain ⟨p, parts, rfl⟩ := List.exists_cons_of_ne_nil hparts
    exact ⟨_, rfl, sharesOf_head p amount c⟩
  · next hne =>
    refine ⟨_, rfl, sharesOf_weighted (List.filter_sublist) ?_ (by simpa using hne)⟩
    intro p hp
    simpa using List.of_mem_filter hp

end

/-! ## What the claims of a line carry -/

/-- A line's cost on an account. -/
def HeldLine.costOn (held : HeldLine) (key : Option String) : ℚ :=
  (key.bind fun k => held.byKey.lookup k).getD 0

deriving instance DecidableEq for HeldLine

namespace ClaimBooks

/-- What is taken on an account. -/
def takenOn (taken : List Taken) (key : Option String) : List Taken := taken.filter (·.key = key)

/-- The shares of a line's cost on an account, by lot taken on it. -/
def lotShares (B : ClaimBooks) (held : HeldLine) (taken : List Taken) (key : Option String) :
    List (String × ℚ) :=
  (shares (weights (takenOn taken key)) (held.costOn key) B.currency).getD []

/-- No lot that bears any of a line's cost on an account is taken twice on it. -/
def TakenOnce (B : ClaimBooks) (held : HeldLine) (taken : List Taken) (key : Option String) : Prop :=
  ∀ p ∈ B.lotShares held taken key, p.2 ≠ 0 → ((takenOn taken key).map (·.lotId)).count p.1 = 1

instance instDecidableTakenOnce (B : ClaimBooks) (held : HeldLine) (taken : List Taken)
    (key : Option String) : Decidable (B.TakenOnce held taken key) :=
  inferInstanceAs (Decidable (∀ p ∈ B.lotShares held taken key, _))

/-- What the claims of a line on an account carry. -/
def claimedAmount (claims : List UnshippedClaim) (key : Option String) : ℚ :=
  ((claims.filter (·.key = key)).map (·.amount)).sum

section
variable {B : ClaimBooks} {held : HeldLine} {taken : List Taken} {key : Option String}

/-- One lot's weight written in. -/
def weigh (parts : List (String × ℚ)) (t : Taken) : List (String × ℚ) :=
  if t.lotId ∈ parts.map Prod.fst then parts.map fun p => if p.1 = t.lotId then (p.1, t.weight) else p
  else parts ++ [(t.lotId, t.weight)]

theorem keys_weigh (parts : List (String × ℚ)) (t : Taken) :
    (weigh parts t).map Prod.fst =
      if t.lotId ∈ parts.map Prod.fst then parts.map Prod.fst else parts.map Prod.fst ++ [t.lotId] := by
  unfold weigh
  split_ifs
  · rw [List.map_map]
    refine List.map_congr_left fun p _ => ?_
    simp only [Function.comp_apply]
    split_ifs <;> rfl
  · rw [List.map_append, List.map_singleton]

theorem foldl_weigh (taken : List Taken) : ∀ {parts : List (String × ℚ)}, (parts.map Prod.fst).Nodup →
    ((taken.foldl weigh parts).map Prod.fst).Nodup ∧
      ∀ lot, lot ∈ (taken.foldl weigh parts).map Prod.fst ↔
        lot ∈ parts.map Prod.fst ∨ lot ∈ taken.map (·.lotId) := by
  induction taken with
  | nil =>
    intro parts hparts
    exact ⟨hparts, fun lot => by simp⟩
  | cons t taken ih =>
    intro parts hparts
    have hkeys := keys_weigh parts t
    rw [List.foldl_cons, List.map_cons]
    by_cases hmem : t.lotId ∈ parts.map Prod.fst
    · rw [if_pos hmem] at hkeys
      obtain ⟨hnodup, hiff⟩ := ih (hkeys ▸ hparts)
      refine ⟨hnodup, fun lot => ?_⟩
      rw [hiff, hkeys, List.mem_cons]
      constructor
      · rintro (h | h)
        · exact .inl h
        · exact .inr (.inr h)
      · rintro (h | rfl | h)
        · exact .inl h
        · exact .inl hmem
        · exact .inr h
    · rw [if_neg hmem] at hkeys
      have hnodup' : (parts.map Prod.fst ++ [t.lotId]).Nodup := by
        rw [List.nodup_append_comm]
        exact List.nodup_cons.2 ⟨hmem, hparts⟩
      obtain ⟨hnodup, hiff⟩ := ih (hkeys ▸ hnodup')
      refine ⟨hnodup, fun lot => ?_⟩
      rw [hiff, hkeys, List.mem_append, List.mem_singleton, List.mem_cons, or_assoc]

/-- Each lot taken has one weight. -/
theorem weights_keys (taken : List Taken) :
    ((weights taken).map Prod.fst).Nodup ∧
      ∀ lot, lot ∈ (weights taken).map Prod.fst ↔ lot ∈ taken.map (·.lotId) := by
  obtain ⟨hnodup, hiff⟩ := @foldl_weigh taken [] List.nodup_nil
  exact ⟨hnodup, fun lot => (hiff lot).trans (by simp)⟩

/-- The shares over the lots taken on an account, where any is. -/
theorem lotShares_spec (htaken : takenOn taken key ≠ []) :
    ((B.lotShares held taken key).map Prod.snd).sum = roundMoney (held.costOn key) B.currency ∧
      ((B.lotShares held taken key).map Prod.fst).Nodup ∧
      (∀ p ∈ B.lotShares held taken key, p.1 ∈ (takenOn taken key).map (·.lotId)) ∧
      ((∀ p ∈ B.lotShares held taken key, 0 ≤ p.2) ∨ ∀ p ∈ B.lotShares held taken key, p.2 ≤ 0) := by
  obtain ⟨hnodup, hkeys⟩ := weights_keys (takenOn taken key)
  have hne : weights (takenOn taken key) ≠ [] := by
    intro hnil
    obtain ⟨t, ts, hcons⟩ := List.exists_cons_of_ne_nil htaken
    have hmem := (hkeys t.lotId).2 (by simp [hcons])
    simp [hnil] at hmem
  obtain ⟨l, hl, hshares⟩ := @shares_spec _ (held.costOn key) B.currency hne
  rw [lotShares, hl, Option.getD_some]
  refine ⟨hshares.sum_eq, hshares.keys.nodup hnodup, fun p hp => ?_, hshares.sign⟩
  exact (hkeys p.1).1 (hshares.keys.subset (List.mem_map_of_mem hp))

/-- What the lots taken on an account bear comes to the rounded cost exactly when no lot
    that bears any of it is taken twice. -/
theorem sum_lotShares_iff (htaken : takenOn taken key ≠ []) :
    ((takenOn taken key).map fun t => ((B.lotShares held taken key).lookup t.lotId).getD 0).sum =
        roundMoney (held.costOn key) B.currency ↔ B.TakenOnce held taken key := by
  obtain ⟨hsum, hnodup, hmem, hsign⟩ := @lotShares_spec B held taken key htaken
  have hlots : (takenOn taken key).map (fun t => ((B.lotShares held taken key).lookup t.lotId).getD 0) =
      ((takenOn taken key).map (·.lotId)).map fun lot => ((B.lotShares held taken key).lookup lot).getD 0 := by
    rw [List.map_map]
    rfl
  rw [hlots, sum_lookup hnodup, ← hsum]
  exact sum_count_eq_iff hmem hsign

/-- The claims of a line carry what the lots taken bear. -/
theorem claimedAmount_claimLine {heldWhere : String → List ItemRow} {docId : String} {used : Used}
    {t : List Taken × Used} {c : List UnshippedClaim × Used}
    (ht : B.claimLots heldWhere docId held.alloc.lots held.unshipped used = .ok t)
    (hc : B.claimLine heldWhere docId held used = .ok c) (key : Option String) :
    claimedAmount c.1 key =
      ((takenOn t.1 key).map fun taken => ((B.lotShares held t.1 key).lookup taken.lotId).getD 0).sum := by
  unfold claimLine at hc
  obtain ⟨t', ht', hc⟩ := bind_eq_ok.1 hc
  obtain rfl := Except.ok.inj (ht.symm.trans ht')
  obtain rfl := Except.ok.inj hc
  rw [claimedAmount, List.filter_map, List.map_map]
  have hperm := (perm_grouped (·.key) t.1).filter (fun taken => decide (taken.key = key))
  refine ((hperm.map _).sum_eq).trans (congrArg List.sum (List.map_congr_left fun taken htaken => ?_))
  obtain rfl : taken.key = key := by simpa using (List.mem_filter.1 htaken).2
  rfl

end

/-! ## The loop line by line -/

/-- A line's turn in the loop: what claims ahead of it took, and its claims. -/
structure LineTurn where
  docId : String
  held : HeldLine
  used : Used
  claims : List UnshippedClaim

/-- Lines one after another, each around what the lines ahead of it took. -/
inductive LineTurns (B : ClaimBooks) (roots : List String) : Used → List LineTurn → Used → Prop
  | done (used : Used) : LineTurns B roots used [] used
  | next {turn : LineTurn} {turns : List LineTurn} {used used' used'' : Used} : turn.used = used →
      B.claimLine (B.items.heldWhere roots) turn.docId turn.held used = .ok (turn.claims, used') →
      LineTurns B roots used' turns used'' → LineTurns B roots used (turn :: turns) used''

section
variable {B : ClaimBooks} {roots : List String} {used used' used'' : Used} {turns more : List LineTurn}

theorem LineTurns.append (h : LineTurns B roots used turns used') (h' : LineTurns B roots used' more used'') :
    LineTurns B roots used (turns ++ more) used'' := by
  induction h with
  | done => exact h'
  | next hused hline _ ih => exact .next hused hline (ih h')

theorem LineTurns.claimLine (h : LineTurns B roots used turns used') : ∀ turn ∈ turns,
    ∃ after, B.claimLine (B.items.heldWhere roots) turn.docId turn.held turn.used = .ok (turn.claims, after) := by
  induction h with
  | done => exact fun _ h => absurd h List.not_mem_nil
  | next hused hline _ ih => exact List.forall_mem_cons.2 ⟨⟨_, hused ▸ hline⟩, ih⟩

/-- A line's turn starts at what the claims ahead of it took. -/
theorem LineTurns.before {turn : LineTurn} : ∀ {ahead : List LineTurn} {used : Used},
    LineTurns B roots used (ahead ++ turn :: more) used' →
      turn.used = fun lot => used lot + claimed (ahead.flatMap (·.claims)) lot
  | [], used, h => by
    cases h with
    | next hused _ _ =>
      ext lot
      simp [claimed, hused]
  | first :: ahead, used, h => by
    cases h with
    | next _ hline hrest =>
      have hmoved := (claimLine_within hline).1.used_eq
      simp only at hmoved
      rw [LineTurns.before hrest]
      ext lot
      rw [hmoved, List.flatMap_cons, claimed, claimed, List.map_append, total_append, add_assoc]

theorem claimLines_turns {docId : String} : ∀ {lines : List HeldLine} {used : Used}
    {c : List UnshippedClaim × Used}, B.claimLines (B.items.heldWhere roots) docId lines used = .ok c →
      ∃ turns, LineTurns B roots used turns c.2 ∧ turns.map (·.held) = lines ∧
        c.1 = turns.flatMap (·.claims) ∧ ∀ turn ∈ turns, turn.docId = docId
  | [], used, c, h => by
    obtain rfl := Except.ok.inj h
    exact ⟨[], .done used, rfl, rfl, fun _ h => absurd h List.not_mem_nil⟩
  | held :: lines, used, c, h => by
    unfold claimLines at h
    obtain ⟨first, hfirst, h⟩ := bind_eq_ok.1 h
    obtain ⟨rest, hrest, h⟩ := bind_eq_ok.1 h
    obtain rfl := Except.ok.inj h
    obtain ⟨turns, hturns, hlines, hclaims, hdoc⟩ := claimLines_turns hrest
    refine ⟨⟨docId, held, used, first.1⟩ :: turns, .next rfl hfirst hturns, ?_, ?_, ?_⟩
    · rw [List.map_cons, hlines]
    · rw [List.flatMap_cons, ← hclaims]
    · exact List.forall_mem_cons.2 ⟨rfl, hdoc⟩

/-- A line an invoice holds is one its allocations give. -/
theorem heldLine_of_recognized {inv : OpenInvoice} {r : List (String × ℚ) × List HeldLine}
    (h : B.recognizedByAccount inv = .ok r) {held : HeldLine} (hheld : held ∈ r.2) :
    ∃ a, (held.index, a) ∈ inv.allocations ∧ B.heldLine inv held.index a = .ok (some held) := by
  unfold recognizedByAccount at h
  obtain ⟨shipped, -, h⟩ := bind_eq_ok.1 h
  obtain ⟨-, -, h⟩ := bind_eq_ok.1 h
  obtain ⟨opts, hopts, h⟩ := bind_eq_ok.1 h
  obtain rfl := Except.ok.inj h
  have hmem : some held ∈ opts := List.reduceOption_mem_iff.1 hheld
  obtain ⟨a, ha, hline⟩ := exists_of_mem_right (forall₂_of_mapM_eq_ok hopts) hmem
  obtain ⟨hindex, -, -⟩ := heldLine_eq hline
  exact ⟨a.2, hindex ▸ ha, hindex ▸ hline⟩

/-- A turn is a line an invoice holds. -/
def TurnOf (B : ClaimBooks) (inv : OpenInvoice) (turn : LineTurn) : Prop :=
  turn.docId = inv.docId ∧ ∃ a, (turn.held.index, a) ∈ inv.allocations ∧
    B.heldLine inv turn.held.index a = .ok (some turn.held)

/-- The claims of invoices are those of their lines, each line once. -/
theorem claimInvoices_turns : ∀ {invoices : List OpenInvoice} {used : Used}
    {c : List UnshippedClaim × Used}, (invoices.map (·.docId)).Nodup →
      B.claimInvoices (B.items.heldWhere roots) invoices used = .ok c →
      ∃ turns, LineTurns B roots used turns c.2 ∧ c.1 = turns.flatMap (·.claims) ∧
        (turns.map fun turn => (turn.docId, turn.held.index)).Nodup ∧
        ∀ turn ∈ turns, ∃ inv ∈ invoices, TurnOf B inv turn
  | [], used, c, _, h => by
    obtain rfl := Except.ok.inj h
    exact ⟨[], .done used, rfl, List.nodup_nil, fun _ h => absurd h List.not_mem_nil⟩
  | inv :: invoices, used, c, hdocs, h => by
    rw [List.map_cons, List.nodup_cons] at hdocs
    unfold claimInvoices at h
    obtain ⟨r, hr, h⟩ := bind_eq_ok.1 h
    obtain ⟨first, hfirst, h⟩ := bind_eq_ok.1 h
    obtain ⟨rest, hrest, h⟩ := bind_eq_ok.1 h
    obtain rfl := Except.ok.inj h
    obtain ⟨turns, hturns, hlines, hclaims, hdoc⟩ := claimLines_turns hfirst
    obtain ⟨more, hmore, hclaims', hnodup', hturnOf⟩ := claimInvoices_turns hdocs.2 hrest
    refine ⟨turns ++ more, hturns.append hmore, ?_, ?_, ?_⟩
    · rw [List.flatMap_append, ← hclaims, ← hclaims']
    · have hkeys : turns.map (fun turn => (turn.docId, turn.held.index)) =
          (turns.map (·.held)).map fun held => (inv.docId, held.index) := by
        rw [List.map_map]
        exact List.map_congr_left fun turn hturn => by rw [hdoc turn hturn]; rfl
      have hindex : ((turns.map (·.held)).map (·.index)).Nodup := by
        rw [hlines]
        exact ((List.perm_insertionSort _ _).map _).nodup_iff.2 (recognized_held hr).1
      rw [List.map_append, List.nodup_append']
      refine ⟨?_, hnodup', ?_⟩
      · rw [hkeys]
        refine List.Nodup.of_map Prod.snd ?_
        rw [List.map_map]
        exact hindex
      · intro k hk hk'
        obtain ⟨turn, hturn, rfl⟩ := List.mem_map.1 hk
        obtain ⟨turn', hturn', heq⟩ := List.mem_map.1 hk'
        obtain ⟨inv', hinv', hdoc', -⟩ := hturnOf turn' hturn'
        have hsame : inv'.docId = inv.docId :=
          hdoc'.symm.trans ((congrArg Prod.fst heq).trans (hdoc turn hturn))
        exact hdocs.1 (hsame ▸ List.mem_map_of_mem hinv')
    · intro turn hturn
      rcases List.mem_append.1 hturn with hturn | hturn
      · have hheld : turn.held ∈ r.2 := by
          have hmem : turn.held ∈ turns.map (·.held) := List.mem_map_of_mem hturn
          rw [hlines] at hmem
          exact (List.mem_insertionSort _).1 hmem
        exact ⟨inv, List.mem_cons_self, hdoc turn hturn, heldLine_of_recognized hr hheld⟩
      · obtain ⟨inv', hinv', hturnOf⟩ := hturnOf turn hturn
        exact ⟨inv', List.mem_cons_of_mem _ hinv', hturnOf⟩

end

/-! ## The cost claimed -/

/-- What is taken for a line, around what the claims ahead of its own took. -/
def LineTakes (B : ClaimBooks) (invoices : OpenInvoices) (claims : List UnshippedClaim) (docId : String)
    (held : HeldLine) (taken : List Taken) : Prop :=
  ∃ ahead behind used, claims = ahead ++ lineClaims claims docId held.index ++ behind ∧
    B.claimLots (B.items.heldWhere (allocatedLots invoices.list)) docId held.alloc.lots held.unshipped
      (claimed ahead) = .ok (taken, used)

section
variable {B : ClaimBooks} {roots : List String} {used used' : Used} {turns : List LineTurn} {turn : LineTurn}

theorem LineTurns.tagged (h : LineTurns B roots used turns used') (hturn : turn ∈ turns) :
    ∀ c ∈ turn.claims, c.docId = turn.docId ∧ c.line = turn.held.index := by
  obtain ⟨after, hline⟩ := h.claimLine turn hturn
  exact (claimLine_within hline).2.tagged

/-- The claims of a line are those of its turn. -/
theorem LineTurns.lineClaims_eq (h : LineTurns B roots used turns used')
    (hnodup : (turns.map fun turn => (turn.docId, turn.held.index)).Nodup) (hturn : turn ∈ turns) :
    lineClaims (turns.flatMap (·.claims)) turn.docId turn.held.index = turn.claims := by
  rw [← filter_flatMap_key (fun c : UnshippedClaim => (c.docId, c.line))
    (fun turn : LineTurn => (turn.docId, turn.held.index)) (f := fun turn => turn.claims)
    (fun turn hturn c hc => Prod.ext (h.tagged hturn c hc).1 (h.tagged hturn c hc).2) hnodup hturn,
    lineClaims, claimsOf, List.filter_filter]
  refine List.filter_congr fun c _ => ?_
  rw [← Bool.decide_and]
  simp only [Prod.mk.injEq, and_comm]

end

/-- **When a line's cost is claimed once.**  The claims of a line on an account come to the
    cost the line recognised on it, rounded, exactly when no lot that bears any of it is
    taken twice for the line on the account. -/
theorem claimedCost_iff (B : ClaimBooks) (invoices : OpenInvoices) (claims : List UnshippedClaim)
    (h : B.unshippedClaims invoices = .ok claims) (c : UnshippedClaim) (hc : c ∈ claims) :
    ∃ inv ∈ invoices.list, c.docId = inv.docId ∧
      ∃ a held taken, (c.line, a) ∈ inv.allocations ∧ B.heldLine inv c.line a = .ok (some held) ∧
        B.LineTakes invoices claims c.docId held taken ∧
        (claimedAmount (lineClaims claims c.docId c.line) c.key = roundMoney (held.costOn c.key) B.currency ↔
          B.TakenOnce held taken c.key) := by
  obtain ⟨used, hused⟩ := unshippedClaims_eq_ok h
  have hdocs : ((invoices.list.insertionSort FinalizedBy).map (·.docId)).Nodup :=
    ((List.perm_insertionSort _ _).map _).nodup_iff.2 invoices.nodup
  obtain ⟨turns, hturns, hclaims, hnodup, hturnOf⟩ := claimInvoices_turns hdocs hused
  simp only at hclaims hturns
  obtain ⟨turn, hturn, hmem⟩ := List.mem_flatMap.1 (hclaims ▸ hc)
  obtain ⟨inv, hinv, hdoc, a, ha, hheld⟩ := hturnOf turn hturn
  obtain ⟨hcdoc, hcline⟩ := hturns.tagged hturn c hmem
  have hmine : lineClaims claims c.docId c.line = turn.claims := by
    rw [hclaims, hcdoc, hcline]
    exact hturns.lineClaims_eq hnodup hturn
  obtain ⟨after, hline⟩ := hturns.claimLine turn hturn
  obtain ⟨ahead, behind, hsplit⟩ := List.append_of_mem hturn
  have hbefore : turn.used = claimed (ahead.flatMap (·.claims)) := by
    rw [hsplit] at hturns
    rw [hturns.before]
    ext lot
    rw [zero_add]
  -- what the line takes, and that it takes something on the claim's account
  have hline' := hline
  unfold claimLine at hline'
  obtain ⟨t, ht, hmade⟩ := bind_eq_ok.1 hline'
  have htaken : takenOn t.1 c.key ≠ [] := by
    have hmade' := (congrArg Prod.fst (Except.ok.inj hmade)).symm
    simp only at hmade'
    rw [hmade'] at hmem
    obtain ⟨taken, htaken, rfl⟩ := List.mem_map.1 hmem
    refine List.ne_nil_of_mem (a := taken) (List.mem_filter.2 ⟨?_, by simp⟩)
    exact (perm_grouped (·.key) t.1).mem_iff.1 htaken
  refine ⟨inv, (List.mem_insertionSort _).1 hinv, hcdoc.trans hdoc, a, turn.held, t.1, hcline ▸ ha,
    hcline ▸ hheld, ⟨ahead.flatMap (·.claims), behind.flatMap (·.claims), t.2, ?_, ?_⟩, ?_⟩
  · rw [← hcline, hmine, hclaims, hsplit]
    simp
  · rw [← hbefore, hcdoc]
    exact ht
  · rw [hmine, claimedAmount_claimLine ht hline, sum_lotShares_iff htaken]

/-- The rings with their claims costed. -/
def costedRings : ClaimBooks := { splitRings with costed := true }

def costedClaims : List UnshippedClaim :=
  [⟨"doc:1", 0, "item:a", 5, some "1200", 50, 50⟩, ⟨"doc:1", 0, "item:x", 5, some "1200", 50, 150⟩]

theorem firstSale_claimed :
    ∃ inv ∈ firstSale.list, "doc:1" = inv.docId ∧
      ∃ a held taken, (0, a) ∈ inv.allocations ∧ costedRings.heldLine inv 0 a = .ok (some held) ∧
        costedRings.LineTakes firstSale costedClaims "doc:1" held taken ∧
        (claimedAmount (lineClaims costedClaims "doc:1" 0) (some "1200") =
            roundMoney (held.costOn (some "1200")) "USD" ↔
          costedRings.TakenOnce held taken (some "1200")) :=
  claimedCost_iff costedRings firstSale costedClaims (by decide +kernel)
    ⟨"doc:1", 0, "item:a", 5, some "1200", 50, 50⟩ (by decide +kernel)

/-- Five rings merged into a lot. -/
def mergedLot (id into : String) : ItemRow :=
  { ringLot id 5 none with
    state := { (ringLot id 5 none).state with status := "merged", mergedInto := some into } }

/-- Two lots of five rings, merged into one of ten. -/
def mergedRings : ClaimBooks :=
  { costedRings with
    items := ⟨[mergedLot "item:a" "item:m", mergedLot "item:b" "item:m", ringLot "item:m" 10 none], by decide⟩ }

/-- Five rings of each lot, as a line was allocated them. -/
def bothLots : Allocation := ⟨[⟨"item:a", 5, 10, some "1200"⟩, ⟨"item:b", 5, 10, some "1200"⟩], 0, 100⟩

/-- An invoice of the one line. -/
def mergedSale : OpenInvoices :=
  ⟨[{ ringSale "doc:1" 1 "item:a" 10 with
      allocations := [(0, bothLots)], nodup := by decide }], by decide⟩

def mergedClaims : List UnshippedClaim :=
  [⟨"doc:1", 0, "item:m", 5, some "1200", 100, 100⟩, ⟨"doc:1", 0, "item:m", 5, some "1200", 100, 100⟩]

/-- The lot the two were merged into is taken for each of them, and bears the whole 100 both
    times: the line recognised 100, and 200 is claimed. -/
theorem mergedSale_claimed_twice :
    ¬ ∀ (B : ClaimBooks) (invoices : OpenInvoices) (claims : List UnshippedClaim), B.costed = true →
      B.unshippedClaims invoices = .ok claims → ∀ c ∈ claims, ∀ inv ∈ invoices.list, c.docId = inv.docId →
        ∀ a held, (c.line, a) ∈ inv.allocations → B.heldLine inv c.line a = .ok (some held) →
          claimedAmount (lineClaims claims c.docId c.line) c.key = roundMoney (held.costOn c.key) B.currency := by
  intro h
  have hclaimed := h mergedRings mergedSale mergedClaims rfl (by decide +kernel)
    ⟨"doc:1", 0, "item:m", 5, some "1200", 100, 100⟩ (by decide +kernel) _ List.mem_cons_self rfl
    bothLots ⟨0, bothLots, [("1200", 100)], 10⟩ List.mem_cons_self (by decide +kernel)
  revert hclaimed
  decide +kernel

end ClaimBooks

end Celerp
