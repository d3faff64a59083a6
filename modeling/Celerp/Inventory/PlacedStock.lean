/-
  The books check after older stock is placed (`celerp/services/lot_origin.py`).

  `room_place` is what an account holds as stock beyond the lots recorded on it once the
  stock is placed (`leftOn`): what rounding its room leaves, and on the default account
  the part of the accounts' difference that is not booked (`leftOn_eq`).  The placement
  reads the uncertain lines of all accounts together, the check for each account its own,
  so on ordinary books it reports no difference exactly where the default account's own
  lines explain the accounts' difference, or no other account has a line that would
  (`placed_stock_agrees`).
-/
import Celerp.Inventory.PlacementSteps

namespace Celerp

open AccountRole Grouping Tally

namespace StockBooks
variable {b : StockBooks} {code : String}

/-! ## What a placement posts -/

section
variable {chart : Chart} {target jeId trigger : String} {posted : List PostedLine}

theorem stockBalance_eq (b : StockBooks) (code : String) :
    b.stockBalance code = stockMoved b.roles code (b.entries.map (·.toRoleLine)) := by
  unfold stockBalance stockMoved
  rw [List.filter_map, List.map_map]
  rfl

theorem isWhole_roomOf (b : StockBooks) (code : String) : IsWhole b.currency (b.roomOf code) :=
  isWhole_roundMoney _ _

theorem isWhole_moved {m : String × ℚ} (hm : m ∈ b.moved chart target) : IsWhole b.currency m.2 := by
  obtain ⟨c, -, rfl⟩ := List.mem_map.1 hm
  exact isWhole_roomOf b c

theorem isWhole_sum_moved : IsWhole b.currency ((b.moved chart target).map Prod.snd).sum := by
  refine IsWhole.sum fun v hv => ?_
  obtain ⟨m, hm, rfl⟩ := List.mem_map.1 hv
  exact isWhole_moved hm

theorem whole_lotLine {roles : PostingRoles} {currency key : String} {debit credit : ℚ}
    (hdebit : IsWhole currency debit) (hcredit : IsWhole currency credit) :
    (lotLine roles key debit credit).Whole currency := ⟨hdebit, hcredit⟩

theorem whole_transferLines : ∀ l ∈ transferLines b.roles target (b.moved chart target), l.Whole b.currency := by
  have hzero := isWhole_zero b.currency
  have hsum : IsWhole b.currency ((b.moved chart target).map Prod.snd).sum := isWhole_sum_moved
  intro l hl
  unfold transferLines at hl
  dsimp only at hl
  rw [List.mem_append, List.mem_append, List.mem_append] at hl
  rcases hl with ((hl | hl) | hl) | hl
  · split_ifs at hl
    · rw [List.mem_singleton.1 hl]
      exact whole_lotLine hsum hzero
    · cases hl
  · obtain ⟨m, hm, rfl⟩ := List.mem_map.1 hl
    exact whole_lotLine (isWhole_moved (List.mem_filter.1 hm).1).neg hzero
  · obtain ⟨m, hm, rfl⟩ := List.mem_map.1 hl
    exact whole_lotLine hzero (isWhole_moved (List.mem_filter.1 hm).1)
  · split_ifs at hl
    · rw [List.mem_singleton.1 hl]
      exact whole_lotLine hzero hsum.neg
    · cases hl

/-- What the opening entry of one account posts as stock. -/
theorem postOpening_spec {v : ℚ} (hscope : InScope b.roles code) (hv : IsWhole b.currency v)
    (h : b.postOpeningStockDelta chart jeId trigger [(target, v)] true = some posted) :
    stockMoved b.roles code (posted.map (·.toRoleLine)) =
        (if holdsLots b.roles code then total code [(partyCode target, v)] else 0) ∧
      ∀ l ∈ posted, uncertainStockLine b.roles l.toRoleLine = false := by
  unfold postOpeningStockDelta at h
  rw [List.insertionSort_cons, List.insertionSort_nil, List.orderedInsert_nil, List.map_singleton,
    roundMoney_of_isWhole hv] at h
  by_cases hzero : v = 0
  · subst hzero
    rw [List.filter_cons_of_neg (by simp), List.filter_nil, if_pos rfl, Option.some.injEq] at h
    subst h
    simp
  · rw [List.filter_cons_of_pos (by simpa using hzero), List.filter_nil] at h
    dsimp only at h
    rw [if_neg (List.cons_ne_nil _ _)] at h
    split_ifs at h with hproblem
    obtain ⟨retained, -, h⟩ := Option.bind_eq_some_iff.1 h
    have hwhole : ∀ l ∈ openingLines b.roles [(target, v)] true retained, l.Whole b.currency := by
      intro l hl
      rcases List.mem_cons.1 hl with rfl | hl
      · exact whole_lotLine hv (isWhole_zero _)
      · rw [List.mem_singleton.1 hl]
        exact ⟨isWhole_zero _, by simpa [Line.creditOf] using hv⟩
    have hspec : stockMoved b.roles code (posted.map (·.toRoleLine)) = _ ∧ _ := postEntry_spec hwhole h
    rw [hspec.1, stockMoved_openingLines hscope]
    exact ⟨rfl, hspec.2⟩

end

/-! ## What a placement leaves -/

section
variable {chart : Chart} {target : String} {hash : String → String} {b' : StockBooks}

/-- What the entries of a placement move on the accounts they name. -/
def entryMoves (b : StockBooks) (chart : Chart) (target : String) : List (String × ℚ) :=
  (partyCode target, ((b.moved chart target).map Prod.snd).sum + max (-b.gap chart) 0) ::
    (b.moved chart target).map fun m => (partyCode m.1, -m.2)

/-- What is left on an account once its lots, entries and difference are recorded. -/
def leftOn (b : StockBooks) (chart : Chart) (target code : String) : ℚ :=
  b.room b.items.rows code
    + (if holdsLots b.roles code then total code (b.entryMoves chart target) else 0)
    - if code = target then b.olderValue + max (b.gap chart) 0 else 0

/-- What the transfer entry posts. -/
theorem transfer_spec {pid : String} {posted : List PostedLine}
    (h : b.transferEntry chart target pid = some posted) :
    (∀ l ∈ posted, uncertainStockLine b.roles l.toRoleLine = false) ∧
      ∀ code, InScope b.roles code → stockMoved b.roles code (posted.map (·.toRoleLine)) =
        if holdsLots b.roles code then total code ((partyCode target, ((b.moved chart target).map Prod.snd).sum) ::
          (b.moved chart target).map fun m => (partyCode m.1, -m.2)) else 0 := by
  unfold transferEntry at h
  split_ifs at h with hmoved
  · obtain rfl := Option.some.inj h
    rw [hmoved]
    simp
  · have hspec : stockMoved b.roles "" (posted.map (·.toRoleLine)) = _ ∧ _ := postEntry_spec whole_transferLines h
    refine ⟨hspec.2, fun code hscope => ?_⟩
    rw [(postEntry_spec whole_transferLines h).1, stockMoved_transferLines hscope]

/-- What the opening entry posts. -/
theorem opening_spec {pid : String} {posted : List PostedLine}
    (h : b.openingEntry chart target pid = some posted) :
    ∀ code, InScope b.roles code →
      (∀ l ∈ posted, uncertainStockLine b.roles l.toRoleLine = false) ∧
      stockMoved b.roles code (posted.map (·.toRoleLine)) =
        if holdsLots b.roles code then total code [(partyCode target, max (-b.gap chart) 0)] else 0 := by
  intro code hscope
  unfold openingEntry at h
  split_ifs at h with hgap
  · have hwhole : IsWhole b.currency (-b.gap chart) := (isWhole_roundMoney _ _).neg
    obtain ⟨hmoved, huncertain⟩ := postOpening_spec hscope hwhole h
    rw [hmoved, max_eq_left (neg_nonneg.2 hgap.le)]
    exact ⟨huncertain, rfl⟩
  · obtain rfl := Option.some.inj h
    rw [max_eq_right (neg_nonpos.2 (not_lt.1 hgap))]
    simp

/-- What a placement changes: the lots record the target, the entries are posted and a
    record keeps the difference. -/
theorem place_spec (hchart : b.chart = some chart) (htarget : b.defaultAccount chart = some target)
    (h : b.place hash = some b') : ∃ (posted : List PostedLine) (record : Placement),
    b' = { b with
      items := b.items.recordAccount (b.pending.map (·.entityId)) target
      entries := b.entries ++ posted
      placements := b.placements ++ [record]
      recorded := b.recorded ++ b.pending.map (·.entityId) } ∧
    record.account = target ∧ record.unresolved = max (b.gap chart) 0 ∧
    ∀ code, InScope b.roles code →
      (∀ l ∈ posted, uncertainStockLine b.roles l.toRoleLine = false) ∧
      stockMoved b.roles code (posted.map (·.toRoleLine)) =
        if holdsLots b.roles code then total code (b.entryMoves chart target) else 0 := by
  unfold place at h
  obtain ⟨chart', hchart', h⟩ := Option.bind_eq_some_iff.1 h
  obtain rfl : chart = chart' := Option.some.inj (hchart.symm.trans hchart')
  split_ifs at h with hpending
  obtain ⟨target', htarget', h⟩ := Option.bind_eq_some_iff.1 h
  obtain rfl : target = target' := Option.some.inj (htarget.symm.trans htarget')
  split_ifs at h with hheld
  dsimp only at h
  obtain ⟨transfer, htransfer, h⟩ := Option.bind_eq_some_iff.1 h
  obtain ⟨opening, hopening, h⟩ := Option.bind_eq_some_iff.1 h
  let pid := hash ("\n".intercalate (b.companyId :: b.pending.map (·.entityId)))
  refine ⟨transfer ++ opening, b.placementRecord chart target pid, ?_, rfl, rfl, fun code hscope => ?_⟩
  · rw [← List.append_assoc]
    exact (Option.some.inj h).symm
  · obtain ⟨huncertain, hmoved⟩ := transfer_spec htransfer
    obtain ⟨huncertain', hmoved'⟩ := opening_spec hopening code hscope
    constructor
    · intro l hl
      exact (List.mem_append.1 hl).elim (huncertain l) (huncertain' l)
    · rw [List.map_append, stockMoved_append, hmoved code hscope, hmoved', entryMoves, total_cons, total_cons,
        total_cons, total_nil]
      split_ifs <;> ring

/-- What an account holds as stock beyond the lots recorded on it, once the stock is
    placed. -/
theorem room_place {code : String} (hchart : b.chart = some chart) (htarget : b.defaultAccount chart = some target)
    (hplace : b.place hash = some b') (hsold : b.sold UNPLACED = 0) (hscope : InScope b.roles code) :
    b'.room b'.items.rows code = b.leftOn chart target code := by
  obtain ⟨posted, record, rfl, haccount, hunresolved, hposted⟩ := place_spec hchart htarget hplace
  obtain ⟨-, hmoved⟩ := hposted code hscope
  have hnone : ∀ row ∈ b.items.rows, row.entityId ∈ b.pending.map (·.entityId) →
      row.state.inventoryAccount = none := fun row => inventoryAccount_of_pending
  unfold room leftOn room sold
  rw [stockBalance_eq, stockBalance_eq, get_unresolvedDifferences, get_unresolvedDifferences,
    sum_recordAccount hnone, sum_pending, recognizedUnshipped_recordAccount hnone hsold]
  dsimp only
  rw [← olderValue_eq, List.map_append, stockMoved_append, hmoved, List.map_append, List.sum_append, List.map_singleton,
    List.sum_singleton, haccount, hunresolved]
  by_cases hcode : code = target
  · subst hcode
    simp only [if_true]
    ring
  · simp only [hcode, Ne.symm hcode, if_false]
    ring

/-! ### On the accounts as they are named -/

theorem nodup_candidates (b : StockBooks) (chart : Chart) : (b.candidates chart).Nodup := by
  have husable : (b.usable chart).Nodup := nodup_keysOf _ _
  unfold candidates
  split_ifs
  · refine List.nodup_append'.2 ⟨husable.filter _, husable.filter _, fun c hc hc' => ?_⟩
    have hopening := (List.mem_filter.1 hc).2
    have hother := (List.mem_filter.1 hc').2
    rw [decide_eq_true_eq] at hopening hother
    exact hother hopening
  · exact husable

theorem mem_usable_of_mem_candidates {c : String} (h : c ∈ b.candidates chart) : c ∈ b.usable chart := by
  unfold candidates at h
  split_ifs at h
  · rcases List.mem_append.1 h with h | h
    · exact (List.mem_filter.1 h).1
    · exact (List.mem_filter.1 h).1
  · exact h

theorem mem_candidates_of_mem_usable {c : String} (h : c ∈ b.usable chart) : c ∈ b.candidates chart := by
  unfold candidates
  split_ifs
  · rw [List.mem_append, List.mem_filter, List.mem_filter, decide_eq_true_eq, decide_eq_true_eq]
    by_cases hopening : b.roles.roleMap.lookup inventoryOpening = some c
    · exact .inl ⟨h, hopening⟩
    · exact .inr ⟨h, hopening⟩
  · exact h

/-- Every account is counted once. -/
theorem nodup_counts (b : StockBooks) (chart : Chart) : (b.counts chart).Nodup := by
  refine List.nodup_append'.2 ⟨b.nodup_candidates chart, (nodup_keysOf _ _).filter _, fun c hc hc' => ?_⟩
  have hcounted := (List.mem_filter.1 hc').2
  rw [decide_eq_true_eq] at hcounted
  exact hcounted.2.2 (mem_usable_of_mem_candidates hc)

/-- The default account is counted. -/
theorem mem_counts_of_default (h : b.defaultAccount chart = some target) : target ∈ b.counts chart := by
  refine List.mem_append_left _ ?_
  unfold defaultAccount at h
  split at h
  · rename_i c hfind
    rw [← Option.some.inj h]
    exact List.mem_of_find?_eq_some hfind
  · split at h
    · cases h
    · rename_i most hmost
      split_ifs at h
      · rw [← Option.some.inj h]
        exact List.argmax_mem hmost
      · exact mem_candidates_of_mem_usable (List.mem_of_mem_head? h)

theorem moved_eq (b : StockBooks) (chart : Chart) (target : String) : b.moved chart target =
    (((b.counts chart).erase target).filter (b.roomOf · ≠ 0)).map fun c => (c, b.roomOf c) := by
  unfold moved
  rw [(b.nodup_counts chart).erase_eq_filter, List.filter_filter]
  congr 2
  funext c
  rw [Bool.eq_iff_iff, Bool.and_eq_true, decide_eq_true_eq, decide_eq_true_eq, bne_iff_ne]
  exact and_comm

/-- What the other accounts hold together. -/
theorem sum_moved (h : target ∈ b.counts chart) :
    ((b.moved chart target).map Prod.snd).sum = ((b.counts chart).map b.roomOf).sum - b.roomOf target := by
  have hzero : ∀ l : List String, ((l.filter (b.roomOf · ≠ 0)).map b.roomOf).sum = (l.map b.roomOf).sum := by
    intro l
    induction l with
    | nil => rfl
    | cons c l ih =>
      rw [List.filter_cons, List.map_cons, List.sum_cons, ← ih]
      split_ifs with hc
      · rw [List.map_cons, List.sum_cons]
      · have : b.roomOf c = 0 := by simpa using hc
        rw [this, zero_add]
  rw [moved_eq, List.map_map, ← List.sum_map_erase b.roomOf h, add_sub_cancel_left, ← hzero]
  rfl

/-- On an account whose lot lines are stock, a placement leaves what rounding its room
    leaves, and on the default one the part of the difference that is not booked. -/
theorem leftOn_eq {code : String} (htarget : b.defaultAccount chart = some target) (hsold : b.sold UNPLACED = 0)
    (hplain : ∀ c ∈ b.counts chart, partyCode c = c) (hholds : holdsLots b.roles code)
    (hcode : code ∈ b.counts chart) :
    b.leftOn chart target code = b.room b.items.rows code - b.roomOf code +
      if code = target then b.pooled chart - b.gap chart else 0 := by
  have hmem := mem_counts_of_default htarget
  have hnames : (b.moved chart target).map (fun m => (partyCode m.1, -m.2)) =
      (((b.counts chart).erase target).filter (b.roomOf · ≠ 0)).map fun c => (c, -b.roomOf c) := by
    rw [moved_eq, List.map_map]
    refine List.map_congr_left fun c hc => ?_
    have hc' := hplain c (List.mem_of_mem_erase (List.mem_filter.1 hc).1)
    simp only [Function.comp_apply, hc']
  have hothers : total code ((b.moved chart target).map fun m => (partyCode m.1, -m.2)) =
      if code = target then 0 else -b.roomOf code := by
    rw [hnames, total_map_of_nodup (((b.nodup_counts chart).erase _).filter _)]
    simp only [List.mem_filter, (b.nodup_counts chart).mem_erase_iff, decide_eq_true_eq]
    by_cases hne : code = target
    · rw [if_neg fun h => h.1.1 hne, if_pos hne]
    · rw [if_neg hne]
      split_ifs with h
      · rfl
      · have hzero : b.roomOf code = 0 := by
          by_contra hroom
          exact h ⟨⟨hne, hcode⟩, hroom⟩
        rw [hzero, neg_zero]
  have howed : b.owed = b.olderValue := by
    unfold owed provisional
    rw [hsold, roundMoney_zero, sub_zero]
  have hgap : max (-b.gap chart) 0 - max (b.gap chart) 0 = -b.gap chart := by
    rcases le_total (b.gap chart) 0 with h | h
    · rw [max_eq_left (neg_nonneg.2 h), max_eq_right h, sub_zero]
    · rw [max_eq_right (neg_nonpos.2 h), max_eq_left h, zero_sub]
  unfold leftOn entryMoves pooled
  rw [if_pos hholds, total_cons, hothers, hplain target hmem, sum_moved hmem, howed]
  by_cases hne : code = target
  · subst hne
    simp only [if_true]
    linarith
  · rw [if_neg fun h => hne h.symm, if_neg hne, if_neg hne, if_neg hne]
    ring

/-! ### The books check -/

theorem mem_inventoryCodes {code : String} : code ∈ b.inventoryCodes ↔ InScope b.roles code := by
  unfold inventoryCodes inventoryScope distinct keysOf InScope
  rw [(List.perm_insertionSort _ _).mem_iff, List.mem_reverse, List.mem_dedup, List.mem_reverse, List.map_id,
    List.mem_append]

/-- The books check reports a difference on the accounts that hold one it cannot explain. -/
theorem no_gap_iff (b : StockBooks) : (∀ f ∈ b.stockOffBooks, ¬f.isGap) ↔
    ∀ code ∈ b.inventoryCodes, b.unexplained [code] (roundMoney (b.room b.items.rows code) b.currency) = 0 := by
  unfold stockOffBooks
  constructor
  · intro h code hcode
    by_contra hgap
    have hfinding : ∃ f, b.stockGapOn code = some f ∧ f.isGap := by
      unfold stockGapOn
      rw [room_heldItems]
      exact ⟨_, if_pos hgap, rfl⟩
    obtain ⟨f, hf, hisGap⟩ := hfinding
    exact h f (List.mem_append_left _ (List.mem_append_left _ (List.mem_append_right _
      (List.mem_filterMap.2 ⟨code, hcode, hf⟩)))) hisGap
  · intro h f hf
    rcases List.mem_append.1 hf with hf | hf
    · rcases List.mem_append.1 hf with hf | hf
      · rcases List.mem_append.1 hf with hf | hf
        · obtain ⟨row, -, rfl⟩ := List.mem_map.1 hf
          exact Bool.false_ne_true
        · obtain ⟨code, hcode, hfinding⟩ := List.mem_filterMap.1 hf
          unfold stockGapOn at hfinding
          rw [room_heldItems] at hfinding
          exact absurd (h code hcode) (by
            intro hzero
            rw [if_neg (not_not.2 hzero)] at hfinding
            cases hfinding)
      · obtain ⟨c, -, rfl⟩ := List.mem_map.1 hf
        exact Bool.false_ne_true
    · obtain ⟨d, -, rfl⟩ := List.mem_map.1 hf
      exact Bool.false_ne_true

/-- What the check reads of an account once the stock is placed. -/
theorem unexplained_place {code : String} (hchart : b.chart = some chart)
    (htarget : b.defaultAccount chart = some target) (hplace : b.place hash = some b') (hsold : b.sold UNPLACED = 0)
    (hscope : InScope b.roles code) :
    b'.unexplained [code] (roundMoney (b'.room b'.items.rows code) b'.currency) = 0 ↔
      Spread.Explains (b.uncertainMoves [code]) (roundMoney (b.leftOn chart target code) b.currency) := by
  rw [room_place hchart htarget hplace hsold hscope]
  obtain ⟨posted, record, hb', -, -, hposted⟩ := place_spec hchart htarget hplace
  have hlines : b'.uncertainLines [code] = b.uncertainLines [code] :=
    uncertainLines_append (by rw [hb']) (by rw [hb']) (hposted code hscope).1 [code]
  have hcurrency : b'.currency = b.currency := by rw [hb']
  unfold unexplained uncertainMoves
  rw [hlines, hcurrency]
  exact Spread.nearest_eq_zero

theorem inventoryCodes_place (h : b.place hash = some b') (hchart : b.chart = some chart)
    (htarget : b.defaultAccount chart = some target) : b'.inventoryCodes = b.inventoryCodes := by
  obtain ⟨posted, record, rfl, -⟩ := place_spec hchart htarget h
  rfl

/-! ### What each account's lines explain -/

/-- Books as the program keeps them: lines and recorded differences in whole minor units, and
    inventory accounts of plain names that do not owe consignors. -/
structure Ordinary (b : StockBooks) (chart : Chart) : Prop where
  wholeLines : ∀ l ∈ b.entries, l.Whole b.currency
  wholeDifferences : ∀ p ∈ b.placements, IsWhole b.currency p.unresolved
  plain : ∀ c ∈ b.counts chart, partyCode c = c
  holds : ∀ code ∈ b.inventoryCodes, holdsLots b.roles code

/-- Where the accounts together fall short of the older lots by more than the default account's
    own lines that may have been stock come to, no other account has such a line that moves
    stock onto it; where they hold more, none has one that moves stock off it; and what an
    account off the chart holds is explained by its own. -/
structure OwnLinesExplain (b : StockBooks) (chart : Chart) (target : String) : Prop where
  short : target ∈ b.inventoryCodes → b.pooled chart + Spread.high (b.uncertainMoves [target]) < 0 →
    ∀ l ∈ b.uncertainLines (b.counts chart), 0 < l.amount → l.account = target
  excess : target ∈ b.inventoryCodes → 0 < b.pooled chart + Spread.low (b.uncertainMoves [target]) →
    ∀ l ∈ b.uncertainLines (b.counts chart), l.amount < 0 → l.account = target
  offChart : ∀ code ∈ b.inventoryCodes, code ∉ b.counts chart →
    Spread.Explains (b.uncertainMoves [code]) (b.room b.items.rows code)

theorem Ordinary.isWhole_amount (h : b.Ordinary chart) {l : PostedLine} (hl : l ∈ b.entries) :
    IsWhole b.currency l.amount := (h.wholeLines l hl).1.sub (h.wholeLines l hl).2

theorem Ordinary.isWhole_room (h : b.Ordinary chart) (code : String) :
    IsWhole b.currency (b.room b.items.rows code) := by
  unfold room
  rw [get_unresolvedDifferences]
  refine ((IsWhole.sub ?_ ?_).add (isWhole_roundMoney _ _)).sub ?_
  · refine IsWhole.sum fun v hv => ?_
    obtain ⟨line, hline, rfl⟩ := List.mem_map.1 hv
    obtain ⟨l, hl, rfl⟩ := List.mem_map.1 hline
    split_ifs
    · exact h.isWhole_amount (List.mem_filter.1 hl).1
    · exact isWhole_zero _
  · refine IsWhole.sum fun v hv => ?_
    obtain ⟨row, -, rfl⟩ := List.mem_map.1 hv
    exact isWhole_roundMoney _ _
  · refine IsWhole.sum fun v hv => ?_
    obtain ⟨p, hp, rfl⟩ := List.mem_map.1 hv
    split_ifs
    · exact h.wholeDifferences p hp
    · exact isWhole_zero _

theorem isWhole_pooled (b : StockBooks) (chart : Chart) : IsWhole b.currency (b.pooled chart) := by
  refine (IsWhole.sum fun v hv => ?_).sub ((isWhole_roundMoney _ _).sub (isWhole_roundMoney _ _))
  obtain ⟨c, -, rfl⟩ := List.mem_map.1 hv
  exact isWhole_roomOf b c

/-- On whole books the difference a placement books or records needs no rounding. -/
theorem Ordinary.gap_eq (h : b.Ordinary chart) : b.gap chart = b.unexplained (b.counts chart) (b.pooled chart) := by
  have hmoves : ∀ p : ℚ → Bool, IsWhole b.currency ((b.uncertainMoves (b.counts chart)).filter p).sum := by
    refine fun p => IsWhole.sum fun v hv => ?_
    obtain ⟨l, hl, rfl⟩ := List.mem_map.1 (List.mem_filter.1 hv).1
    exact h.isWhole_amount (List.mem_filter.1 (List.mem_filter.1 hl).1).1
  refine roundMoney_of_isWhole ?_
  unfold unexplained Spread.nearest
  split_ifs
  · exact (isWhole_pooled b chart).add (hmoves _)
  · exact (isWhole_pooled b chart).add (hmoves _)
  · exact isWhole_zero _

/-- The lines of the default account that may have been stock, of those of all accounts. -/
theorem uncertainMoves_default (h : target ∈ b.counts chart) : b.uncertainMoves [target] =
    ((b.uncertainLines (b.counts chart)).filter (·.account = target)).map (·.amount) := by
  unfold uncertainMoves uncertainLines
  rw [List.filter_filter]
  congr 1
  refine List.filter_congr fun l _ => ?_
  by_cases hl : l.account = target
  · simp [hl, h]
  · simp [hl]

/-- An account off the chart keeps what it holds. -/
theorem leftOn_of_not_mem {code : String} (htarget : b.defaultAccount chart = some target)
    (hplain : ∀ c ∈ b.counts chart, partyCode c = c) (hcode : code ∉ b.counts chart) :
    b.leftOn chart target code = b.room b.items.rows code := by
  have hmem := mem_counts_of_default htarget
  have hnames : ∀ m ∈ b.entryMoves chart target, m.1 ≠ code := by
    intro m hm heq
    rcases List.mem_cons.1 hm with rfl | hm
    · exact hcode (heq ▸ (hplain target hmem).symm ▸ hmem)
    · obtain ⟨_, hmoved, rfl⟩ := List.mem_map.1 hm
      obtain ⟨c, hc, rfl⟩ := List.mem_map.1 hmoved
      have hc' := (List.mem_filter.1 hc).1
      exact hcode (heq ▸ (hplain c hc').symm ▸ hc')
  have hne : code ≠ target := fun heq => hcode (heq ▸ hmem)
  unfold leftOn
  rw [if_neg hne, total_eq_zero hnames]
  simp

/-- What the check reads of an account: what a placement leaves on it, against its own lines. -/
def ExplainsLeft (b : StockBooks) (chart : Chart) (target code : String) : Prop :=
  Spread.Explains (b.uncertainMoves [code]) (roundMoney (b.leftOn chart target code) b.currency)

section
variable (hbooks : b.Ordinary chart) (htarget : b.defaultAccount chart = some target) (hsold : b.sold UNPLACED = 0)
include hbooks htarget

theorem explainsLeft_offChart {code : String} (hcode : code ∉ b.counts chart) : b.ExplainsLeft chart target code ↔
    Spread.Explains (b.uncertainMoves [code]) (b.room b.items.rows code) := by
  rw [ExplainsLeft, leftOn_of_not_mem htarget hbooks.plain hcode, roundMoney_of_isWhole (hbooks.isWhole_room code)]

include hsold

/-- A placement leaves nothing on the other accounts of the chart. -/
theorem explainsLeft_other {code : String} (hcode : code ∈ b.inventoryCodes) (hcounted : code ∈ b.counts chart)
    (hne : code ≠ target) : b.ExplainsLeft chart target code := by
  rw [ExplainsLeft, leftOn_eq htarget hsold hbooks.plain (hbooks.holds code hcode) hcounted, roomOf,
    roundMoney_of_isWhole (hbooks.isWhole_room code), sub_self, zero_add, if_neg hne, roundMoney_zero]
  exact ⟨by simpa using Spread.high_nonneg _, by simpa using Spread.low_nonpos _⟩

/-- What it leaves on the default account is the part of the accounts' difference that lines
    explain, on whichever account they are. -/
theorem explainsLeft_default (hcode : target ∈ b.inventoryCodes) : b.ExplainsLeft chart target target ↔
    (b.pooled chart + Spread.high (b.uncertainMoves [target]) < 0 →
        ∀ l ∈ b.uncertainLines (b.counts chart), 0 < l.amount → l.account = target) ∧
      (0 < b.pooled chart + Spread.low (b.uncertainMoves [target]) →
        ∀ l ∈ b.uncertainLines (b.counts chart), l.amount < 0 → l.account = target) := by
  have hcounted := mem_counts_of_default htarget
  have hwhole : IsWhole b.currency (b.pooled chart - b.gap chart) :=
    (isWhole_pooled b chart).sub (isWhole_roundMoney _ _)
  rw [ExplainsLeft, leftOn_eq htarget hsold hbooks.plain (hbooks.holds target hcode) hcounted, roomOf,
    roundMoney_of_isWhole (hbooks.isWhole_room target), sub_self, zero_add, if_pos rfl, roundMoney_of_isWhole hwhole,
    hbooks.gap_eq, uncertainMoves_default hcounted]
  unfold unexplained uncertainMoves
  rw [Spread.explains_sub_nearest_iff Spread.high_filter_le Spread.low_le_filter, Spread.le_high_filter_iff,
    Spread.low_filter_le_iff]
  simp

end

end

end StockBooks

/-- **The books check agrees with a placement just where the default account's own lines explain
    what those of all accounts do.**  The placement reads the lines that may have been stock for
    all accounts together, the check for each account its own. -/
theorem placed_stock_agrees (hash : String → String) (b b' : StockBooks) (chart : Chart) (target : String)
    (hchart : b.chart = some chart) (htarget : b.defaultAccount chart = some target)
    (hplace : b.place hash = some b') (hsold : b.sold UNPLACED = 0) (hbooks : b.Ordinary chart) :
    (∀ f ∈ b'.stockOffBooks, ¬f.isGap) ↔ b.OwnLinesExplain chart target := by
  have hcheck : (∀ f ∈ b'.stockOffBooks, ¬f.isGap) ↔ ∀ code ∈ b.inventoryCodes, b.ExplainsLeft chart target code := by
    rw [StockBooks.no_gap_iff, StockBooks.inventoryCodes_place hplace hchart htarget]
    exact forall₂_congr fun code hcode =>
      StockBooks.unexplained_place hchart htarget hplace hsold (StockBooks.mem_inventoryCodes.1 hcode)
  rw [hcheck]
  constructor
  · intro h
    have hdefault := fun hcode => (StockBooks.explainsLeft_default hbooks htarget hsold hcode).1 (h target hcode)
    exact ⟨fun hcode => (hdefault hcode).1, fun hcode => (hdefault hcode).2,
      fun code hcode hoff => (StockBooks.explainsLeft_offChart hbooks htarget hoff).1 (h code hcode)⟩
  · intro h code hcode
    by_cases hcounted : code ∈ b.counts chart
    · by_cases hne : code = target
      · subst hne
        exact (StockBooks.explainsLeft_default hbooks htarget hsold hcode).2 ⟨h.short hcode, h.excess hcode⟩
      · exact StockBooks.explainsLeft_other hbooks htarget hsold hcode hcounted hne
    · exact (StockBooks.explainsLeft_offChart hbooks htarget hcounted).2 (h.offChart code hcode hcounted)

/-! ## Two companies -/

/-- Purchased and opening inventory, each its own account; one of them also served input
    tax. -/
def rolesServing (taxed : String) : PostingRoles where
  roleMap := [(inventoryPurchased, "1130-P"), (inventoryOpening, "1130-O"), (retainedEarnings, "3200")]
  scopeList
    | .inventoryPurchased => ["1130-P"]
    | .inventoryOpening => ["1130-O"]
    | .taxInput => [taxed]
    | .retainedEarnings => ["3200"]
    | _ => []

def stockChart : Chart where
  accounts := [⟨"1130-P", .asset, none, true⟩, ⟨"1130-O", .asset, none, true⟩, ⟨"3200", .equity, none, true⟩]
  nodup := by decide

/-- A lot on hand of some value that records no account. -/
def olderLot (value : ℚ) : ItemRow where
  entityId := "item:1"
  createdAt := ""
  consignedIn := false
  state :=
    { quantity := 1, costBase := some value, costTotal := some value, costPrice := none, landedCosts := [],
      goodsCostUnknown := false, sku := "RING", status := "available" }

/-- A line of an older entry against retained earnings, with the roles it recorded. -/
def olderEntry (jeId account : String) (amount : ℚ) (accountRoles : Option (List String)) : List PostedLine :=
  [⟨⟨.debitOf account amount, accountRoles⟩, jeId, none⟩, ⟨⟨.creditOf "3200" amount, some []⟩, jeId, none⟩]

/-- A company with one older lot. -/
def olderCompany (taxed : String) (value : ℚ) (entries : List PostedLine) : StockBooks where
  companyId := "c"
  roles := rolesServing taxed
  chart := some stockChart
  currency := "USD"
  periodOpen := true
  fromElsewhere := false
  items := ⟨[olderLot value], by simp⟩
  entries := entries
  claims := []
  placements := []
  recorded := []

/-- Purchased inventory holds 150 as stock and the older lot is worth 50; opening
    inventory, which also served input tax, holds a credit of 100 from before lines
    recorded their roles. -/
def splitCompany : StockBooks :=
  olderCompany "1130-O" 50 (olderEntry "je:1" "1130-P" 150 (some ["inventory_purchased"]) ++
    olderEntry "je:2" "1130-O" (-100) none)

/-- The credit explains the difference to the placement, which reads it for all accounts,
    and not to the check, which reads it for its own: purchased inventory is reported to
    hold 150 for stock of 50. -/
theorem split_company_disagrees : splitCompany.sold UNPLACED = 0 ∧
    ∃ b' ∈ splitCompany.place id, StockFinding.stockGap "1130-P" 150 50 ∈ b'.stockOffBooks := by
  decide +kernel

/-- Purchased inventory holds 80 as stock and 30 that may have been, opening inventory
    20; the older lot is worth 150. -/
def agreeingCompany : StockBooks :=
  olderCompany "1130-P" 150 (olderEntry "je:1" "1130-P" 80 (some ["inventory_purchased"]) ++
    olderEntry "je:2" "1130-O" 20 (some ["inventory_opening"]) ++ olderEntry "je:3" "1130-P" 30 none)

theorem ordinary_agreeingCompany : agreeingCompany.Ordinary stockChart where
  wholeLines := by
    unfold Line.Whole
    decide +kernel
  wholeDifferences _ hp := absurd hp List.not_mem_nil
  plain := by decide +kernel
  holds := by decide +kernel

theorem agreeing_company_agrees : ∃ b', agreeingCompany.place id = some b' ∧ ∀ f ∈ b'.stockOffBooks, ¬f.isGap := by
  obtain ⟨b', hplace⟩ := Option.isSome_iff_exists.1 (by decide +kernel : (agreeingCompany.place id).isSome)
  refine ⟨b', hplace, (placed_stock_agrees id agreeingCompany b' stockChart "1130-P" rfl (by decide +kernel) hplace
    (by decide +kernel) ordinary_agreeingCompany).2 ⟨?_, ?_, ?_⟩⟩
  all_goals decide +kernel

end Celerp
