/-
  What the parts of a placement do to the books (`celerp/services/lot_origin.py`).

  * an entry's lot lines move stock on the accounts that hold lots
    (`stockMoved_transferLines`, `stockMoved_openingLines`), and posting leaves that as it
    is (`postEntry_spec`);
  * recording the accounts of lots moves their value onto the account
    (`sum_recordAccount`, `sum_pending`) and no cost recognized where none waits for one
    (`recognizedUnshipped_recordAccount`);
  * new lines never may have been stock (`uncertainLines_append`).
-/
import Celerp.Inventory.Placement

namespace Celerp

open AccountRole Grouping Tally

/-! ## Posting -/

/-- What the stock lines among some lines move on an account. -/
def stockMoved (roles : PostingRoles) (code : String) (lines : List RoleLine) : ℚ :=
  net code ((lines.filter (stockLine roles ·)).map (·.toLine))

section
variable {roles : PostingRoles} {chart : Chart} {code key : String} {l l' : RoleLine} {lines posted : List RoleLine}

@[simp] theorem stockMoved_nil : stockMoved roles code [] = 0 := rfl

@[simp] theorem stockMoved_cons : stockMoved roles code (l :: lines) =
    (if l.account = code ∧ stockLine roles l then l.amount else 0) + stockMoved roles code lines := by
  unfold stockMoved
  by_cases hstock : stockLine roles l
  · rw [List.filter_cons_of_pos hstock, List.map_cons, net_cons]
    simp only [hstock, and_true]
    rfl
  · rw [List.filter_cons_of_neg hstock, if_neg fun h => hstock h.2, zero_add]

@[simp] theorem stockMoved_append (more : List RoleLine) :
    stockMoved roles code (lines ++ more) = stockMoved roles code lines + stockMoved roles code more := by
  simp [stockMoved]

/-- Lines that move nothing move no stock. -/
theorem stockMoved_filter_moves : stockMoved roles code (lines.filter (·.moves)) = stockMoved roles code lines := by
  induction lines with
  | nil => rfl
  | cons l lines ih =>
    rw [List.filter_cons]
    split_ifs with hl
    · rw [stockMoved_cons, stockMoved_cons, ih]
    · have hzero := Line.eq_zero_of_not_moves hl
      rw [stockMoved_cons, ih, RoleLine.amount, hzero.1, hzero.2, sub_self, ite_self, zero_add]

/-- A prepared line moves what the line did, as stock where the line was stock. -/
theorem prepareLine_spec (h : prepareLine roles chart l = some l') :
    l'.toLine = l.toLine ∧ stockLine roles l' = stockLine roles l ∧ uncertainStockLine roles l' = false := by
  unfold prepareLine at h
  split_ifs at h with haccount hchart
  · rw [← Option.some.inj h]
    refine ⟨rfl, rfl, ?_⟩
    cases hroles : l.accountRoles with
    | none => simp [uncertainStockLine, lineRoles, haccount, hroles]
    | some names => exact not_uncertain_of_roles hroles
  · cases hroles : l.accountRoles with
    | none =>
      rw [hroles] at h
      rw [← Option.some.inj h]
      refine ⟨rfl, ?_, by simp [uncertainStockLine]⟩
      have hline : lineRoles roles.rolesForAccount { l with accountRoles := some (roles.rolesForAccount l.account) }
          = lineRoles roles.rolesForAccount l := by simp [lineRoles, hroles, haccount]
      simp only [stockLine, hline]
    | some names =>
      rw [hroles] at h
      dsimp only at h
      split_ifs at h
      rw [← Option.some.inj h]
      exact ⟨rfl, rfl, not_uncertain_of_roles hroles⟩

theorem stockMoved_prepared : ∀ {lines prepared : List RoleLine},
    lines.mapM (prepareLine roles chart) = some prepared →
      stockMoved roles code prepared = stockMoved roles code lines ∧
        ∀ l ∈ prepared, uncertainStockLine roles l = false := by
  intro lines
  induction lines with
  | nil =>
    intro prepared h
    rw [List.mapM_nil] at h
    rw [← Option.some.inj h]
    simp
  | cons l lines ih =>
    intro prepared h
    rw [List.mapM_cons] at h
    obtain ⟨l', hl', h⟩ := Option.bind_eq_some_iff.1 h
    obtain ⟨rest, hrest, h⟩ := Option.bind_eq_some_iff.1 h
    rw [← Option.some.inj h]
    obtain ⟨hline, hstock, huncertain⟩ := prepareLine_spec hl'
    obtain ⟨hmoved, hall⟩ := ih hrest
    constructor
    · rw [stockMoved_cons, stockMoved_cons, hmoved, hstock, RoleLine.amount, RoleLine.amount, hline]
    · exact List.forall_mem_cons.2 ⟨huncertain, hall⟩

/-- Whole lines are posted as they stand, less those that move nothing. -/
theorem eq_of_emitRoleLines {c : String} (hwhole : ∀ l ∈ lines, l.Whole c)
    (h : emitRoleLines c lines = some posted) : posted = lines.filter (·.moves) := by
  have hround : (lines.map fun l => { l with toLine := l.toLine.round c }) = lines := by
    refine (List.map_congr_left fun l hl => ?_).trans (List.map_id' lines)
    rw [(hwhole l hl).round_eq]
  unfold emitRoleLines at h
  rw [hround] at h
  dsimp only at h
  split_ifs at h
  exact (Option.some.inj h).symm

/-- What an entry of whole lines posts is as much stock as the lines are. -/
theorem postEntry_spec {b : StockBooks} {jeId trigger : String} {posted : List PostedLine}
    (hwhole : ∀ l ∈ lines, l.Whole b.currency) (h : b.postEntry chart jeId trigger lines = some posted) :
    stockMoved b.roles code (posted.map (·.toRoleLine)) = stockMoved b.roles code lines ∧
      ∀ l ∈ posted, uncertainStockLine b.roles l.toRoleLine = false := by
  obtain ⟨emitted, hemit, h⟩ := Option.bind_eq_some_iff.1 h
  obtain ⟨prepared, hprepared, h⟩ := Option.bind_eq_some_iff.1 h
  have hspec : stockMoved b.roles code prepared = stockMoved b.roles code emitted ∧ _ :=
    stockMoved_prepared hprepared
  rw [← Option.some.inj h]
  constructor
  · rw [List.map_map]
    have hid : ((fun l : PostedLine => l.toRoleLine) ∘ fun l : RoleLine => (⟨l, jeId, some trigger⟩ : PostedLine))
        = id := rfl
    rw [hid, List.map_id, hspec.1, eq_of_emitRoleLines hwhole hemit, stockMoved_filter_moves]
  · intro l hl
    obtain ⟨r, hr, rfl⟩ := List.mem_map.1 hl
    exact hspec.2 r hr

/-! ### Lot lines -/

/-- Whether a lot line on an account is stock: not on one that owes consignors. -/
def holdsLots (roles : PostingRoles) (code : String) : Bool := code ∉ roles.scopeList consignorPayable

/-- An account that serves or has served an inventory role. -/
def InScope (roles : PostingRoles) (code : String) : Prop :=
  code ∈ roles.scopeList inventoryPurchased ∨ code ∈ roles.scopeList inventoryOpening

theorem stockLine_lotLine {debit credit : ℚ} (hscope : InScope roles (partyCode key)) :
    stockLine roles (lotLine roles key debit credit) = holdsLots roles (partyCode key) := by
  unfold lotLine originLine holdsLots
  by_cases hconsignor : partyCode key ∈ roles.scopeList consignorPayable
  · simp only [hconsignor, if_true, not_true_eq_false, decide_false]
    rw [Bool.eq_false_iff, Ne, stockLine_of_role rfl]
    decide
  · simp only [hconsignor, if_false, not_false_eq_true, decide_true]
    by_cases hpurchased : partyCode key ∈ roles.scopeList inventoryPurchased
    · simp only [hpurchased, if_true]
      rw [stockLine_of_role rfl]
      decide
    · have hopening := hscope.resolve_left hpurchased
      simp only [hpurchased, if_false, hopening, if_true]
      rw [stockLine_of_role rfl]
      decide

theorem stockMoved_lotLine {debit credit : ℚ} (hscope : InScope roles code) :
    stockMoved roles code [lotLine roles key debit credit] =
      if holdsLots roles code then total code [(partyCode key, debit - credit)] else 0 := by
  rw [stockMoved_cons, stockMoved_nil, total_cons, total_nil, add_zero, add_zero]
  have haccount : (lotLine roles key debit credit).account = partyCode key := rfl
  have hamount : (lotLine roles key debit credit).amount = debit - credit := rfl
  rw [haccount, hamount]
  by_cases hkey : partyCode key = code
  · subst hkey
    simp only [stockLine_lotLine hscope, true_and, if_true]
  · rw [if_neg fun h => hkey h.1, if_neg hkey, ite_self]

/-- Lot lines move as stock what they move, on an account that holds lots. -/
theorem stockMoved_lotLines {α : Type*} (hscope : InScope roles code) (key : α → String) (debit credit : α → ℚ)
    (l : List α) : stockMoved roles code (l.map fun a => lotLine roles (key a) (debit a) (credit a)) =
      if holdsLots roles code then total code (l.map fun a => (partyCode (key a), debit a - credit a)) else 0 := by
  induction l with
  | nil => simp
  | cons a l ih =>
    have hcons : stockMoved roles code (((a :: l).map fun a => lotLine roles (key a) (debit a) (credit a))) =
        stockMoved roles code [lotLine roles (key a) (debit a) (credit a)] +
          stockMoved roles code (l.map fun a => lotLine roles (key a) (debit a) (credit a)) := by
      rw [← stockMoved_append]
      rfl
    rw [hcons, ih, stockMoved_lotLine hscope, List.map_cons, total_cons, total_cons, total_nil, add_zero]
    split_ifs <;> simp

/-- What is moved off accounts, those short and those over. -/
theorem total_short_over (code : String) (moved : List (String × ℚ)) :
    total code (moved.map fun m => (partyCode m.1, -m.2)) =
      total code ((moved.filter (·.2 < 0)).map fun m => (partyCode m.1, -m.2)) +
        total code ((moved.filter (0 < ·.2)).map fun m => (partyCode m.1, -m.2)) := by
  induction moved with
  | nil => simp
  | cons m moved ih =>
    rw [List.map_cons, total_cons, ih, List.filter_cons, List.filter_cons]
    rcases lt_trichotomy m.2 0 with h | h | h
    · simp only [h, h.not_gt, decide_true, decide_false, if_true, List.map_cons, total_cons]
      simp only [Bool.false_eq_true, if_false]
      ring
    · simp [h]
    · simp only [h, h.not_gt, decide_true, decide_false, if_true, List.map_cons, total_cons]
      simp only [Bool.false_eq_true, if_false]
      ring

/-- The line of an amount on its side, if it is not nothing. -/
theorem stockMoved_side {target : String} {amount : ℚ} (hscope : InScope roles code) :
    stockMoved roles code (if 0 < amount then [lotLine roles target amount 0] else []) +
      stockMoved roles code (if amount < 0 then [lotLine roles target 0 (-amount)] else []) =
      if holdsLots roles code then total code [(partyCode target, amount)] else 0 := by
  rcases lt_trichotomy amount 0 with h | h | h
  · rw [if_neg h.not_gt, if_pos h, stockMoved_lotLine hscope, stockMoved_nil, zero_add, zero_sub, neg_neg]
  · rw [h]
    simp
  · rw [if_neg h.not_gt, if_pos h, stockMoved_lotLine hscope, stockMoved_nil, add_zero, sub_zero]

/-- What the entry of a transfer moves as stock: what is moved off the other accounts, and
    all of it onto the target. -/
theorem stockMoved_transferLines {target : String} {moved : List (String × ℚ)} (hscope : InScope roles code) :
    stockMoved roles code (transferLines roles target moved) =
      if holdsLots roles code then
        total code ((partyCode target, (moved.map Prod.snd).sum) :: moved.map fun m => (partyCode m.1, -m.2))
      else 0 := by
  have hcomm : ∀ x y z w : ℚ, x + y + z + w = x + w + y + z := by
    intro x y z w
    ring
  unfold transferLines
  dsimp only
  rw [stockMoved_append, stockMoved_append, stockMoved_append, hcomm, stockMoved_side hscope,
    stockMoved_lotLines hscope, stockMoved_lotLines hscope, total_cons, total_cons, total_nil, add_zero,
    total_short_over]
  simp only [sub_zero, zero_sub]
  split_ifs <;> ring

/-- What the entry of opening stock moves as stock. -/
theorem stockMoved_openingLines {values : List (String × ℚ)} {retained : String} (hscope : InScope roles code) :
    stockMoved roles code (openingLines roles values true retained) =
      if holdsLots roles code then total code (values.map fun v => (partyCode v.1, v.2)) else 0 := by
  have hretained : stockLine roles ⟨.creditOf retained (values.map Prod.snd).sum, some [retainedEarnings.value]⟩
      = false := by
    rw [Bool.eq_false_iff, Ne, stockLine_of_role rfl]
    decide
  unfold openingLines
  dsimp only
  rw [if_pos rfl, stockMoved_append, stockMoved_lotLines hscope, stockMoved_cons, stockMoved_nil, hretained]
  simp

end

/-! ## Lots recorded -/

section
variable {items : Items} {ids : List String} {code target : String} {row : ItemRow} {currency : String}

@[simp] theorem inventoryAccount_recordAccount : (row.recordAccount ids target).state.inventoryAccount =
    if row.entityId ∈ ids then some target else row.state.inventoryAccount := by
  unfold ItemRow.recordAccount
  split_ifs <;> rfl

@[simp] theorem bookedValue_recordAccount :
    bookedValue currency (row.recordAccount ids target) = bookedValue currency row := by
  unfold ItemRow.recordAccount
  split_ifs <;> rfl

/-- What the lots recorded on an account are worth once some that recorded none are. -/
theorem sum_recordAccount (hnone : ∀ row ∈ items.rows, row.entityId ∈ ids → row.state.inventoryAccount = none) :
    (((items.recordAccount ids target).rows.filter (·.state.inventoryAccount = some code)).map
        (bookedValue currency)).sum =
      ((items.rows.filter (·.state.inventoryAccount = some code)).map (bookedValue currency)).sum +
        if code = target then ((items.rows.filter (·.entityId ∈ ids)).map (bookedValue currency)).sum else 0 := by
  have hrows : (items.recordAccount ids target).rows = items.rows.map (ItemRow.recordAccount ids target) := rfl
  rw [hrows]
  revert hnone
  clear hrows
  induction items.rows with
  | nil => simp
  | cons row rows ih =>
    intro hnone
    obtain ⟨hrow, hrows⟩ := List.forall_mem_cons.1 hnone
    rw [List.map_cons, List.filter_cons, List.filter_cons, List.filter_cons]
    simp only [inventoryAccount_recordAccount]
    by_cases hid : row.entityId ∈ ids
    · rw [if_pos hid, hrow hid]
      by_cases hcode : code = target
      · subst hcode
        simp [hid, ih hrows]
        ring
      · have hne : ¬(some target = some code) := fun h => hcode (Option.some.inj h).symm
        simp [hne, hcode, ih hrows]
    · rw [if_neg hid]
      by_cases haccount : row.state.inventoryAccount = some code
      · simp [haccount, hid, ih hrows, add_assoc]
      · simp [haccount, hid, ih hrows]

theorem isWhole_bookedValue : IsWhole currency (bookedValue currency row) := isWhole_roundMoney _ _

end

namespace StockBooks
variable {b : StockBooks} {row : ItemRow} {code : String}

theorem mem_pending : row ∈ b.pending ↔ row ∈ b.items.rows ∧ isLegacy row ∧ row.entityId ∉ b.recorded := by
  unfold pending
  rw [List.mem_filter, (List.perm_insertionSort _ _).mem_iff, List.mem_filter, decide_eq_true_eq, and_assoc]

/-- The rows of the lots to place. -/
theorem mem_pending_ids (h : row ∈ b.items.rows) : row.entityId ∈ b.pending.map (·.entityId) ↔ row ∈ b.pending := by
  refine ⟨fun hid => ?_, fun hrow => List.mem_map.2 ⟨row, hrow, rfl⟩⟩
  obtain ⟨row', hrow', hid⟩ := List.mem_map.1 hid
  have hinj := List.inj_on_of_nodup_map b.items.nodup
  rwa [← hinj (mem_pending.1 hrow').1 h hid]

/-- A lot to place records no account. -/
theorem inventoryAccount_of_pending (h : row ∈ b.items.rows) (hid : row.entityId ∈ b.pending.map (·.entityId)) :
    row.state.inventoryAccount = none := by
  have hlegacy := (mem_pending.1 ((mem_pending_ids h).1 hid)).2.1
  simp only [isLegacy, decide_eq_true_eq] at hlegacy
  exact hlegacy.1

theorem sum_pending (f : ItemRow → ℚ) :
    ((b.items.rows.filter (·.entityId ∈ b.pending.map (·.entityId))).map f).sum = (b.pending.map f).sum := by
  have hfilter : b.items.rows.filter (·.entityId ∈ b.pending.map (·.entityId)) =
      (b.items.rows.filter isLegacy).filter (·.entityId ∉ b.recorded) := by
    rw [List.filter_filter]
    refine List.filter_congr fun row hrow => ?_
    rw [Bool.eq_iff_iff, decide_eq_true_eq, mem_pending_ids hrow, mem_pending, Bool.and_eq_true, decide_eq_true_eq]
    exact ⟨fun h => ⟨h.2.2, h.2.1⟩, fun h => ⟨hrow, h.2, h.1⟩⟩
  rw [hfilter]
  exact (((List.perm_insertionSort _ _).symm.filter _).map f).sum_eq

/-- The lots' value is whole as it stands. -/
theorem olderValue_eq : b.olderValue = (b.pending.map (bookedValue b.currency)).sum := by
  refine roundMoney_of_isWhole (IsWhole.sum fun v hv => ?_)
  obtain ⟨row, -, rfl⟩ := List.mem_map.1 hv
  exact isWhole_bookedValue

/-! ## Cost recognized and not shipped -/

theorem claimTakes_nonneg : ∀ {claims : List StockClaim} {left : String → Option ℚ},
    ∀ t ∈ claimTakes left claims, 0 ≤ t.2 := by
  intro claims
  induction claims with
  | nil =>
    intro left t ht
    cases ht
  | cons c claims ih =>
    intro left t ht
    rcases List.mem_cons.1 ht with rfl | ht
    · exact le_max_left _ _
    · exact ih t ht

/-- What an account was relieved of, take by take. -/
theorem get_recognizedUnshipped (items : Items) (claims : List StockClaim) (code : String) :
    Amounts.get code (recognizedUnshipped items claims) =
      ((claimTakes (fun _ => none) claims).map fun t => if partyCode (t.1.keyIn items) = code then t.2 else 0).sum := by
  unfold recognizedUnshipped
  rw [Amounts.get_ofList, Amounts.totalOf, List.map_map]
  rfl

/-- A claim's key changes only where its lot recorded no account. -/
theorem keyIn_recordAccount {items : Items} {ids : List String} {target : String} (c : StockClaim)
    (hnone : ∀ row ∈ items.rows, row.entityId ∈ ids → row.state.inventoryAccount = none) :
    c.keyIn (items.recordAccount ids target) = c.keyIn items ∨ c.keyIn items = UNPLACED := by
  unfold StockClaim.keyIn
  cases hkey : c.key with
  | some key => exact .inl rfl
  | none =>
    dsimp only
    have hget : (items.recordAccount ids target).get? c.allocated =
        (items.get? c.allocated).map (ItemRow.recordAccount ids target) := by
      unfold Items.get? Items.recordAccount
      dsimp only
      rw [List.find?_map]
      congr 2
      funext row
      simp
    rw [hget]
    cases hrow : items.get? c.allocated with
    | none => exact .inl rfl
    | some row =>
      obtain ⟨hmem, -⟩ := Items.mem_of_get? hrow
      rw [Option.map_some, Option.bind_some, Option.bind_some, inventoryAccount_recordAccount]
      split_ifs with hid
      · rw [hnone row hmem hid]
        exact .inr rfl
      · exact .inl rfl

theorem partyCode_unplaced : partyCode UNPLACED = UNPLACED := by decide

/-- Recording accounts moves no cost recognized, where none waits for an account. -/
theorem recognizedUnshipped_recordAccount {items : Items} {claims : List StockClaim} {ids : List String}
    {target : String} (hnone : ∀ row ∈ items.rows, row.entityId ∈ ids → row.state.inventoryAccount = none)
    (hwaiting : Amounts.get UNPLACED (recognizedUnshipped items claims) = 0) (code : String) :
    Amounts.get code (recognizedUnshipped (items.recordAccount ids target) claims) =
      Amounts.get code (recognizedUnshipped items claims) := by
  rw [get_recognizedUnshipped] at hwaiting
  have hzero : ∀ t ∈ claimTakes (fun _ => none) claims, partyCode (t.1.keyIn items) = UNPLACED → t.2 = 0 := by
    intro t ht hkey
    have hnonneg : ∀ v ∈ (claimTakes (fun _ => none) claims).map
        (fun t => if partyCode (t.1.keyIn items) = UNPLACED then t.2 else 0), 0 ≤ v := by
      intro v hv
      obtain ⟨t, ht, rfl⟩ := List.mem_map.1 hv
      split_ifs
      · exact claimTakes_nonneg t ht
      · exact le_rfl
    have hall := List.all_zero_of_le_zero_le_of_sum_eq_zero hnonneg hwaiting (List.mem_map.2 ⟨t, ht, rfl⟩)
    rwa [if_pos hkey] at hall
  rw [get_recognizedUnshipped, get_recognizedUnshipped]
  congr 1
  refine List.map_congr_left fun t ht => ?_
  rcases keyIn_recordAccount t.1 hnone with hkey | hkey
  · rw [hkey]
  · rw [hzero t ht (by rw [hkey, partyCode_unplaced]), ite_self, ite_self]

/-! ## Differences recorded -/

/-- What placements left on an account. -/
theorem get_unresolvedDifferences (b : StockBooks) (code : String) :
    Amounts.get code b.unresolvedDifferences =
      (b.placements.map fun p => if p.account = code then p.unresolved else 0).sum := by
  have hnodup : (((Amounts.ofList ((b.placements.filter (·.unresolved ≠ 0)).map fun p =>
      (p.account, p.unresolved))).filter (·.2 ≠ 0)).map Prod.fst).Nodup :=
    (Amounts.nodup_ofList).sublist (List.filter_sublist.map _)
  unfold unresolvedDifferences
  rw [← Amounts.totalOf_eq_get hnodup, Amounts.totalOf_filter_ne_zero, Amounts.totalOf_ofList]
  induction b.placements with
  | nil => rfl
  | cons p placements ih =>
    rw [List.filter_cons, List.map_cons, List.sum_cons, ← ih]
    split_ifs with hne hcode hcode
    · rw [List.map_cons, Amounts.totalOf_cons, if_pos hcode]
    · rw [List.map_cons, Amounts.totalOf_cons, if_neg hcode]
    · have hzero : p.unresolved = 0 := by simpa using hne
      rw [hzero, zero_add]
    · rw [zero_add]

/-! ## Lines that may have been stock -/

/-- Lines that are not uncertain leave what is read as uncertain. -/
theorem uncertainLines_append {b' : StockBooks} {posted : List PostedLine} (hroles : b'.roles = b.roles)
    (hentries : b'.entries = b.entries ++ posted)
    (hposted : ∀ l ∈ posted, uncertainStockLine b.roles l.toRoleLine = false) (codes : List String) :
    b'.uncertainLines codes = b.uncertainLines codes := by
  have hnone : ∀ p : PostedLine → Bool, (∀ l, p l → uncertainStockLine b.roles l.toRoleLine) →
      posted.filter p = [] := by
    intro p hp
    refine List.filter_eq_nil_iff.2 fun l hl hpl => ?_
    have := hp l hpl
    rw [hposted l hl] at this
    cases this
  have hpaid : b'.paidEntries = b.paidEntries := by
    unfold paidEntries
    rw [hroles, hentries, List.filter_append, hnone, List.append_nil]
    intro l hl
    rw [decide_eq_true_eq] at hl
    exact hl.1
  unfold uncertainLines evidenceEntries
  rw [hroles, hpaid, hentries, List.filter_append, List.filter_append, List.filter_filter, List.filter_filter,
    hnone, List.append_nil]
  intro l hl
  rw [Bool.and_eq_true, decide_eq_true_eq] at hl
  exact hl.1.2

/-- Lots off the books are worth nothing to any account. -/
theorem room_heldItems (b : StockBooks) (code : String) : b.room b.heldItems code = b.room b.items.rows code := by
  have hsum : ((b.heldItems.filter (·.state.inventoryAccount = some code)).map (bookedValue b.currency)).sum =
      ((b.items.rows.filter (·.state.inventoryAccount = some code)).map (bookedValue b.currency)).sum := by
    unfold heldItems
    induction b.items.rows with
    | nil => rfl
    | cons row rows ih =>
      rw [List.filter_cons]
      by_cases hstock : row.state.inStock
      · rw [if_pos hstock, List.filter_cons, List.filter_cons]
        split_ifs
        · rw [List.map_cons, List.map_cons, List.sum_cons, List.sum_cons, ih]
        · exact ih
      · have hzero : bookedValue b.currency row = 0 := by
          unfold bookedValue heldValue
          rw [if_neg fun h => hstock h.1]
          exact roundMoney_zero _
        rw [if_neg hstock, List.filter_cons, ih]
        split_ifs
        · rw [List.map_cons, List.sum_cons, hzero, zero_add]
        · rfl
  unfold room
  rw [hsum]

end StockBooks

end Celerp
