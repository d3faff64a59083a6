/-
  Truing up an invoice's cost of goods sold (`reconcile_doc_cogs` and
  `create_for_doc_cogs_adjustment` in `celerp/services/auto_je.py`).

  What the invoice's live entries and its cost moves have booked (`bookedCost`) is brought
  to what it recognizes (`docTruth`, rounded key by key) in one entry, whose lines name the
  key they move (`lotLine`) and are read back by it (`lineKey`).

  * `reconcile_settles_iff`: a second run posts nothing exactly where no key is booked an
    odd number of half minor units, which moves that are not rounded can leave it at, and
    each key that is off by half a unit or more is read back from its line (`ReadsBack`).
-/
import Celerp.Accounts.PartyKeys
import Celerp.Journal.VoidNames
import Celerp.Sales.Claims

namespace Celerp

open AccountRole Amounts Rounding Segments

/-! ## Entries -/

/-- An automatic entry, and whether it is posted. -/
structure DocEntry where
  entityId : String
  posted : Bool
  lines : List PartyLine
  deriving DecidableEq, Repr

/-- A cost move: the invoice that shipped the goods, the one it took them from, and what
    each key gave up. -/
structure MoveEntry where
  docId : String
  fromDocId : String
  moves : List (String × ℚ)
  deriving DecidableEq, Repr

/-- `_finalize_root` -/
def finalizeRoot (docId entityId : String) : Option String :=
  ((docSuffix docId entityId).bind (recognitionRoot false)).filter fun root =>
    root = "fin" ∨ "fin:".toList <+: root.toList

/-- The families whose entries book an invoice's cost. -/
def booksCost (suffix : String) : Bool :=
  (recognitionRoot false suffix).isSome ∨ "cost-settle:".toList <+: suffix.toList

/-! ## Lines and the keys they are read under -/

/-- What truing up an invoice reads, apart from its entries. -/
structure CostFacts where
  roles : PostingRoles
  merges : List (String × String)
  books : ClaimBooks
  inv : OpenInvoice
  moves : List MoveEntry
  cogsCode : String

namespace CostFacts
variable (f : CostFacts)

def currency : String := f.books.currency

/-- `line_has_role` -/
def lineHasRole (l : PartyLine) (role : AccountRole) : Bool :=
  role.value ∈ lineRoles f.roles.rolesForAccount l.toRoleLine

/-- The key of the cost a line moves, if it moves stock or what is owed for it. -/
def lineKey (l : PartyLine) : Option String :=
  if f.lineHasRole l inventoryPurchased ∨ f.lineHasRole l inventoryOpening ∨ f.lineHasRole l consignorPayable then
    some (if f.lineHasRole l consignorPayable then
      survivingKey f.merges (partyKey l.account (l.contact.filter (· ≠ ""))) else l.account)
  else none

/-- The line of a key is read back under it. -/
def ReadsBack (key : String) : Prop := f.lineKey (f.roles.lotLine key 0 0) = some key

instance (key : String) : Decidable (f.ReadsBack key) := inferInstanceAs (Decidable (_ = _))

/-! ## Booked and recognized cost -/

/-- The invoice's posted entries, by their suffix. -/
def liveEntries (entries : List DocEntry) : List (String × DocEntry) :=
  entries.filterMap fun e =>
    if e.posted then (docSuffix f.inv.docId e.entityId).map fun suffix => (suffix, e) else none

/-- Whether the invoice stands finalized. -/
def standing (entries : List DocEntry) : Bool :=
  entries.any fun e => e.posted ∧ (finalizeRoot f.inv.docId e.entityId).isSome

/-- What lines relieve each key of. -/
def linesCost (lines : List PartyLine) : List (String × ℚ) :=
  lines.filterMap fun l => (f.lineKey l).map fun key => (key, l.credit - l.debit)

/-- What the entries that book cost relieve. -/
def entriesCost (entries : List DocEntry) : List (String × ℚ) :=
  ((f.liveEntries entries).filter fun e => booksCost e.1).flatMap fun e => f.linesCost e.2.lines

/-- The cost the moves into and out of the invoice carry, not rounded. -/
def movesCost : List (String × ℚ) :=
  (f.moves.filter fun m => m.docId = f.inv.docId ∨ m.fromDocId = f.inv.docId).flatMap fun m =>
    m.moves.map fun p => (survivingKey f.merges p.1, (if m.docId = f.inv.docId then 1 else -1) * p.2)

/-- The cost the invoice books, by key. -/
def bookedCost (entries : List DocEntry) : List (String × ℚ) :=
  Amounts.ofList (f.entriesCost entries ++ f.movesCost)

/-- What `_read_books` reads of the claims. -/
def readBooks : ClaimBooks :=
  { f.books with payableCodes := f.roles.scopeList consignorPayable, states := [], pending := false }

/-- `_recognized_total` -/
def recognizedTotal : Except CogsError (List (String × ℚ)) :=
  (f.readBooks.recognizedByAccount f.inv).map fun r =>
    (r.2.flatMap (·.byKey)).foldl (fun truth p => addTo truth p.1 p.2) r.1

/-- What the invoice recognizes: nothing where it does not stand. -/
def docTruth (entries : List DocEntry) : Except CogsError (List (String × ℚ)) :=
  if f.standing entries then f.recognizedTotal else .ok []

/-! ## The adjustment -/

/-- `_cogs_lines`, relieving each key of its amount. -/
def cogsLines (byAccount : List (String × ℚ)) : List PartyLine :=
  let amounts := ((byAccount.insertionSort fun a b => a.1 ≤ b.1).map fun p =>
    (p.1, roundMoney p.2 f.currency)).filter fun p => p.2 ≠ 0
  let total := (amounts.map Prod.snd).sum
  (if total ≠ 0 then
      [⟨⟨⟨f.cogsCode, max total 0, max (-total) 0, none⟩, some [cogs.value]⟩, none⟩] else []) ++
    amounts.map fun p => f.roles.lotLine p.1 (max (-p.2) 0) (max p.2 0)

/-- `create_for_doc_cogs_adjustment`: the entry, if any amount is left once rounded. -/
def createForDocCogsAdjustment (delta : List (String × ℚ)) (family cycleTag : String) : Option DocEntry :=
  let rounded := (delta.map fun p => (p.1, roundMoney p.2 f.currency)).filter fun p => p.2 ≠ 0
  if rounded = [] then none
  else (emitParty f.currency (f.cogsLines rounded)).map fun lines =>
    ⟨jeId f.inv.docId (family ++ ":" ++ cycleTag), true, lines⟩

/-- What a key recognizes, rounded, less what it books. -/
def keyDelta (truth booked : List (String × ℚ)) (key : String) : ℚ :=
  roundMoney (Amounts.get key truth) f.currency - Amounts.get key booked

def costKeys (truth booked : List (String × ℚ)) : List String := (truth.map Prod.fst ++ booked.map Prod.fst).dedup

/-- The difference of each key recognized or booked. -/
def costDelta (truth booked : List (String × ℚ)) : List (String × ℚ) :=
  (costKeys truth booked).map fun key => (key, f.keyDelta truth booked key)

/-- The family of an adjustment. -/
def adjustmentFamily (entries : List DocEntry) : String :=
  if f.standing entries then "cogs-adj" else "cost-settle"

/-- `reconcile_doc_cogs`: the entry it posts. -/
def reconcileDocCogs (entries : List DocEntry) (cycleTag : String) : Except CogsError (Option DocEntry) :=
  (f.docTruth entries).map fun truth =>
    f.createForDocCogsAdjustment (f.costDelta truth (f.bookedCost entries)) (f.adjustmentFamily entries) cycleTag

/-! ## Reading keys back -/

section
variable {f} {key k : String} {l : PartyLine} {entries : List DocEntry} {d c : ℚ}

theorem survivingKey_partyKey (key : String) :
    survivingKey f.merges (partyKey (splitPartyKey key).1 ((splitPartyKey key).2.filter (· ≠ ""))) =
      survivingKey f.merges key := by
  have hparty : (splitPartyKey key).2.filter (· ≠ "") = (splitPartyKey key).2 := by
    cases hsplit : (splitPartyKey key).2 with
    | none => rfl
    | some contact => simpa using splitPartyKey_party_ne hsplit
  have hne : (splitPartyKey key).2 ≠ some "" := fun hempty => splitPartyKey_party_ne hempty rfl
  rw [hparty, survivingKey, splitPartyKey_partyKey (splitPartyKey_code_not_mem key) hne, survivingKey]

/-- The roles of a lot's line are those of its account. -/
theorem lineHasRole_lotLine (hcode : (splitPartyKey key).1 = (splitPartyKey k).1) (role : AccountRole) :
    f.lineHasRole (f.roles.lotLine key d c) role = f.lineHasRole (f.roles.lotLine k 0 0) role := by
  have hroles : lineRoles f.roles.rolesForAccount (f.roles.lotLine key d c).toRoleLine =
      lineRoles f.roles.rolesForAccount (f.roles.lotLine k 0 0).toRoleLine :=
    congrArg (fun code => lineRoles f.roles.rolesForAccount (f.roles.originLine code (f.roles.lotRole code) 0 0)) hcode
  unfold lineHasRole
  rw [hroles]

theorem lineKey_lotLine (key : String) (d c : ℚ) : f.lineKey (f.roles.lotLine key d c) = f.lineKey (f.roles.lotLine key 0 0) := rfl

/-- What a line is read back under is read back under itself. -/
theorem readsBack_of_lineKey (h : f.lineKey (f.roles.lotLine key d c) = some k) : f.ReadsBack k := by
  rw [lineKey_lotLine, lineKey] at h
  split_ifs at h with hstock hpayable
  · obtain rfl := Option.some.inj h
    have hkey : survivingKey f.merges (partyKey (f.roles.lotLine key 0 0).account
        ((f.roles.lotLine key 0 0).contact.filter (· ≠ ""))) = survivingKey f.merges key := survivingKey_partyKey key
    rw [hkey]
    have hcode : (splitPartyKey (survivingKey f.merges key)).1 = (splitPartyKey key).1 := by
      rw [splitPartyKey_survivingKey]
    rw [ReadsBack, lineKey, lineHasRole_lotLine hcode, lineHasRole_lotLine hcode, lineHasRole_lotLine hcode,
      if_pos hstock, if_pos hpayable]
    exact congrArg some ((survivingKey_partyKey _).trans survivingKey_idem)
  · obtain rfl : (splitPartyKey key).1 = k := Option.some.inj h
    have hcode : (splitPartyKey (splitPartyKey key).1).1 = (splitPartyKey key).1 := by
      rw [splitPartyKey_of_not_mem (splitPartyKey_code_not_mem key)]
    rw [ReadsBack, lineKey, lineHasRole_lotLine hcode, lineHasRole_lotLine hcode, lineHasRole_lotLine hcode,
      if_pos hstock, if_neg hpayable]
    have haccount : (f.roles.lotLine (splitPartyKey key).1 0 0).account = (splitPartyKey (splitPartyKey key).1).1 := rfl
    rw [haccount, hcode]

/-- The line of a key is read back where its account has served its role, and a contact it
    names survives and is owed on a consignor payable. -/
theorem readsBack_of_served (hserved : (splitPartyKey key).1 ∈ f.roles.scopeList (f.roles.lotRole (splitPartyKey key).1))
    (hparty : (splitPartyKey key).2 = none ∨ (splitPartyKey key).1 ∈ f.roles.scopeList consignorPayable)
    (hkey : survivingKey f.merges key = key) : f.ReadsBack key := by
  have hroles : lineRoles f.roles.rolesForAccount (f.roles.lotLine key 0 0).toRoleLine =
      [(f.roles.lotRole (splitPartyKey key).1).value] := by
    simp only [lineRoles, PostingRoles.lotLine, PostingRoles.originLine, if_pos hserved]
  have hrole : ∀ role, f.lineHasRole (f.roles.lotLine key 0 0) role =
      decide (role.value = (f.roles.lotRole (splitPartyKey key).1).value) := by
    intro role
    rw [lineHasRole, hroles]
    simp only [List.mem_singleton]
  rw [ReadsBack, lineKey, hrole, hrole, hrole]
  by_cases hpayable : (splitPartyKey key).1 ∈ f.roles.scopeList consignorPayable
  · have hlot : f.roles.lotRole (splitPartyKey key).1 = consignorPayable := if_pos hpayable
    rw [hlot, if_pos (by decide), if_pos (by decide)]
    exact congrArg some ((survivingKey_partyKey key).trans hkey)
  · have hnone := hparty.resolve_right hpayable
    have hcode : (splitPartyKey key).1 = key := by
      rw [survivingKey, hnone] at hkey
      exact hkey
    have hlot : f.roles.lotRole (splitPartyKey key).1 = inventoryPurchased ∨ f.roles.lotRole (splitPartyKey key).1 = inventoryOpening := by
      unfold PostingRoles.lotRole
      rw [if_neg hpayable]
      split_ifs
      · exact Or.inl rfl
      · exact Or.inr rfl
    have haccount : (f.roles.lotLine key 0 0).account = (splitPartyKey key).1 := rfl
    rcases hlot with hlot | hlot
    · rw [hlot, if_pos (by decide), if_neg (by decide), haccount, hcode]
    · rw [hlot, if_pos (by decide), if_neg (by decide), haccount, hcode]

end

/-! ## The lines of an adjustment -/

/-- Amounts as their lines are read back. -/
def keyed (amounts : List (String × ℚ)) : List (String × ℚ) :=
  amounts.filterMap fun p => (f.lineKey (f.roles.lotLine p.1 0 0)).map fun key => (key, p.2)

/-- Amounts in the order of their keys. -/
def byKeyOrder (amounts : List (String × ℚ)) : List (String × ℚ) := amounts.insertionSort fun a b => a.1 ≤ b.1

/-- The line that takes up the cost of goods sold. -/
def cogsLine (total : ℚ) : PartyLine := ⟨⟨⟨f.cogsCode, max total 0, max (-total) 0, none⟩, some [cogs.value]⟩, none⟩

/-- Amounts an adjustment posts: whole, and none of nothing. -/
structure Postable (amounts : List (String × ℚ)) : Prop where
  whole : ∀ p ∈ amounts, IsWhole f.currency p.2
  ne_zero : ∀ p ∈ amounts, p.2 ≠ 0

section
variable {f} {amounts : List (String × ℚ)} {key k : String} {p : String × ℚ} {a : ℚ}

theorem mem_byKeyOrder : p ∈ byKeyOrder amounts ↔ p ∈ amounts := List.mem_insertionSort _

theorem totalOf_byKeyOrder : totalOf (· = k) (byKeyOrder amounts) = totalOf (· = k) amounts :=
  ((List.perm_insertionSort _ amounts).map _).sum_eq

theorem sum_byKeyOrder : ((byKeyOrder amounts).map Prod.snd).sum = (amounts.map Prod.snd).sum :=
  ((List.perm_insertionSort _ amounts).map _).sum_eq

theorem max_sub_max (a : ℚ) : max a 0 - max (-a) 0 = a := by
  rcases le_total 0 a with ha | ha
  · rw [max_eq_left ha, max_eq_right (by linarith), sub_zero]
  · rw [max_eq_right ha, max_eq_left (by linarith), zero_sub, neg_neg]

theorem whole_max (h : IsWhole f.currency a) : IsWhole f.currency (max a 0) := by
  rcases max_choice a 0 with hmax | hmax <;> rw [hmax]
  · exact h
  · exact isWhole_zero _

theorem Postable.ordered (h : f.Postable amounts) : f.Postable (byKeyOrder amounts) :=
  ⟨fun p hp => h.whole p (mem_byKeyOrder.1 hp), fun p hp => h.ne_zero p (mem_byKeyOrder.1 hp)⟩

/-- Whole amounts are posted as they are. -/
theorem cogsLines_eq (h : f.Postable amounts) :
    f.cogsLines amounts =
      (if (amounts.map Prod.snd).sum ≠ 0 then [f.cogsLine (amounts.map Prod.snd).sum] else []) ++
        (byKeyOrder amounts).map fun p => f.roles.lotLine p.1 (max (-p.2) 0) (max p.2 0) := by
  have hround : (byKeyOrder amounts).map (fun p => (p.1, roundMoney p.2 f.currency)) =
      byKeyOrder amounts := by
    refine (List.map_congr_left fun p hp => ?_).trans (List.map_id _)
    rw [roundMoney_of_isWhole (h.ordered.whole p hp)]
    rfl
  have hfilter : (byKeyOrder amounts).filter (fun p => p.2 ≠ 0) = byKeyOrder amounts :=
    List.filter_eq_self.2 fun p hp => by simpa using h.ordered.ne_zero p hp
  have hamounts : ((amounts.insertionSort fun a b => a.1 ≤ b.1).map fun p =>
      (p.1, roundMoney p.2 f.currency)).filter (fun p => p.2 ≠ 0) = byKeyOrder amounts := by
    change ((byKeyOrder amounts).map fun p => (p.1, roundMoney p.2 f.currency)).filter _ = _
    rw [hround, hfilter]
  unfold cogsLines
  dsimp only
  rw [hamounts, sum_byKeyOrder]
  rfl

theorem round_cogsLine (h : IsWhole f.currency a) : (f.cogsLine a).round f.currency = f.cogsLine a := by
  simp only [cogsLine, PartyLine.round, roundMoney_of_isWhole (whole_max h), roundMoney_of_isWhole (whole_max h.neg)]

theorem round_lotLine (h : IsWhole f.currency a) :
    (f.roles.lotLine key (max (-a) 0) (max a 0)).round f.currency = f.roles.lotLine key (max (-a) 0) (max a 0) := by
  simp only [PostingRoles.lotLine, PostingRoles.originLine, PartyLine.round, roundMoney_of_isWhole (whole_max h),
    roundMoney_of_isWhole (whole_max h.neg)]

theorem ne_zero_of_max (ha : a ≠ 0) : max a 0 ≠ 0 ∨ max (-a) 0 ≠ 0 := by
  by_contra hnot
  push Not at hnot
  have := max_sub_max a
  rw [hnot.1, hnot.2, sub_zero] at this
  exact ha this.symm

theorem moves_cogsLine (ha : a ≠ 0) : (f.cogsLine a).moves = true := by
  rw [Line.moves, decide_eq_true_eq]
  rcases ne_zero_of_max ha with h | h
  · exact Or.inl h
  · exact Or.inr (Or.inl h)

theorem moves_lotLine (ha : a ≠ 0) : (f.roles.lotLine key (max (-a) 0) (max a 0)).moves = true := by
  rw [Line.moves, decide_eq_true_eq]
  rcases ne_zero_of_max ha with h | h
  · exact Or.inr (Or.inl h)
  · exact Or.inl h

theorem exchangeGap_lotLines (amounts : List (String × ℚ)) :
    exchangeGap ((amounts.map fun p => f.roles.lotLine p.1 (max (-p.2) 0) (max p.2 0)).map (·.toLine)) =
      -(amounts.map Prod.snd).sum := by
  induction amounts with
  | nil => simp
  | cons p amounts ih =>
    have hgap : (f.roles.lotLine p.1 (max (-p.2) 0) (max p.2 0)).debit - (f.roles.lotLine p.1 (max (-p.2) 0) (max p.2 0)).credit =
        -p.2 := by
      have := max_sub_max p.2
      change max (-p.2) 0 - max p.2 0 = _
      linarith
    rw [List.map_cons, List.map_cons, exchangeGap_cons, ih, hgap, List.map_cons, List.sum_cons]
    ring

theorem exchangeGap_cogsLines (h : f.Postable amounts) :
    exchangeGap ((f.cogsLines amounts).map (·.toLine)) = 0 := by
  rw [cogsLines_eq h, List.map_append, exchangeGap_append, exchangeGap_lotLines, sum_byKeyOrder]
  split_ifs with hsum
  · have hgap := max_sub_max (amounts.map Prod.snd).sum
    change exchangeGap [(f.cogsLine _).toLine] + _ = 0
    rw [exchangeGap_cons, exchangeGap_nil]
    change max (amounts.map Prod.snd).sum 0 - max (-(amounts.map Prod.snd).sum) 0 + 0 + _ = 0
    rw [hgap]
    ring
  · rw [not_not] at hsum
    rw [hsum]
    simp

/-- An adjustment is posted line by line as it is built. -/
theorem emitParty_cogsLines (h : f.Postable amounts) :
    emitParty f.currency (f.cogsLines amounts) = some (f.cogsLines amounts) := by
  have hlines : ∀ l ∈ f.cogsLines amounts, l.round f.currency = l ∧ l.moves = true := by
    intro l hl
    rw [cogsLines_eq h, List.mem_append] at hl
    rcases hl with hl | hl
    · split_ifs at hl with hsum
      · obtain rfl := List.mem_singleton.1 hl
        have hwhole : IsWhole f.currency (amounts.map Prod.snd).sum := IsWhole.sum fun v hv => by
          obtain ⟨p, hp, rfl⟩ := List.mem_map.1 hv
          exact h.whole p hp
        exact ⟨round_cogsLine hwhole, moves_cogsLine hsum⟩
      · cases hl
    · obtain ⟨p, hp, rfl⟩ := List.mem_map.1 hl
      exact ⟨round_lotLine (h.ordered.whole p hp), moves_lotLine (h.ordered.ne_zero p hp)⟩
  have hround : (f.cogsLines amounts).map (·.round f.currency) = f.cogsLines amounts :=
    (List.map_congr_left fun l hl => (hlines l hl).1).trans (List.map_id' _)
  have hfilter : (f.cogsLines amounts).filter (·.moves) = f.cogsLines amounts :=
    List.filter_eq_self.2 fun l hl => (hlines l hl).2
  unfold emitParty
  dsimp only
  rw [hround, hfilter, if_pos (exchangeGap_cogsLines h)]

/-- The lines of an adjustment relieve the keys they are read back under. -/
theorem linesCost_cogsLines (h : f.Postable amounts) :
    f.linesCost (f.cogsLines amounts) = f.keyed (byKeyOrder amounts) := by
  have hhead : ∀ total, f.linesCost (if total ≠ 0 then [f.cogsLine total] else []) = [] := by
    intro total
    split_ifs
    · rfl
    · rfl
  have hlots : ∀ l : List (String × ℚ), f.linesCost (l.map fun p => f.roles.lotLine p.1 (max (-p.2) 0) (max p.2 0)) =
      f.keyed l := by
    intro l
    unfold linesCost keyed
    rw [List.filterMap_map]
    refine List.filterMap_congr fun p _ => ?_
    have hcost : max p.2 0 - max (-p.2) 0 = p.2 := max_sub_max p.2
    change (f.lineKey _).map (fun key => (key, max p.2 0 - max (-p.2) 0)) = _
    rw [hcost, lineKey_lotLine]
  unfold linesCost at hhead
  rw [cogsLines_eq h, linesCost, List.filterMap_append, hhead, List.nil_append, ← hlots, linesCost]

/-! ## What an adjustment relieves -/

/-- Where each key is read back, each is relieved of its amount. -/
theorem keyed_of_readsBack (h : ∀ p ∈ amounts, f.ReadsBack p.1) : f.keyed amounts = amounts := by
  induction amounts with
  | nil => rfl
  | cons p amounts ih =>
    rw [List.forall_mem_cons] at h
    have hp : f.lineKey (f.roles.lotLine p.1 0 0) = some p.1 := h.1
    have htail := ih h.2
    unfold keyed at htail ⊢
    rw [List.filterMap_cons, hp, htail]
    rfl

/-- A key not read back from its own line is read back from none. -/
theorem totalOf_keyed_eq_zero (h : ¬f.ReadsBack k) : totalOf (· = k) (f.keyed amounts) = 0 := by
  refine List.sum_eq_zero fun v hv => ?_
  obtain ⟨e, he, rfl⟩ := List.mem_map.1 hv
  obtain ⟨p, -, hp⟩ := List.mem_filterMap.1 he
  obtain ⟨key, hkey, rfl⟩ := Option.map_eq_some_iff.1 hp
  refine if_neg ?_
  rintro rfl
  exact h (readsBack_of_lineKey hkey)

end

/-! ## The difference -/

section
variable {f} {truth booked : List (String × ℚ)} {key : String}

/-- The amounts an adjustment posts. -/
def adjustment (truth booked : List (String × ℚ)) : List (String × ℚ) :=
  ((f.costDelta truth booked).map fun p => (p.1, roundMoney p.2 f.currency)).filter fun p => p.2 ≠ 0

theorem adjustment_eq : f.adjustment truth booked = ((costKeys truth booked).map fun key =>
    (key, roundMoney (f.keyDelta truth booked key) f.currency)).filter fun p => p.2 ≠ 0 := by
  rw [adjustment, costDelta, List.map_map]
  rfl

theorem keyDelta_eq_zero (h : key ∉ costKeys truth booked) : f.keyDelta truth booked key = 0 := by
  rw [costKeys, List.mem_dedup, List.mem_append, not_or] at h
  rw [keyDelta, Amounts.get_eq_zero_of_not_mem h.1, Amounts.get_eq_zero_of_not_mem h.2, roundMoney_zero, sub_zero]

theorem mem_adjustment {p : String × ℚ} (h : p ∈ f.adjustment truth booked) :
    p.2 = roundMoney (f.keyDelta truth booked p.1) f.currency ∧ p.2 ≠ 0 := by
  rw [adjustment_eq, List.mem_filter] at h
  obtain ⟨key, -, rfl⟩ := List.mem_map.1 h.1
  exact ⟨rfl, by simpa using h.2⟩

theorem postable_adjustment : f.Postable (f.adjustment truth booked) := by
  constructor
  · intro p hp
    rw [(mem_adjustment hp).1]
    exact isWhole_roundMoney _ _
  · intro p hp
    exact (mem_adjustment hp).2

/-- An adjustment moves each key by its difference, rounded. -/
theorem totalOf_adjustment (truth booked : List (String × ℚ)) (key : String) :
    totalOf (· = key) (f.adjustment truth booked) = roundMoney (f.keyDelta truth booked key) f.currency := by
  rw [adjustment_eq, totalOf_filter_ne_zero]
  by_cases hmem : key ∈ costKeys truth booked
  · have hnodup : (((costKeys truth booked).map fun key =>
        (key, roundMoney (f.keyDelta truth booked key) f.currency)).map Prod.fst).Nodup := by
      rw [List.map_map]
      exact (List.map_id _).symm ▸ List.nodup_dedup _
    rw [totalOf_eq_get hnodup]
    exact get_eq_of_mem hnodup (List.mem_map_of_mem hmem)
  · rw [keyDelta_eq_zero hmem, roundMoney_zero]
    refine List.sum_eq_zero fun v hv => ?_
    obtain ⟨e, he, rfl⟩ := List.mem_map.1 hv
    obtain ⟨j, hj, rfl⟩ := List.mem_map.1 he
    refine if_neg ?_
    rintro rfl
    exact hmem hj

/-- Nothing is posted where each key is off by less than half a unit. -/
theorem adjustment_eq_nil_iff :
    f.adjustment truth booked = [] ↔ ∀ key, |f.keyDelta truth booked key| < quant f.currency / 2 := by
  constructor
  · intro hnil key
    have hround := totalOf_adjustment (f := f) truth booked key
    rw [hnil, totalOf_nil] at hround
    exact (roundTo_eq_zero_iff (quant_pos _)).1 hround.symm
  · intro hnear
    refine List.eq_nil_iff_forall_not_mem.2 fun p hp => ?_
    obtain ⟨hp, hne⟩ := mem_adjustment hp
    exact hne (hp.trans ((roundTo_eq_zero_iff (quant_pos _)).2 (hnear p.1)))

end

/-! ## Families -/

end CostFacts

section
variable {docId s family cycleTag : String} {rest : List (List Char)}

theorem split_family (hfamily : ':' ∉ family.toList) (cycleTag : String) :
    split ':' (family ++ ":" ++ cycleTag) = family.toList :: split ':' cycleTag := by
  have heq : family ++ ":" ++ cycleTag = family ++ String.singleton ':' ++ cycleTag := by
    rw [← String.toList_inj]
    simp
  rw [heq, split_append, split_of_not_mem hfamily]
  rfl

/-- A name whose first segment is a family is of it. -/
theorem inFamily_of_split (h : split ':' s = family.toList :: rest) :
    s = family ∨ (family ++ ":").toList <+: s.toList := by
  have hs : s = join ':' (family.toList :: rest) := by rw [← h, join_split]
  cases rest with
  | nil =>
    left
    simpa [join] using hs
  | cons first rest =>
    right
    rw [hs]
    exact ⟨(join ':' (first :: rest)).toList, by simp [join]⟩

/-- The first segment of a name of a family. -/
theorem split_of_inFamily (hfamily : ':' ∉ family.toList) (h : s = family ∨ (family ++ ":").toList <+: s.toList) :
    ∃ rest, split ':' s = family.toList :: rest := by
  rcases h with rfl | ⟨tag, htag⟩
  · exact ⟨[], split_of_not_mem hfamily⟩
  · refine ⟨split ':' (String.ofList tag), ?_⟩
    have hs : s = family ++ ":" ++ String.ofList tag := by
      rw [← String.toList_inj, ← htag]
      simp
    rw [hs, split_family hfamily]

theorem booksCost_cogsAdj (cycleTag : String) : booksCost ("cogs-adj" ++ ":" ++ cycleTag) = true := by
  have hcolon : ':' ∉ "cogs-adj".toList := by decide
  have hsplit := split_stripRestores (split_family hcolon cycleTag)
  have hfamily := inFamily_of_split hsplit
  have hrecognized : isRecognized false (stripRestores ("cogs-adj" ++ ":" ++ cycleTag)) = true := by
    rw [isRecognized, decide_eq_true_eq]
    exact Or.inr (Or.inr ⟨"cogs-adj", by decide, hfamily⟩)
  rw [booksCost, recognitionRoot, if_pos hrecognized]
  rfl

theorem booksCost_costSettle (cycleTag : String) : booksCost ("cost-settle" ++ ":" ++ cycleTag) = true := by
  rw [booksCost, decide_eq_true_eq]
  exact Or.inr ⟨cycleTag.toList, by simp⟩

/-- A settlement is no finalize entry. -/
theorem finalizeRoot_costSettle (docId cycleTag : String) :
    finalizeRoot docId (jeId docId ("cost-settle" ++ ":" ++ cycleTag)) = none := by
  rw [finalizeRoot, docSuffix_jeId, Option.bind_some, Option.filter_eq_none_iff]
  intro root hroot hfin
  obtain ⟨-, rfl⟩ := recognitionRoot_eq_some.1 hroot
  rw [decide_eq_true_eq] at hfin
  have hcolon : ':' ∉ "fin".toList := by decide
  obtain ⟨rest, hrest⟩ := split_of_inFamily hcolon hfin
  rw [split_stripRestores (split_family (by decide) cycleTag)] at hrest
  exact absurd (List.cons.inj hrest).1 (by decide)

end

namespace CostFacts

section
variable {f : CostFacts} {entries : List DocEntry} {truth : List (String × ℚ)} {suffix cycleTag cycleTag' key : String}
  {lines : List PartyLine}

/-- The entry an adjustment posts, if any. -/
def adjustmentEntry (f : CostFacts) (entries : List DocEntry) (truth : List (String × ℚ)) (cycleTag : String) :
    Option DocEntry :=
  if f.adjustment truth (f.bookedCost entries) = [] then none
  else some ⟨jeId f.inv.docId (f.adjustmentFamily entries ++ ":" ++ cycleTag), true,
    f.cogsLines (f.adjustment truth (f.bookedCost entries))⟩

theorem reconcileDocCogs_eq (h : f.docTruth entries = .ok truth) :
    f.reconcileDocCogs entries cycleTag = .ok (f.adjustmentEntry entries truth cycleTag) := by
  rw [reconcileDocCogs, h, Except.map, createForDocCogsAdjustment, adjustmentEntry]
  change Except.ok (if f.adjustment truth (f.bookedCost entries) = [] then none
    else (emitParty f.currency (f.cogsLines (f.adjustment truth (f.bookedCost entries)))).map _) = _
  rw [emitParty_cogsLines postable_adjustment]
  rfl

theorem get_bookedCost : Amounts.get key (f.bookedCost entries) =
    totalOf (· = key) (f.entriesCost entries) + totalOf (· = key) f.movesCost := by
  rw [bookedCost, get_ofList]
  simp [totalOf]

theorem entriesCost_posted (h : booksCost suffix = true) :
    f.entriesCost (entries ++ [⟨jeId f.inv.docId suffix, true, lines⟩]) =
      f.entriesCost entries ++ f.linesCost lines := by
  simp [entriesCost, liveEntries, h]

/-- The adjustment books its amounts under the keys its lines are read back under. -/
theorem get_bookedCost_adjusted (truth : List (String × ℚ)) (cycleTag key : String) :
    Amounts.get key (f.bookedCost (entries ++ (f.adjustmentEntry entries truth cycleTag).toList)) =
      Amounts.get key (f.bookedCost entries) +
        totalOf (· = key) (f.keyed (byKeyOrder (f.adjustment truth (f.bookedCost entries)))) := by
  have hbooks : booksCost (f.adjustmentFamily entries ++ ":" ++ cycleTag) = true := by
    unfold adjustmentFamily
    split_ifs
    · exact booksCost_cogsAdj cycleTag
    · exact booksCost_costSettle cycleTag
  unfold adjustmentEntry
  split_ifs with hnil
  · rw [hnil]
    simp [keyed, byKeyOrder]
  · rw [Option.toList_some, get_bookedCost, entriesCost_posted hbooks, linesCost_cogsLines postable_adjustment,
      get_bookedCost]
    simp only [totalOf, List.map_append, List.sum_append]
    ring

theorem standing_adjusted (truth : List (String × ℚ)) (cycleTag : String) :
    f.standing (entries ++ (f.adjustmentEntry entries truth cycleTag).toList) = f.standing entries := by
  unfold adjustmentEntry
  split_ifs
  · simp
  · unfold adjustmentFamily
    split_ifs with hstanding
    · unfold standing at hstanding ⊢
      rw [List.any_append, hstanding, Bool.true_or]
    · unfold standing
      rw [List.any_append, Option.toList_some, List.any_cons, List.any_nil, finalizeRoot_costSettle]
      simp

end

/-! ## Settling -/

/-- A run after the adjustment posts nothing, and each key books its rounded truth but for
    less than half a unit. -/
structure Settled (f : CostFacts) (entries : List DocEntry) (truth : List (String × ℚ)) (cycleTag : String) : Prop where
  again : f.reconcileDocCogs entries cycleTag = .ok none
  near : ∀ key, |f.keyDelta truth (f.bookedCost entries) key| < quant f.currency / 2

/-- No key is booked an odd number of half units, and those half a unit or more off their
    rounded truth are read back from their lines. -/
structure Settles (f : CostFacts) (truth booked : List (String × ℚ)) : Prop where
  notHalf : ∀ key, ¬IsHalf (quant f.currency) (Amounts.get key booked)
  readsBack : ∀ key, |f.keyDelta truth booked key| < quant f.currency / 2 ∨ f.ReadsBack key

section
variable {f : CostFacts} {entries : List DocEntry} {truth booked : List (String × ℚ)} {cycleTag cycleTag' key : String}

theorem isHalf_keyDelta : IsHalf (quant f.currency) (f.keyDelta truth booked key) ↔
    IsHalf (quant f.currency) (Amounts.get key booked) :=
  (isWhole_roundMoney _ _).isHalf_sub_iff

theorem settled_iff (h : f.docTruth entries = .ok truth) :
    f.Settled entries truth cycleTag ↔ ∀ key, |f.keyDelta truth (f.bookedCost entries) key| < quant f.currency / 2 := by
  constructor
  · exact Settled.near
  · intro hnear
    refine ⟨?_, hnear⟩
    rw [reconcileDocCogs_eq h, adjustmentEntry, if_pos (adjustment_eq_nil_iff.2 hnear)]

/-- What is left of a key's difference once the adjustment is posted. -/
theorem keyDelta_adjusted (truth : List (String × ℚ)) (cycleTag key : String) :
    f.keyDelta truth (f.bookedCost (entries ++ (f.adjustmentEntry entries truth cycleTag).toList)) key =
      f.keyDelta truth (f.bookedCost entries) key -
        totalOf (· = key) (f.keyed (byKeyOrder (f.adjustment truth (f.bookedCost entries)))) := by
  rw [keyDelta, keyDelta, get_bookedCost_adjusted]
  ring

theorem totalOf_keyed_adjustment (h : ∀ p ∈ f.adjustment truth booked, f.ReadsBack p.1) (key : String) :
    totalOf (· = key) (f.keyed (byKeyOrder (f.adjustment truth booked))) =
      roundMoney (f.keyDelta truth booked key) f.currency := by
  rw [keyed_of_readsBack fun p hp => h p (mem_byKeyOrder.1 hp), totalOf_byKeyOrder, totalOf_adjustment]

theorem readsBack_of_adjusted {p : String × ℚ}
    (h : ∀ key, |f.keyDelta truth booked key| < quant f.currency / 2 ∨ f.ReadsBack key)
    (hp : p ∈ f.adjustment truth booked) : f.ReadsBack p.1 := by
  obtain ⟨hround, hne⟩ := mem_adjustment hp
  refine (h p.1).resolve_left fun hlt => hne ?_
  rw [hround]
  exact (roundTo_eq_zero_iff (quant_pos _)).2 hlt

/-- **A second run posts nothing exactly where no key is left at half a unit and each key
    adjusted is read back.** -/
theorem reconcile_settles_iff (f : CostFacts) (entries : List DocEntry) (truth : List (String × ℚ))
    (cycleTag cycleTag' : String) (h : f.docTruth entries = .ok truth) :
    ∃ first, f.reconcileDocCogs entries cycleTag = .ok first ∧
      (f.Settled (entries ++ first.toList) truth cycleTag' ↔ f.Settles truth (f.bookedCost entries)) := by
  refine ⟨f.adjustmentEntry entries truth cycleTag, reconcileDocCogs_eq h, ?_⟩
  have hadjusted : f.docTruth (entries ++ (f.adjustmentEntry entries truth cycleTag).toList) = .ok truth := by
    rw [docTruth, standing_adjusted]
    exact h
  rw [settled_iff hadjusted]
  constructor
  · intro hnear
    have hreads : ∀ key, |f.keyDelta truth (f.bookedCost entries) key| < quant f.currency / 2 ∨ f.ReadsBack key := by
      intro key
      by_cases hback : f.ReadsBack key
      · exact Or.inr hback
      · have hkey := hnear key
        rw [keyDelta_adjusted, totalOf_keyed_eq_zero hback, sub_zero] at hkey
        exact Or.inl hkey
    refine ⟨fun key => ?_, hreads⟩
    have hkey := hnear key
    rw [keyDelta_adjusted, totalOf_keyed_adjustment fun p hp => readsBack_of_adjusted hreads hp] at hkey
    exact fun hbooked => (abs_sub_roundTo_lt_iff (quant_pos _)).1 hkey (isHalf_keyDelta.2 hbooked)
  · rintro ⟨hhalf, hreads⟩ key
    rw [keyDelta_adjusted, totalOf_keyed_adjustment fun p hp => readsBack_of_adjusted hreads hp]
    exact (abs_sub_roundTo_lt_iff (quant_pos _)).2 fun hdelta => hhalf key (isHalf_keyDelta.1 hdelta)

end

/-- An invoice of two screws at 0.065 each, one of which another invoice shipped and took
    the cost of. -/
def screwTaken (moved : ℚ) : CostFacts where
  roles := ⟨[(cogs, "5000"), (inventoryPurchased, "1200")],
    fun role => if role = inventoryPurchased then ["1200"] else []⟩
  merges := []
  books := ⟨⟨[], List.nodup_nil⟩, [], "USD", fun _ => none, [], fun _ => none, false, true⟩
  inv :=
    { docId := "doc:1", lines := [], seq := 1
      allocations := [(0, ⟨[⟨"item:a", 1, 13 / 100 - moved, some "1200"⟩], 1, 13 / 100 - moved⟩)]
      nodup := by simp, repriced := fun _ => 0, shipped := [], back := [] }
  moves := [⟨"doc:2", "doc:1", [("1200", moved)]⟩]
  cogsCode := "5000"

/-- What finalizing the invoice posted. -/
def screwsFinalized : DocEntry :=
  ⟨"je:auto:doc:1:fin", true,
    [⟨⟨.debitOf "5000" (13 / 100), some ["cogs"]⟩, none⟩,
      ⟨⟨.creditOf "1200" (13 / 100), some ["inventory_purchased"]⟩, none⟩]⟩

/-- Where the move takes 0.06, the first run settles the cost. -/
theorem wholeMove_settles :
    ∃ first, (screwTaken (6 / 100)).reconcileDocCogs [screwsFinalized] "fulfill-0" = .ok first ∧
      ((screwTaken (6 / 100)).Settled ([screwsFinalized] ++ first.toList) [("1200", 7 / 100)] "fulfill-1" ↔
        (screwTaken (6 / 100)).Settles [("1200", 7 / 100)]
          ((screwTaken (6 / 100)).bookedCost [screwsFinalized])) :=
  reconcile_settles_iff (screwTaken (6 / 100)) [screwsFinalized] [("1200", 7 / 100)] "fulfill-0" "fulfill-1"
    (by decide +kernel)

/-- The move takes 0.065 and leaves 0.065 booked where 0.07 is recognized: the first run
    books a cent more, the second takes it back. -/
theorem halfMove_never_settles :
    ¬ ∀ (f : CostFacts) (entries : List DocEntry) (truth : List (String × ℚ)) (cycleTag cycleTag' : String),
      f.docTruth entries = .ok truth → ∃ first, f.reconcileDocCogs entries cycleTag = .ok first ∧
        f.Settled (entries ++ first.toList) truth cycleTag' := by
  intro h
  obtain ⟨first, hfirst, hsettled⟩ := h (screwTaken (65 / 1000)) [screwsFinalized] [("1200", 7 / 100)]
    "fulfill-0" "fulfill-1" (by decide +kernel)
  have hposted : (screwTaken (65 / 1000)).reconcileDocCogs [screwsFinalized] "fulfill-0" =
      .ok (some ⟨"je:auto:doc:1:cogs-adj:fulfill-0", true,
        [⟨⟨.debitOf "5000" (1 / 100), some ["cogs"]⟩, none⟩,
          ⟨⟨.creditOf "1200" (1 / 100), some ["inventory_purchased"]⟩, none⟩]⟩) := by decide +kernel
  obtain rfl := Except.ok.inj (hposted.symm.trans hfirst)
  have hagain := hsettled.again
  revert hagain
  decide +kernel

end CostFacts

end Celerp
