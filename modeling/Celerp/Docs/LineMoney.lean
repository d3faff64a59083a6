/-
  A document's money derived from its lines (`celerp/services/money.py`,
  `celerp_docs/doc_money.py`, `celerp_docs/taxes.py`).

  A line's amount is its own total, else its quantity at its price less its discount
  (`documentLineAmount`); the header discount reduces the base every tax is computed on
  (`derivedMoney`).

  Deriving money writes the taxes back into the lines, and deriving it again from these
  gives the same (`derivedMoney_again`).
-/
import Celerp.Money
import Celerp.Lib.Outcome
import Mathlib.Data.List.Sort

namespace Celerp

open Outcome

/-! ## Values -/

/-- A value read as a number. -/
inductive NumberInput where
  /-- none, or blank -/
  | absent
  | number (v : ℚ)
  /-- no number -/
  | other
  deriving DecidableEq, Repr

/-- What a document's money cannot be derived for. -/
inductive MoneyError where
  | notANumber
  /-- a tax no total can be computed from -/
  | unreadableTax
  /-- `UnratedTaxError` -/
  | unratedTax
  deriving DecidableEq, Repr

namespace NumberInput

/-- The number a value is, 0 where it is absent. -/
def orZero? : NumberInput → Option ℚ
  | absent => some 0
  | number v => some v
  | other => none

/-- `to_decimal(value or 0)` -/
def orZero (x : NumberInput) : Except MoneyError ℚ :=
  match x.orZero? with
  | some v => .ok v
  | none => .error .notANumber

end NumberInput

/-! ## Lines -/

/-- A tax with a rate (`TaxApplication`). -/
structure TaxApplication where
  code : String
  rate : ℚ
  amount : ℚ := 0
  order : ℤ := 0
  isCompound : Bool := false
  label : String := ""
  deriving DecidableEq, Repr

/-- A stored tax entry. -/
inductive TaxEntry where
  | tax (t : TaxApplication)
  /-- not a tax a total can be computed from -/
  | uncomputable (text : String)
  deriving DecidableEq, Repr

/-- The money fields of a document line. -/
structure MoneyLine where
  lineTotal : NumberInput := .absent
  quantity : NumberInput := .absent
  unitPrice : NumberInput := .absent
  price : NumberInput := .absent
  discountPct : NumberInput := .absent
  taxes : List TaxEntry := []
  taxRate : NumberInput := .absent
  deriving DecidableEq, Repr

namespace MoneyLine
variable (l : MoneyLine)

/-- `document_line_unit`: what a unit is charged, before a discount of the document. -/
def documentLineUnit : Option ℚ := do
  let qty ← l.quantity.orZero?
  let byPrice : Option ℚ :=
    match if l.unitPrice = .absent then l.price else l.unitPrice with
    | .absent | .other => none
    | .number price => l.discountPct.orZero?.map fun discount => price * (1 - discount / 100)
  if qty = 0 then byPrice
  else match l.lineTotal with
    | .absent => byPrice
    | .number total => some (total / qty)
    | .other => none

/-- `document_line_amount` -/
def documentLineAmount (currency : String) : Option ℚ :=
  match l.lineTotal with
  | .number total => some (roundMoney total currency)
  | .other => none
  | .absent => do
    let qty ← l.quantity.orZero?
    let unit ← l.documentLineUnit
    pure (roundMoney (unit * qty) currency)

/-- `_line_amount`: a line without an amount is 0. -/
def lineAmount (currency : String) : ℚ := (l.documentLineAmount currency).getD 0

/-- `line_tax_definition`: the taxes a line is charged, else its rate. -/
def lineTaxDefinition : Except MoneyError (List TaxApplication × ℚ) :=
  match l.taxes.filterMap fun | .tax t => some t | .uncomputable _ => none with
  | [] => l.taxRate.orZero.map fun rate => ([], rate)
  | t :: ts => .ok (t :: ts, 0)

end MoneyLine

theorem isWhole_documentLineAmount {l : MoneyLine} {c : String} {amount : ℚ}
    (hamount : l.documentLineAmount c = some amount) : IsWhole c amount := by
  unfold MoneyLine.documentLineAmount at hamount
  split at hamount
  · rw [← Option.some.inj hamount]
    exact isWhole_roundMoney _ c
  · cases hamount
  · obtain ⟨qty, -, hamount⟩ := Option.bind_eq_some_iff.1 hamount
    obtain ⟨unit, -, hamount⟩ := Option.bind_eq_some_iff.1 hamount
    rw [← Option.some.inj hamount]
    exact isWhole_roundMoney _ c

theorem isWhole_lineAmount (l : MoneyLine) (c : String) : IsWhole c (l.lineAmount c) := by
  unfold MoneyLine.lineAmount
  cases hamount : l.documentLineAmount c with
  | none => exact isWhole_zero c
  | some amount => exact isWhole_documentLineAmount hamount

/-! ## Taxes -/

/-- The amounts of taxes in turn, a compound one on the base and the taxes before it; an
    amount that is given stands. -/
def taxAmounts (base : ℚ) (currency : String) : ℚ → List TaxApplication → List TaxApplication
  | _, [] => []
  | running, t :: ts =>
    let amount := if t.amount ≠ 0 then t.amount
      else roundMoney ((if t.isCompound then base + running else base) * t.rate / 100) currency
    { t with amount := amount } :: taxAmounts base currency (running + amount) ts

/-- `compute_tax_amounts` -/
def computeTaxAmounts (taxes : List TaxApplication) (base : ℚ) (currency : String) : List TaxApplication :=
  taxAmounts base currency 0 (taxes.insertionSort fun t u => t.order ≤ u.order)

/-- `_recompute_tax_applications`: the taxes at a new base, whatever amounts they held. -/
def recomputeTaxApplications (entries : List TaxApplication) (base : ℚ) (currency : String) :
    List TaxApplication × ℚ :=
  let resolved := computeTaxAmounts (entries.map fun t => { t with amount := 0 }) (roundMoney base currency) currency
  (resolved, (resolved.map (·.amount)).sum)

/-- What a line is taxed by its taxes or its rate, and whether it has a tax of its own; the
    taxes are written back to it. -/
def taxedBy (ratio : ℚ) (currency : String) (l : MoneyLine) (definition : List TaxApplication × ℚ) :
    MoneyLine × ℚ × Bool :=
  let base := l.lineAmount currency * ratio
  if definition.1 ≠ [] then
    let resolved := recomputeTaxApplications definition.1 base currency
    ({ l with taxes := resolved.1.map .tax }, resolved.2, true)
  else if definition.2 ≠ 0 then (l, roundMoney (base * definition.2 / 100) currency, true)
  else (l, 0, false)

/-- A line taxed by what it says of its tax. -/
def taxLine (ratio : ℚ) (currency : String) (l : MoneyLine) : Except MoneyError (MoneyLine × ℚ × Bool) :=
  l.lineTaxDefinition.map (taxedBy ratio currency l)

/-! ## A document's money -/

/-- The header inputs of a document's money. -/
structure MoneyHeader where
  discount : NumberInput := .absent
  discountType : Option String := none
  docTaxes : List TaxEntry := []
  taxRate : NumberInput := .absent
  tax : NumberInput := .absent
  shipping : NumberInput := .absent
  deriving DecidableEq, Repr

/-- Subtotal, discount, tax and total of a document. -/
structure DerivedMoney where
  subtotal : ℚ
  discountAmount : ℚ
  tax : ℚ
  total : ℚ
  docTaxes : List TaxApplication := []
  deriving DecidableEq, Repr

/-- The tax a header gives where no line has one: its rate on what is taxable, else the
    amount it holds, unless a rate it held before computed it. -/
def headerTax (h : MoneyHeader) (taxable : ℚ) (currency : String) (keepUnratedTax storedHasRate : Bool) :
    Except MoneyError ℚ := do
  let rate ← h.taxRate.orZero
  if rate ≠ 0 then pure (roundMoney (taxable * rate / 100) currency)
  else if storedHasRate then pure 0
  else do
    let tax ← h.tax.orZero
    let tax := roundMoney tax currency
    if tax ≠ 0 ∧ !keepUnratedTax then .error .unratedTax else pure tax

/-- The document taxes a total is computed from. -/
def readDocTaxes (entries : List TaxEntry) : Except MoneyError (List TaxApplication) :=
  entries.mapM fun
    | .tax t => .ok t
    | .uncomputable _ => .error .unreadableTax

/-- The tax of a document: its lines' and its own where it has some, else what the header
    gives. -/
def taxTotal (h : MoneyHeader) (taxed : List (MoneyLine × ℚ × Bool)) (docTaxes : List TaxApplication) (taxable : ℚ)
    (currency : String) (keepUnratedTax storedHasRate : Bool) : Except MoneyError ℚ :=
  let lineTaxTotal := (taxed.map (·.2.1)).sum
  if docTaxes ≠ [] then .ok (lineTaxTotal + (recomputeTaxApplications docTaxes taxable currency).2)
  else if taxed.any (·.2.2) then .ok lineTaxTotal
  else headerTax h taxable currency keepUnratedTax storedHasRate

/-- The header discount of a subtotal, no more than it. -/
def headerDiscount (h : MoneyHeader) (given subtotal : ℚ) (currency : String) : ℚ :=
  let discount := max 0 given
  let amount := if h.discountType = some "percentage" then subtotal * discount / 100 else discount
  roundMoney (min (max amount 0) subtotal) currency

/-- `_derived_money`: the money, and the lines with their taxes. -/
def derivedMoney (h : MoneyHeader) (lines : List MoneyLine) (currency : String) (keepUnratedTax storedHasRate : Bool) :
    Except MoneyError (DerivedMoney × List MoneyLine) := do
  let subtotal := roundMoney (lines.map (·.lineAmount currency)).sum currency
  let given ← h.discount.orZero
  let discountAmount := headerDiscount h given subtotal currency
  let taxable := subtotal - discountAmount
  let ratio := if 0 < subtotal then taxable / subtotal else 1
  let taxed ← lines.mapM (taxLine ratio currency)
  let docTaxes ← readDocTaxes h.docTaxes
  let taxes ← taxTotal h taxed docTaxes taxable currency keepUnratedTax storedHasRate
  let shipping ← h.shipping.orZero
  let tax := roundMoney taxes currency
  pure (⟨subtotal, discountAmount, tax, roundMoney (taxable + tax + roundMoney shipping currency) currency,
    if docTaxes ≠ [] then (recomputeTaxApplications docTaxes taxable currency).1 else []⟩, taxed.map Prod.fst)

/-! ## Deriving again -/

section
variable {l l' : MoneyLine} {ratio base : ℚ} {currency : String} {t : ℚ × Bool}

theorem taxAmounts_clear (base : ℚ) (currency : String) : ∀ (running : ℚ) (ts : List TaxApplication),
    (∀ t ∈ ts, t.amount = 0) → (taxAmounts base currency running ts).map (fun t => { t with amount := 0 }) = ts
  | _, [], _ => rfl
  | running, t :: ts, h => by
    rw [List.forall_mem_cons] at h
    rw [taxAmounts, List.map_cons, taxAmounts_clear base currency _ ts h.2]
    obtain ⟨_, _, _, _, _, _⟩ := t
    obtain rfl := h.1
    rfl

/-- Recomputing taxes that were recomputed changes nothing. -/
theorem recompute_again (entries : List TaxApplication) :
    recomputeTaxApplications (recomputeTaxApplications entries base currency).1 base currency =
      recomputeTaxApplications entries base currency := by
  have hsorted : ((entries.map fun t => { t with amount := 0 }).insertionSort
      fun t u => t.order ≤ u.order).Pairwise fun t u => t.order ≤ u.order :=
    List.pairwise_insertionSort _ _
  have hclear : ∀ t ∈ (entries.map fun t => { t with amount := 0 }).insertionSort fun t u => t.order ≤ u.order,
      t.amount = 0 := by
    intro t ht
    obtain ⟨u, -, rfl⟩ := List.mem_map.1 ((List.perm_insertionSort _ _).mem_iff.1 ht)
    rfl
  unfold recomputeTaxApplications computeTaxAmounts
  dsimp only
  rw [taxAmounts_clear _ _ _ _ hclear, hsorted.insertionSort_eq]

theorem recompute_ne_nil {entries : List TaxApplication} (h : entries ≠ []) :
    (recomputeTaxApplications entries base currency).1 ≠ [] := by
  have hlength : ∀ (running : ℚ) (ts : List TaxApplication),
      (taxAmounts (roundMoney base currency) currency running ts).length = ts.length := by
    intro running ts
    induction ts generalizing running with
    | nil => rfl
    | cons t ts ih => rw [taxAmounts, List.length_cons, List.length_cons, ih]
  intro hnil
  have := hlength 0 ((entries.map fun t => { t with amount := 0 }).insertionSort fun t u => t.order ≤ u.order)
  unfold recomputeTaxApplications computeTaxAmounts at hnil
  dsimp only at hnil
  rw [hnil, List.length_insertionSort, List.length_map] at this
  exact h (List.length_eq_zero_iff.1 this.symm)

/-- Taxes written back to a line are what it is charged. -/
theorem lineTaxDefinition_resolved {ts : List TaxApplication} (h : ts ≠ []) :
    ({ l with taxes := ts.map .tax } : MoneyLine).lineTaxDefinition = .ok (ts, 0) := by
  have hread : (ts.map TaxEntry.tax).filterMap (fun | .tax t => some t | .uncomputable _ => none) = ts := by
    clear h
    induction ts with
    | nil => rfl
    | cons t ts ih => rw [List.map_cons, List.filterMap_cons, ih]
  unfold MoneyLine.lineTaxDefinition
  dsimp only
  rw [hread]
  cases ts with
  | nil => exact absurd rfl h
  | cons t ts => rfl

theorem lineAmount_taxedBy (ratio : ℚ) (currency : String) (l : MoneyLine) (definition : List TaxApplication × ℚ) :
    (taxedBy ratio currency l definition).1.lineAmount currency = l.lineAmount currency := by
  unfold taxedBy
  split_ifs <;> rfl

/-- A line whose taxes are written back has the amount it had. -/
theorem lineAmount_taxLine {r : MoneyLine × ℚ × Bool} (h : taxLine ratio currency l = .ok r) :
    r.1.lineAmount currency = l.lineAmount currency := by
  unfold taxLine at h
  cases hdefinition : l.lineTaxDefinition with
  | error e =>
    rw [hdefinition] at h
    cases h
  | ok definition =>
    rw [hdefinition] at h
    rw [← Except.ok.inj h]
    exact lineAmount_taxedBy ratio currency l definition

/-- A line whose taxes are written back is taxed the same again. -/
theorem taxLine_again {r : MoneyLine × ℚ × Bool} (h : taxLine ratio currency l = .ok r) :
    taxLine ratio currency r.1 = .ok r := by
  have hamount := lineAmount_taxLine h
  cases hdefinition : l.lineTaxDefinition with
  | error e =>
    rw [taxLine, hdefinition] at h
    cases h
  | ok definition =>
    have htaxed : taxedBy ratio currency l definition = r := by
      rw [taxLine, hdefinition] at h
      exact Except.ok.inj h
    by_cases hentries : definition.1 = []
    · have hsame : r.1 = l := by
        unfold taxedBy at htaxed
        rw [if_neg (not_not.2 hentries)] at htaxed
        split_ifs at htaxed <;> rw [← htaxed]
      rw [hsame]
      exact h
    · unfold taxedBy at htaxed
      rw [if_pos hentries] at htaxed
      subst htaxed
      dsimp only at hamount ⊢
      rw [taxLine, lineTaxDefinition_resolved (recompute_ne_nil hentries), Except.map, taxedBy, hamount,
        if_pos (recompute_ne_nil hentries), recompute_again]

end

section
variable {α β : Type} {f : α → Except MoneyError (α × β)}

/-- A loop over what it wrote back gives the same again. -/
theorem mapM_again (h : ∀ a r, f a = .ok r → f r.1 = .ok r) : ∀ {l : List α} {rs : List (α × β)},
    l.mapM f = .ok rs → (rs.map Prod.fst).mapM f = .ok rs
  | [], rs, hl => by
    rw [List.mapM_nil] at hl
    rw [← Except.ok.inj hl]
    rfl
  | a :: l, rs, hl => by
    rw [List.mapM_cons] at hl
    obtain ⟨r, hr, hl⟩ := bind_eq_ok.1 hl
    obtain ⟨rest, hrest, hl⟩ := bind_eq_ok.1 hl
    rw [← Except.ok.inj hl, List.map_cons, List.mapM_cons, h a r hr, mapM_again h hrest]
    rfl

end

section
variable {h : MoneyHeader} {lines lines' : List MoneyLine} {currency : String} {keepUnratedTax storedHasRate : Bool}
  {money : DerivedMoney}

/-- Lines whose taxes are written back have the amounts they had. -/
theorem lineAmounts_taxed {ratio : ℚ} : ∀ {lines : List MoneyLine} {taxed : List (MoneyLine × ℚ × Bool)},
    lines.mapM (taxLine ratio currency) = .ok taxed →
      (taxed.map Prod.fst).map (·.lineAmount currency) = lines.map (·.lineAmount currency)
  | [], taxed, hl => by
    rw [List.mapM_nil] at hl
    rw [← Except.ok.inj hl]
    rfl
  | l :: lines, taxed, hl => by
    rw [List.mapM_cons] at hl
    obtain ⟨r, hr, hl⟩ := bind_eq_ok.1 hl
    obtain ⟨rest, hrest, hl⟩ := bind_eq_ok.1 hl
    rw [← Except.ok.inj hl, List.map_cons, List.map_cons, List.map_cons, lineAmounts_taxed hrest, lineAmount_taxLine hr]

/-- The lines a document's money writes back are its lines with their taxes. -/
theorem taxed_of_derivedMoney
    (hmoney : derivedMoney h lines currency keepUnratedTax storedHasRate = .ok (money, lines')) :
    ∃ given ratio taxed, h.discount.orZero = .ok given ∧
      ratio = (let subtotal := roundMoney (lines.map (·.lineAmount currency)).sum currency
        let taxable := subtotal - headerDiscount h given subtotal currency
        if 0 < subtotal then taxable / subtotal else 1) ∧
      lines.mapM (taxLine ratio currency) = .ok taxed ∧ lines' = taxed.map Prod.fst := by
  unfold derivedMoney at hmoney
  dsimp only at hmoney
  obtain ⟨given, hgiven, hmoney⟩ := bind_eq_ok.1 hmoney
  obtain ⟨taxed, htaxed, hmoney⟩ := bind_eq_ok.1 hmoney
  obtain ⟨docTaxes, -, hmoney⟩ := bind_eq_ok.1 hmoney
  obtain ⟨taxes, -, hmoney⟩ := bind_eq_ok.1 hmoney
  obtain ⟨shipping, -, hmoney⟩ := bind_eq_ok.1 hmoney
  exact ⟨given, _, taxed, hgiven, rfl, htaxed, (Prod.mk.inj (Except.ok.inj hmoney)).2.symm⟩

/-- They have the amounts they had. -/
theorem lineAmounts_derivedMoney
    (hmoney : derivedMoney h lines currency keepUnratedTax storedHasRate = .ok (money, lines')) :
    lines'.map (·.lineAmount currency) = lines.map (·.lineAmount currency) := by
  obtain ⟨given, ratio, taxed, -, -, htaxed, rfl⟩ := taxed_of_derivedMoney hmoney
  exact lineAmounts_taxed htaxed

/-- **Deriving the money of lines again changes nothing.** -/
theorem derivedMoney_again (hmoney : derivedMoney h lines currency keepUnratedTax storedHasRate = .ok (money, lines')) :
    derivedMoney h lines' currency keepUnratedTax storedHasRate = .ok (money, lines') := by
  have hamounts := lineAmounts_derivedMoney hmoney
  obtain ⟨given, ratio, taxed, hgiven, hratio, htaxed, hlines⟩ := taxed_of_derivedMoney hmoney
  have hagain := mapM_again (fun l r hr => taxLine_again hr) htaxed
  rw [← hlines] at hagain
  refine Eq.trans ?_ hmoney
  unfold derivedMoney
  dsimp only at hratio ⊢
  rw [hamounts]
  refine bind_congr_of_ok fun given' hgiven' => ?_
  obtain rfl : given' = given := Except.ok.inj (hgiven'.symm.trans hgiven)
  rw [← hratio, hagain, htaxed]

end

end Celerp
