/-
  A document's money, derived again and within bounds (`celerp_docs/doc_money.py`).

  `documentMoney` refuses a tax it cannot read and derives the money of a document from its
  lines; `moneyFromLines` does so for a document that has no totals yet. What is derived is
  stored back in the fields the next derivation reads (`MoneyDoc.updated`).

  * `recomputed_same`: deriving the money of what was stored gives the same;
  * `discount_within_iff`: the discount stays between nothing and the subtotal exactly
    where the lines do not come to less than nothing.
-/
import Celerp.Docs.Document
import Celerp.Docs.ListTotals

namespace Celerp

open Outcome

/-! ## Documents -/

/-- A document's state, as far as its money goes. -/
structure MoneyDoc where
  status : Option DocStatus := none
  header : MoneyHeader := {}
  lineItems : List ListEntry := []
  subtotal : Option ℚ := none
  discountAmount : Option ℚ := none
  total : Option ℚ := none
  deriving DecidableEq, Repr

/-- A header with the money derived. -/
def MoneyHeader.holding (h : MoneyHeader) (money : DerivedMoney) : MoneyHeader :=
  { h with
    docTaxes := if money.docTaxes = [] then h.docTaxes else money.docTaxes.map .tax
    tax := .number money.tax }

/-- Why a document's money is not derived. -/
inductive DocMoneyError where
  /-- a tax that cannot be read; a document past draft is told the way back to one -/
  | taxUnreadable (pastDraft : Bool)
  | money (e : MoneyError)
  deriving DecidableEq, Repr

/-- The entries that are lines. -/
def linesOf (entries : List ListEntry) : List MoneyLine := entries.filterMap id

namespace MoneyDoc
variable (d : MoneyDoc)

/-- `_past_draft` -/
def pastDraft : Bool := d.status ≠ none ∧ d.status ≠ some .draft

/-- The document with its money and its lines. -/
def updated (money : DerivedMoney) (lines : List ListEntry) : MoneyDoc where
  status := d.status
  header := d.header.holding money
  lineItems := lines
  subtotal := some money.subtotal
  discountAmount := some money.discountAmount
  total := some money.total

end MoneyDoc

/-! ## Money -/

/-- `computable_tax` -/
def TaxEntry.computable : TaxEntry → Bool
  | .tax _ => true
  | .uncomputable _ => false

/-- Every tax is one a total can be computed from (`uncomputable_tax`). -/
def computableTaxes (docTaxes : List TaxEntry) (lines : List MoneyLine) : Bool :=
  docTaxes.all TaxEntry.computable && lines.all fun l => l.taxes.all TaxEntry.computable

/-- `refuse_malformed_taxes` -/
def refuseMalformedTaxes (docTaxes : List TaxEntry) (lines : List MoneyLine) (pastDraft : Bool) :
    Except DocMoneyError Unit :=
  if computableTaxes docTaxes lines then .ok ⟨⟩ else .error (.taxUnreadable pastDraft)

/-- `line_has_tax` -/
def MoneyLine.lineHasTax (l : MoneyLine) : Except MoneyError Bool :=
  l.lineTaxDefinition.map fun d => d.1 ≠ [] || d.2 ≠ 0

/-- `_has_rate`: the tax comes from a rate. -/
def givesRate (h : MoneyHeader) (lines : List MoneyLine) : Except MoneyError Bool := do
  let rate ← h.taxRate.orZero
  if h.docTaxes ≠ [] ∨ rate ≠ 0 then pure true else lines.anyM MoneyLine.lineHasTax

/-- Whether the document before a change had a rate, asked where nothing gives one now. -/
def storedGivesRate (h : MoneyHeader) (lines : List MoneyLine) (stored : Option MoneyDoc) : Except MoneyError Bool :=
  match stored with
  | some d => if givesRate h lines = .ok false then givesRate d.header (linesOf d.lineItems) else .ok false
  | none => .ok false

/-- `document_money`: the money of a document with these lines, and the lines with their
    taxes. -/
def documentMoney (state : MoneyDoc) (lines : List ListEntry) (currency : String) (keepUnratedTax : Bool)
    (stored : Option MoneyDoc) : Except DocMoneyError (DerivedMoney × List ListEntry) := do
  refuseMalformedTaxes state.header.docTaxes (linesOf lines) (stored.getD state).pastDraft
  let rated ← (storedGivesRate state.header (linesOf lines) stored).mapError .money
  let (money, taxed) ← (derivedMoney state.header (linesOf lines) currency keepUnratedTax rated).mapError .money
  pure (money, putLines lines taxed)

/-- A line with its amount as its total. -/
def MoneyLine.totalled (currency : String) (l : MoneyLine) : MoneyLine :=
  { l with lineTotal := .number (l.lineAmount currency) }

/-- `money_from_lines`: a document given its lines but no total. -/
def moneyFromLines (data : MoneyDoc) (currency : String) : Except DocMoneyError MoneyDoc :=
  let lines := (linesOf data.lineItems).map (·.totalled currency)
  (documentMoney data (lines.map some) currency true none).map fun r => data.updated r.1 r.2

/-! ## What a derivation reads and gives -/

section
variable {h : MoneyHeader} {lines ls : List MoneyLine} {c : String} {keep rated : Bool} {m : DerivedMoney}

/-- The share of a line's amount left to be taxed. -/
def taxableRatio (subtotal taxable : ℚ) : ℚ := if 0 < subtotal then taxable / subtotal else 1

/-- What the lines come to. -/
def subtotalOf (lines : List MoneyLine) (c : String) : ℚ := roundMoney (lines.map (·.lineAmount c)).sum c

/-- The parts of a derivation. -/
structure Derives (h : MoneyHeader) (lines : List MoneyLine) (c : String) (keep rated : Bool) (m : DerivedMoney)
    (given taxes shipping : ℚ) (taxed : List (MoneyLine × ℚ × Bool)) (docTaxes : List TaxApplication) : Prop where
  given_eq : h.discount.orZero = .ok given
  subtotal : m.subtotal = subtotalOf lines c
  discountAmount : m.discountAmount = headerDiscount h given m.subtotal c
  taxed_eq : lines.mapM (taxLine (taxableRatio m.subtotal (m.subtotal - m.discountAmount)) c) = .ok taxed
  docTaxes_eq : readDocTaxes h.docTaxes = .ok docTaxes
  taxes_eq : taxTotal h taxed docTaxes (m.subtotal - m.discountAmount) c keep rated = .ok taxes
  shipping_eq : h.shipping.orZero = .ok shipping
  tax : m.tax = roundMoney taxes c
  total : m.total = roundMoney (m.subtotal - m.discountAmount + m.tax + roundMoney shipping c) c
  resolved : m.docTaxes =
    if docTaxes ≠ [] then (recomputeTaxApplications docTaxes (m.subtotal - m.discountAmount) c).1 else []

theorem derivedMoney_eq_ok : derivedMoney h lines c keep rated = .ok (m, ls) ↔
    ∃ given taxes shipping taxed docTaxes, Derives h lines c keep rated m given taxes shipping taxed docTaxes ∧
      ls = taxed.map Prod.fst := by
  constructor
  · intro hmoney
    unfold derivedMoney at hmoney
    dsimp only at hmoney
    obtain ⟨given, hgiven, hmoney⟩ := bind_eq_ok.1 hmoney
    obtain ⟨taxed, htaxed, hmoney⟩ := bind_eq_ok.1 hmoney
    obtain ⟨docTaxes, hdocTaxes, hmoney⟩ := bind_eq_ok.1 hmoney
    obtain ⟨taxes, htaxes, hmoney⟩ := bind_eq_ok.1 hmoney
    obtain ⟨shipping, hshipping, hmoney⟩ := bind_eq_ok.1 hmoney
    obtain ⟨rfl, rfl⟩ := Prod.mk.inj (Except.ok.inj hmoney)
    exact ⟨given, taxes, shipping, taxed, docTaxes,
      ⟨hgiven, rfl, rfl, htaxed, hdocTaxes, htaxes, hshipping, rfl, rfl, rfl⟩, rfl⟩
  · rintro ⟨given, taxes, shipping, taxed, docTaxes, hd, rfl⟩
    obtain ⟨subtotal, discountAmount, tax, total, resolved⟩ := m
    obtain ⟨hgiven, hsubtotal, hdiscount, htaxed, hdocTaxes, htaxes, hshipping, htax, htotal, hresolved⟩ := hd
    dsimp only at hsubtotal hdiscount htaxed htaxes htax htotal hresolved
    subst hsubtotal hdiscount htax htotal hresolved
    unfold derivedMoney
    dsimp only
    rw [hgiven]
    refine bind_eq_ok.2 ⟨given, rfl, bind_eq_ok.2 ⟨taxed, htaxed, bind_eq_ok.2 ⟨docTaxes, hdocTaxes, ?_⟩⟩⟩
    exact bind_eq_ok.2 ⟨taxes, htaxes, bind_eq_ok.2 ⟨shipping, hshipping, rfl⟩⟩

end

/-! ## Deriving from what was stored -/

section
variable {h : MoneyHeader} {lines : List MoneyLine} {c : String} {keep rated : Bool} {m : DerivedMoney}
  {given taxes shipping taxable : ℚ} {taxed : List (MoneyLine × ℚ × Bool)} {docTaxes : List TaxApplication}

theorem readDocTaxes_map (docTaxes : List TaxApplication) : readDocTaxes (docTaxes.map .tax) = .ok docTaxes := by
  unfold readDocTaxes
  induction docTaxes with
  | nil => rfl
  | cons t ts ih =>
    rw [List.map_cons, List.mapM_cons, ih]
    rfl

/-- The tax a header gives is stored as the tax it gives. -/
theorem headerTax_holding (htaxes : headerTax h taxable c keep rated = .ok taxes) (hm : m.tax = roundMoney taxes c) :
    ∃ taxes', headerTax (h.holding m) taxable c true false = .ok taxes' ∧ roundMoney taxes' c = m.tax := by
  obtain ⟨rate, hrate, htaxes⟩ := bind_eq_ok.1 htaxes
  have hwhole : roundMoney m.tax c = m.tax := by
    rw [hm]
    exact roundMoney_of_isWhole (isWhole_roundMoney taxes c)
  unfold headerTax
  by_cases hzero : rate = 0
  · refine ⟨roundMoney m.tax c, bind_eq_ok.2 ⟨rate, hrate, ?_⟩, by rw [hwhole, hwhole]⟩
    rw [if_neg (not_not.2 hzero), if_neg Bool.false_ne_true]
    refine bind_eq_ok.2 ⟨m.tax, rfl, ?_⟩
    dsimp only
    rw [if_neg (by simp)]
    rfl
  · rw [if_pos hzero] at htaxes
    refine ⟨taxes, bind_eq_ok.2 ⟨rate, hrate, ?_⟩, hm.symm⟩
    rw [if_pos hzero]
    exact htaxes

/-- The taxes charged on what was stored are those that were charged. -/
theorem taxTotal_holding (hdoc : m.docTaxes = if docTaxes ≠ [] then (recomputeTaxApplications docTaxes taxable c).1 else [])
    (htaxes : taxTotal h taxed docTaxes taxable c keep rated = .ok taxes) (hm : m.tax = roundMoney taxes c) :
    ∃ taxes', taxTotal (h.holding m) taxed m.docTaxes taxable c true false = .ok taxes' ∧ roundMoney taxes' c = m.tax := by
  unfold taxTotal at htaxes ⊢
  dsimp only at htaxes ⊢
  by_cases hnone : docTaxes = []
  · rw [if_neg (not_not.2 hnone)] at hdoc htaxes
    rw [if_neg (not_not.2 hdoc)]
    by_cases hlines : taxed.any (·.2.2)
    · rw [if_pos hlines] at htaxes ⊢
      exact ⟨taxes, htaxes, hm.symm⟩
    · rw [if_neg hlines] at htaxes ⊢
      exact headerTax_holding htaxes hm
  · rw [if_pos hnone] at hdoc htaxes
    rw [if_pos (by rw [hdoc]; exact recompute_ne_nil hnone), hdoc, recompute_again]
    exact ⟨taxes, htaxes, hm.symm⟩

/-- **Money derived from what was stored is the money that was stored.** -/
theorem Derives.again (hd : Derives h lines c keep rated m given taxes shipping taxed docTaxes) :
    ∃ taxes', Derives (h.holding m) (taxed.map Prod.fst) c true false m given taxes' shipping taxed m.docTaxes := by
  obtain ⟨taxes', htaxes', htax'⟩ := taxTotal_holding hd.resolved hd.taxes_eq hd.tax
  refine ⟨taxes', ?_⟩
  have hread : readDocTaxes (h.holding m).docTaxes = .ok m.docTaxes := by
    unfold MoneyHeader.holding
    dsimp only
    split_ifs with hnil
    · have hnone : docTaxes = [] := by
        by_contra hne
        have hresolved := hd.resolved
        rw [if_pos hne, hnil] at hresolved
        exact recompute_ne_nil hne hresolved.symm
      rw [hd.docTaxes_eq, hnone, hnil]
    · exact readDocTaxes_map m.docTaxes
  have hresolved : m.docTaxes =
      if m.docTaxes ≠ [] then (recomputeTaxApplications m.docTaxes (m.subtotal - m.discountAmount) c).1 else [] := by
    by_cases hne : docTaxes = []
    · have hnil : m.docTaxes = [] := by rw [hd.resolved, if_neg (not_not.2 hne)]
      rw [hnil, if_neg (not_not.2 rfl)]
    · have hsame := hd.resolved
      rw [if_pos hne] at hsame
      rw [hsame, if_pos (recompute_ne_nil hne), recompute_again]
  exact
    { given_eq := hd.given_eq
      subtotal := by
        rw [hd.subtotal, subtotalOf, subtotalOf, lineAmounts_taxed hd.taxed_eq]
      discountAmount := hd.discountAmount
      taxed_eq := mapM_again (fun l r hr => taxLine_again hr) hd.taxed_eq
      docTaxes_eq := hread
      taxes_eq := htaxes'
      shipping_eq := hd.shipping_eq
      tax := htax'.symm
      total := hd.total
      resolved := hresolved }

end

/-! ## Lines and their taxes -/

section
variable {h : MoneyHeader} {l : MoneyLine} {lines : List MoneyLine} {entries : List ListEntry} {c : String} {ratio : ℚ}
  {m : DerivedMoney} {docTaxes : List TaxEntry} {r : MoneyLine × ℚ × Bool} {taxed : List (MoneyLine × ℚ × Bool)}

theorem all_computable_map (ts : List TaxApplication) : (ts.map TaxEntry.tax).all TaxEntry.computable := by
  rw [List.all_eq_true]
  intro e he
  obtain ⟨t, -, rfl⟩ := List.mem_map.1 he
  rfl

/-- A taxed line is the line, or the line with the taxes charged. -/
theorem taxLine_spec (hr : taxLine ratio c l = .ok r) : r.1 = l ∨ ∃ ts : List TaxApplication, r.1 = { l with taxes := ts.map .tax } := by
  obtain ⟨definition, -, rfl⟩ := map_eq_ok.1 hr
  unfold taxedBy
  dsimp only
  split_ifs
  · exact .inr ⟨_, rfl⟩
  · exact .inl rfl
  · exact .inl rfl

/-- What charging a line its taxes keeps of it holds of every line taxed. -/
theorem forall_taxed {p : MoneyLine → Prop} (htaxed : lines.mapM (taxLine ratio c) = .ok taxed)
    (hkeeps : ∀ l r, taxLine ratio c l = .ok r → p l → p r.1) (hlines : ∀ l ∈ lines, p l) :
    ∀ l ∈ taxed.map Prod.fst, p l := by
  have hall := forall₂_of_mapM_eq_ok htaxed
  intro l hl
  obtain ⟨r, hr, rfl⟩ := List.mem_map.1 hl
  obtain ⟨i, hi, rfl⟩ := List.getElem_of_mem hr
  have hi' : i < lines.length := hall.length_eq.symm ▸ hi
  exact hkeeps lines[i] taxed[i] (hall.get hi' hi) (hlines _ (List.getElem_mem hi'))

theorem computable_again (hcomputable : computableTaxes h.docTaxes lines) (htaxed : lines.mapM (taxLine ratio c) = .ok taxed) :
    computableTaxes (h.holding m).docTaxes (taxed.map Prod.fst) := by
  unfold computableTaxes at hcomputable ⊢
  rw [Bool.and_eq_true, List.all_eq_true (p := fun l : MoneyLine => l.taxes.all TaxEntry.computable)] at hcomputable ⊢
  obtain ⟨hdoc, hlines⟩ := hcomputable
  constructor
  · unfold MoneyHeader.holding
    dsimp only
    split_ifs
    · exact hdoc
    · exact all_computable_map m.docTaxes
  · refine forall_taxed htaxed ?_ hlines
    intro l r hr hl
    rcases taxLine_spec hr with hsame | ⟨ts, hts⟩
    · rw [hsame]
      exact hl
    · rw [hts]
      exact all_computable_map ts

/-- Putting back the lines that are there changes nothing. -/
theorem putLines_self : ∀ entries : List ListEntry, putLines entries (linesOf entries) = entries
  | [] => rfl
  | none :: entries => by
    show none :: putLines entries (linesOf entries) = _
    rw [putLines_self entries]
  | some l :: entries => by
    show some l :: putLines entries (linesOf entries) = _
    rw [putLines_self entries]

theorem linesOf_putLines (htaxed : (linesOf entries).mapM (taxLine ratio c) = .ok taxed) :
    linesOf (putLines entries (taxed.map Prod.fst)) = taxed.map Prod.fst := by
  refine filterMap_putLines ?_
  rw [List.length_map]
  exact (forall₂_of_mapM_eq_ok htaxed).length_eq.symm

/-- Where a document's rate is not asked again, it had none. -/
theorem storedGivesRate_self (d : MoneyDoc) : storedGivesRate d.header (linesOf d.lineItems) (some d) = .ok false := by
  unfold storedGivesRate
  split_ifs with hnone
  · exact hnone
  · rfl

end

/-! ## Documents again -/

section
variable {state : MoneyDoc} {lines lines' : List ListEntry} {c : String} {keep : Bool} {stored : Option MoneyDoc}
  {m : DerivedMoney}

/-- What a derivation that is not refused read and gave. -/
theorem documentMoney_eq_ok : documentMoney state lines c keep stored = .ok (m, lines') ↔
    computableTaxes state.header.docTaxes (linesOf lines) = true ∧
      ∃ rated given taxes shipping taxed docTaxes, storedGivesRate state.header (linesOf lines) stored = .ok rated ∧
        Derives state.header (linesOf lines) c keep rated m given taxes shipping taxed docTaxes ∧
        lines' = putLines lines (taxed.map Prod.fst) := by
  unfold documentMoney refuseMalformedTaxes
  constructor
  · intro hmoney
    obtain ⟨⟨⟩, hrefuse, hmoney⟩ := bind_eq_ok.1 hmoney
    split_ifs at hrefuse with hcomputable
    obtain ⟨rated, hrated, hmoney⟩ := bind_eq_ok.1 hmoney
    obtain ⟨⟨m', ls⟩, hderived, hmoney⟩ := bind_eq_ok.1 hmoney
    obtain ⟨rfl, rfl⟩ := Prod.mk.inj (Except.ok.inj hmoney)
    obtain ⟨given, taxes, shipping, taxed, docTaxes, hd, rfl⟩ := derivedMoney_eq_ok.1 (mapError_eq_ok.1 hderived)
    exact ⟨hcomputable, rated, given, taxes, shipping, taxed, docTaxes, mapError_eq_ok.1 hrated, hd, rfl⟩
  · rintro ⟨hcomputable, rated, given, taxes, shipping, taxed, docTaxes, hrated, hd, rfl⟩
    rw [if_pos hcomputable]
    refine bind_eq_ok.2 ⟨⟨⟩, rfl, bind_eq_ok.2 ⟨rated, mapError_eq_ok.2 hrated, ?_⟩⟩
    refine bind_eq_ok.2 ⟨(m, taxed.map Prod.fst), mapError_eq_ok.2 ?_, rfl⟩
    exact derivedMoney_eq_ok.2 ⟨given, taxes, shipping, taxed, docTaxes, hd, rfl⟩

/-- Deriving again from what was stored, whatever document that was stored in. -/
theorem documentMoney_again (hmoney : documentMoney state lines c keep stored = .ok (m, lines'))
    (stored' : Option MoneyDoc)
    (hstored : storedGivesRate (state.header.holding m) (linesOf lines') stored' = .ok false) :
    documentMoney (state.updated m lines') lines' c true stored' = .ok (m, lines') := by
  obtain ⟨hcomputable, rated, given, taxes, shipping, taxed, docTaxes, -, hd, rfl⟩ := documentMoney_eq_ok.1 hmoney
  obtain ⟨taxes', hagain⟩ := hd.again
  have hlines := linesOf_putLines hd.taxed_eq
  refine documentMoney_eq_ok.2 ⟨?_, false, given, taxes', shipping, taxed, m.docTaxes, hstored, ?_, ?_⟩
  · rw [hlines]
    exact computable_again hcomputable hd.taxed_eq
  · rw [hlines]
    exact hagain
  · conv_lhs => rw [← putLines_self (putLines lines (taxed.map Prod.fst)), hlines]

theorem lineTotal_totalled (l : MoneyLine) (c : String) : (l.totalled c).lineTotal = .number ((l.totalled c).lineAmount c) := by
  have hwhole : roundMoney (l.lineAmount c) c = l.lineAmount c := roundMoney_of_isWhole (isWhole_lineAmount l c)
  show NumberInput.number (l.lineAmount c) = .number (roundMoney (l.lineAmount c) c)
  rw [hwhole]

/-- A line with its amount as its total keeps it. -/
theorem totalled_of_lineTotal {l : MoneyLine} (h : l.lineTotal = .number (l.lineAmount c)) : l.totalled c = l := by
  unfold MoneyLine.totalled
  rw [← h]

theorem holding_holding (h : MoneyHeader) (m : DerivedMoney) : (h.holding m).holding m = h.holding m := by
  unfold MoneyHeader.holding
  dsimp only
  split_ifs <;> rfl

theorem linesOf_map_some (ls : List MoneyLine) : linesOf (ls.map some) = ls := by
  rw [linesOf, List.filterMap_map]
  exact List.filterMap_some

theorem putLines_map_some {ls ls' : List MoneyLine} (hlength : ls.length = ls'.length) :
    putLines (ls.map some) ls' = ls'.map some := by
  induction ls generalizing ls' with
  | nil =>
    obtain rfl : ls' = [] := List.length_eq_zero_iff.1 hlength.symm
    rfl
  | cons l ls ih =>
    obtain ⟨l', rest, rfl⟩ := List.exists_cons_of_length_eq_add_one hlength.symm
    show some l' :: putLines (ls.map some) rest = _
    rw [ih (Nat.succ.inj hlength)]
    rfl

/-- **A document that took its money from its lines takes the same from them again.** -/
theorem moneyFromLines_again {data data' : MoneyDoc} (hdata : moneyFromLines data c = .ok data') :
    moneyFromLines data' c = .ok data' := by
  obtain ⟨⟨m, lines'⟩, hmoney, rfl⟩ := map_eq_ok.1 hdata
  obtain ⟨-, rated, given, taxes, shipping, taxed, docTaxes, -, hd, hlines'⟩ := documentMoney_eq_ok.1 hmoney
  rw [linesOf_map_some] at hd
  have hsome : lines' = (taxed.map Prod.fst).map some := by
    have hlength := (forall₂_of_mapM_eq_ok hd.taxed_eq).length_eq
    rw [List.length_map] at hlength
    rw [hlines', putLines_map_some]
    rw [List.length_map, List.length_map, hlength]
  have hkept : ∀ l r, taxLine (taxableRatio m.subtotal (m.subtotal - m.discountAmount)) c l = .ok r →
      l.lineTotal = .number (l.lineAmount c) → r.1.lineTotal = .number (r.1.lineAmount c) := by
    intro l r hr hl
    rw [lineAmount_taxLine hr]
    rcases taxLine_spec hr with hsame | ⟨ts, hts⟩
    · rw [hsame]
      exact hl
    · rw [hts]
      exact hl
  have htotals : ∀ l ∈ taxed.map Prod.fst, l.lineTotal = .number (l.lineAmount c) := by
    refine forall_taxed hd.taxed_eq hkept ?_
    intro l hl
    obtain ⟨l', -, rfl⟩ := List.mem_map.1 hl
    exact lineTotal_totalled l' c
  have hlines : (linesOf lines').map (·.totalled c) = taxed.map Prod.fst := by
    rw [hsome, linesOf_map_some]
    exact (List.map_congr_left fun l hl => totalled_of_lineTotal (htotals l hl)).trans (List.map_id' _)
  refine map_eq_ok.2 ⟨(m, lines'), ?_, ?_⟩
  · show documentMoney (data.updated m lines') (((linesOf lines').map (·.totalled c)).map some) c true none = _
    rw [hlines, ← hsome]
    exact documentMoney_again hmoney none rfl
  · show MoneyDoc.updated _ m lines' = _
    unfold MoneyDoc.updated
    rw [holding_holding]

end

/-- **Recomputing a document's money changes nothing**, neither from the document it was
    stored in nor from its lines alone. -/
theorem recomputed_same :
    (∀ (state : MoneyDoc) (lines lines' : List ListEntry) (c : String) (keep : Bool) (stored : Option MoneyDoc)
      (m : DerivedMoney), documentMoney state lines c keep stored = .ok (m, lines') →
        documentMoney (state.updated m lines') lines' c true (some (state.updated m lines')) = .ok (m, lines')) ∧
      ∀ (data data' : MoneyDoc) (c : String), moneyFromLines data c = .ok data' → moneyFromLines data' c = .ok data' := by
  refine ⟨fun state lines lines' c keep stored m hmoney => ?_, fun data data' c => moneyFromLines_again⟩
  exact documentMoney_again hmoney _ (storedGivesRate_self (state.updated m lines'))

/-- An invoice of two lines, one with a tax and one compound on it, less a tenth, with a tax
    on the whole. -/
def taxedInvoice : MoneyDoc where
  header :=
    { discount := .number 10
      discountType := some "percentage"
      docTaxes := [.tax { code := "LEVY", rate := 3 }]
      shipping := .number 5 }
  lineItems :=
    [some { quantity := .number 3
            unitPrice := .number (999 / 100)
            taxes := [.tax { code := "SURTAX", rate := 2, order := 2, isCompound := true }, .tax { code := "VAT", rate := 7 }] },
      none, some { lineTotal := .number (4005 / 1000), taxRate := .number 5 }]

/-- Its money. -/
def taxedInvoiceMoney : DerivedMoney where
  subtotal := 3398 / 100
  discountAmount := 340 / 100
  tax := 357 / 100
  total := 3915 / 100
  docTaxes := [{ code := "LEVY", rate := 3, amount := 92 / 100 }]

/-- Its lines with their taxes. -/
def taxedInvoiceLines : List ListEntry :=
  [some { quantity := .number 3
          unitPrice := .number (999 / 100)
          taxes := [.tax { code := "VAT", rate := 7, amount := 189 / 100 },
            .tax { code := "SURTAX", rate := 2, order := 2, isCompound := true, amount := 58 / 100 }] },
    none, some { lineTotal := .number (4005 / 1000), taxRate := .number 5 }]

theorem taxedInvoice_same :
    documentMoney (taxedInvoice.updated taxedInvoiceMoney taxedInvoiceLines) taxedInvoiceLines "USD" true
        (some (taxedInvoice.updated taxedInvoiceMoney taxedInvoiceLines)) = .ok (taxedInvoiceMoney, taxedInvoiceLines) ∧
      ∃ data, moneyFromLines taxedInvoice "USD" = .ok data ∧ moneyFromLines data "USD" = .ok data := by
  obtain ⟨data, hdata⟩ : Succeeds (moneyFromLines taxedInvoice "USD") := by decide +kernel
  refine ⟨?_, data, hdata, recomputed_same.2 taxedInvoice data "USD" hdata⟩
  exact recomputed_same.1 taxedInvoice taxedInvoice.lineItems taxedInvoiceLines "USD" false none taxedInvoiceMoney
    (by decide +kernel)

/-! ## The discount -/

/-- A document's discount discounts, within its subtotal, and its total adds up. -/
structure Discounted (h : MoneyHeader) (c : String) (m : DerivedMoney) : Prop where
  zero : h.discount.orZero = .ok 0 → m.discountAmount = 0
  nonneg : 0 ≤ m.discountAmount
  le : m.discountAmount ≤ max 0 m.subtotal
  whole : IsWhole c m.discountAmount
  total : ∀ shipping, h.shipping.orZero = .ok shipping →
    m.total = m.subtotal - m.discountAmount + m.tax + roundMoney shipping c

section
variable {h : MoneyHeader} {lines ls : List MoneyLine} {c : String} {keep rated : Bool} {m : DerivedMoney}
  {given subtotal : ℚ}

theorem isWhole_sum_lineAmount (lines : List MoneyLine) (c : String) : IsWhole c (lines.map (·.lineAmount c)).sum := by
  refine IsWhole.sum fun v hv => ?_
  obtain ⟨l, -, rfl⟩ := List.mem_map.1 hv
  exact isWhole_lineAmount l c

theorem subtotalOf_eq (lines : List MoneyLine) (c : String) : subtotalOf lines c = (lines.map (·.lineAmount c)).sum :=
  roundMoney_of_isWhole (isWhole_sum_lineAmount lines c)

/-- What a header discount comes to on a subtotal, before it is rounded. -/
theorem headerDiscount_bounds (hsubtotal : IsWhole c subtotal) (hnn : 0 ≤ subtotal) :
    0 ≤ headerDiscount h given subtotal c ∧ headerDiscount h given subtotal c ≤ subtotal := by
  unfold headerDiscount
  dsimp only
  constructor
  · exact roundMoney_nonneg c (le_min (le_max_right _ _) hnn)
  · refine (roundMoney_mono c (min_le_right _ _)).trans_eq ?_
    exact roundMoney_of_isWhole hsubtotal

/-- On a subtotal below nothing the discount is the subtotal, whatever it is. -/
theorem headerDiscount_of_neg (hsubtotal : IsWhole c subtotal) (hneg : subtotal < 0) :
    headerDiscount h given subtotal c = subtotal := by
  unfold headerDiscount
  dsimp only
  rw [min_eq_right (hneg.le.trans (le_max_right _ _)), roundMoney_of_isWhole hsubtotal]

theorem headerDiscount_zero (hnn : 0 ≤ subtotal) : headerDiscount h 0 subtotal c = 0 := by
  unfold headerDiscount
  simp [hnn]

/-- **A discount discounts within bounds exactly where the lines do not come to less than
    nothing.** -/
theorem discount_within_iff (h : MoneyHeader) (lines ls : List MoneyLine) (c : String) (keep rated : Bool)
    (m : DerivedMoney) (hmoney : derivedMoney h lines c keep rated = .ok (m, ls)) :
    Discounted h c m ↔ 0 ≤ (lines.map (·.lineAmount c)).sum := by
  obtain ⟨given, taxes, shipping, taxed, docTaxes, hd, -⟩ := derivedMoney_eq_ok.1 hmoney
  have hsubtotal : m.subtotal = (lines.map (·.lineAmount c)).sum := by rw [hd.subtotal, subtotalOf_eq]
  have hwhole : IsWhole c m.subtotal := by
    rw [hsubtotal]
    exact isWhole_sum_lineAmount lines c
  have hdiscount : IsWhole c m.discountAmount := by
    rw [hd.discountAmount]
    exact isWhole_roundMoney _ c
  rw [← hsubtotal]
  constructor
  · intro hdiscounted
    by_contra hneg
    rw [not_le] at hneg
    have hall : m.discountAmount = m.subtotal := by rw [hd.discountAmount, headerDiscount_of_neg hwhole hneg]
    have hnn := hdiscounted.nonneg
    linarith
  · intro hnn
    obtain ⟨hlow, hhigh⟩ :
        0 ≤ headerDiscount h given m.subtotal c ∧ headerDiscount h given m.subtotal c ≤ m.subtotal :=
      headerDiscount_bounds hwhole hnn
    rw [← hd.discountAmount] at hlow hhigh
    refine ⟨?_, hlow, hhigh.trans (le_max_right 0 m.subtotal), hdiscount, ?_⟩
    · intro hzero
      obtain rfl : given = 0 := Except.ok.inj (hd.given_eq.symm.trans hzero)
      rw [hd.discountAmount, headerDiscount_zero hnn]
    · intro shipping' hshipping
      obtain rfl : shipping = shipping' := Except.ok.inj (hd.shipping_eq.symm.trans hshipping)
      have htax : IsWhole c m.tax := by
        rw [hd.tax]
        exact isWhole_roundMoney taxes c
      rw [hd.total]
      exact roundMoney_of_isWhole (((hwhole.sub hdiscount).add htax).add (isWhole_roundMoney shipping c))

end

/-- A sale of 100 and goods taken back at 150. -/
def returnedGoods : List MoneyLine := [{ lineTotal := .number 100 }, { lineTotal := .number (-150) }]

/-- A sale of 100 less 12.50. -/
theorem sale_discounted :
    ∃ m ls, derivedMoney { discount := .number (25 / 2) } [{ lineTotal := .number 100 }] "USD" true false = .ok (m, ls) ∧
      Discounted { discount := .number (25 / 2) } "USD" m := by
  obtain ⟨⟨m, ls⟩, hmoney⟩ :
      Succeeds (derivedMoney { discount := .number (25 / 2) } [{ lineTotal := .number 100 }] "USD" true false) := by
    decide +kernel
  exact ⟨m, ls, hmoney, (discount_within_iff _ _ ls "USD" true false m hmoney).2 (by decide +kernel)⟩

/-- With no discount, one of -50 takes all that is owed back off a document whose lines come
    to -50. -/
theorem returnedGoods_discounted :
    ¬ ∀ (h : MoneyHeader) (lines ls : List MoneyLine) (c : String) (keep rated : Bool) (m : DerivedMoney),
      derivedMoney h lines c keep rated = .ok (m, ls) → Discounted h c m := by
  intro hall
  have hmoney : derivedMoney {} returnedGoods "USD" true false = .ok (⟨-50, -50, 0, 0, []⟩, returnedGoods) := by
    decide +kernel
  have hzero := (hall _ _ _ _ _ _ _ hmoney).zero rfl
  revert hzero
  decide +kernel

end Celerp
