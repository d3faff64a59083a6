/-
  What a bill charges (`bill_line_charges`, `_bill_debit_parts` and the balance check of
  `_bill_entries` in `celerp/services/auto_je.py`).

  The discount a bill's total implies is shared over its lines, the tax not recorded on
  one over what they cost after it.

  * `billCharges_add_up`: the shares of the discount and of the tax sum to them, no line
    costs less than nothing, and the parts a bill debits come to its total.
-/
import Celerp.Accounts.Roles
import Celerp.Docs.LineMoney
import Celerp.Money.Allocation
import Mathlib.Data.List.MinMax

namespace Celerp

open Outcome

/-! ## Bills -/

/-- A line of a bill: its money, and the amounts of the taxes recorded on it. -/
structure BillLine where
  money : MoneyLine
  taxAmounts : List NumberInput := []
  deriving DecidableEq, Repr

/-- The money fields of a bill. -/
structure Bill where
  currency : String
  lines : List BillLine
  tax : NumberInput := .absent
  shipping : NumberInput := .absent
  total : NumberInput := .absent
  deriving DecidableEq, Repr

/-- The figures of a line, in minor units: its amount, at least 0, and the tax on it. -/
structure LineFigures (currency : String) where
  gross : ℚ
  tax : ℚ
  gross_whole : IsWhole currency gross
  gross_nonneg : 0 ≤ gross
  tax_whole : IsWhole currency tax

/-- The figures of a bill, in minor units. -/
structure BillFigures (currency : String) where
  lines : List (LineFigures currency)
  tax : ℚ
  shipping : ℚ
  total : ℚ
  tax_whole : IsWhole currency tax
  shipping_whole : IsWhole currency shipping
  total_whole : IsWhole currency total

theorem IsWhole.max_zero {c : String} {v : ℚ} (hv : IsWhole c v) : IsWhole c (max v 0) := by
  rcases max_choice v 0 with h | h <;> rw [h]
  · exact hv
  · exact isWhole_zero c

/-- The figures of an amount and the tax recorded on it. -/
def LineFigures.of {currency : String} (amount tax : ℚ) (hamount : IsWhole currency amount) : LineFigures currency where
  gross := max amount 0
  tax := roundMoney tax currency
  gross_whole := hamount.max_zero
  gross_nonneg := le_max_right amount 0
  tax_whole := isWhole_roundMoney tax currency

/-- A line's figures; an amount that is no number is refused (`require_line_amount`). -/
def BillLine.figures (l : BillLine) (currency : String) : Except MoneyError (LineFigures currency) :=
  match hamount : l.money.documentLineAmount currency with
  | none => .error .notANumber
  | some amount => (l.taxAmounts.mapM NumberInput.orZero).map fun taxes =>
    .of amount taxes.sum (isWhole_documentLineAmount hamount)

/-- The tax of a bill without lines is not read. -/
def Bill.readTax (b : Bill) : Except MoneyError ℚ := if b.lines.isEmpty then .ok 0 else b.tax.orZero

/-- A bill's figures. -/
def Bill.figures (b : Bill) : Except MoneyError (BillFigures b.currency) := do
  let lines ← b.lines.mapM (·.figures b.currency)
  let tax ← b.readTax
  let shipping ← b.shipping.orZero
  let total ← b.total.orZero
  pure
    { lines := lines
      tax := roundMoney tax b.currency
      shipping := roundMoney shipping b.currency
      total := roundMoney total b.currency
      tax_whole := isWhole_roundMoney tax b.currency
      shipping_whole := isWhole_roundMoney shipping b.currency
      total_whole := isWhole_roundMoney total b.currency }

/-! ## Charges -/

/-- What a bill charged for a line: its amount, its share of the discount and the tax on it. -/
structure BillCharge where
  amount : ℚ
  discount : ℚ
  tax : ℚ
  deriving DecidableEq, Repr

/-- What a bill's entry debits: a line, by its index, or a role. -/
inductive BillPart where
  | line (index : ℕ)
  | role (r : AccountRole)
  deriving DecidableEq, Repr

/-- What a bill's entry debits for a line it charges for: its amount less its share of the
    discount. -/
def BillCharge.part (p : BillCharge × ℕ) : Option (BillPart × ℚ) :=
  if 0 < p.1.amount then some (.line p.2, p.1.amount - p.1.discount) else none

namespace BillFigures
variable {c : String} (f : BillFigures c)

def gross : List ℚ := f.lines.map (·.gross)

/-- What the lines come to. -/
def goods : ℚ := f.gross.sum

/-- The discount the bill's total implies. -/
def discount : ℚ := f.goods + f.tax + f.shipping - f.total

/-- The discount shared over the lines in proportion to their amounts. -/
def discounts : List ℚ :=
  if 0 < f.discount ∧ f.discount ≤ f.goods then allocateProRata f.discount f.gross c
  else f.gross.map fun _ => 0

/-- What each line costs after the discount. -/
def net : List ℚ := List.zipWith (· - ·) f.gross f.discounts

/-- The tax no line records. -/
def restTax : ℚ := f.tax - (f.lines.map (·.tax)).sum

/-- The tax on each line: what it records, and its share of the rest. -/
def lineTaxes : List ℚ :=
  if f.restTax ≠ 0 ∧ 0 < f.net.sum then
    List.zipWith (· + ·) (f.lines.map (·.tax)) (allocateProRata f.restTax f.net c)
  else f.lines.map (·.tax)

/-- `bill_line_charges` -/
def charges : List BillCharge :=
  (f.gross.zip (f.discounts.zip f.lineTaxes)).map fun p => ⟨p.1, p.2.1, p.2.2⟩

/-- The lines a bill's entry debits. -/
def lineParts : List (BillPart × ℚ) := f.charges.zipIdx.filterMap BillCharge.part

/-- `_bill_debit_parts`: what a bill's entry debits, in the document's currency. -/
def debitParts : List (BillPart × ℚ) :=
  f.lineParts ++ (if 0 < f.tax then [(.role .taxInput, f.tax)] else []) ++
    (if 0 < f.shipping then [(.role .landedFreight, f.shipping)] else [])

/-- The parts `_bill_entries` books: of a bill without any, its total as an expense. -/
def bookedParts : List (BillPart × ℚ) :=
  if f.debitParts = [] then [(.role .generalExpense, f.total)] else f.debitParts

end BillFigures

/-! ## The entry -/

/-- `error.bill_lines_mismatch`: the lines, tax and shipping do not come to the total. -/
inductive BillRefusal where
  | linesMismatch (total : ℚ) (currency : String)
  deriving DecidableEq, Repr

def BillPart.isLine : BillPart → Bool
  | .line _ => true
  | .role _ => false

/-- The parts one of which takes what rounding leaves: the lines, or any of a bill
    without lines. -/
def roundingTakers (parts : List (BillPart × ℚ)) : List ℕ :=
  let goods := (List.range parts.length).filter fun i => (parts[i]?).any fun p => p.1.isLine
  if goods = [] then List.range parts.length else goods

/-- `_base_debits`: the parts in the books' currency, each converted on its own; the
    largest goods line takes what that leaves of the converted total.  The source is never
    given no parts. -/
def baseDebits (parts : List (BillPart × ℚ)) (baseTotal rate : ℚ) (baseCurrency : String) : List ℚ :=
  let debits := parts.map fun p => toBase p.2 rate baseCurrency
  match (roundingTakers parts).argmax fun i => debits.getD i 0 with
  | some largest => debits.modify largest (· + (baseTotal - debits.sum))
  | none => debits

/-- What a bill's entry books: its debits by part, and the payable it credits. -/
structure BillEntry where
  debits : List (BillPart × ℚ)
  payable : ℚ
  deriving DecidableEq, Repr

/-- `_bill_entries`, at the bill's rate: none for a bill with nothing to book. -/
def billEntries {c : String} (f : BillFigures c) (rate : ℚ) (baseCurrency : String) :
    Except BillRefusal (Option BillEntry) :=
  if f.total ≤ 0 then .ok none
  else if (f.bookedParts.map Prod.snd).sum ≠ f.total then .error (.linesMismatch f.total c)
  else
    let baseTotal := toBase f.total rate baseCurrency
    let debits := baseDebits f.bookedParts baseTotal rate baseCurrency
    .ok (some ⟨(f.bookedParts.map Prod.fst).zip debits, baseTotal⟩)

/-! ## Lists taken entry by entry -/

section
variable {l m : List ℚ}

theorem sum_zipWith_sub (h : l.length = m.length) : (List.zipWith (· - ·) l m).sum = l.sum - m.sum := by
  induction l generalizing m with
  | nil =>
    cases m with
    | nil => simp
    | cons w m => simp at h
  | cons v l ih =>
    cases m with
    | nil => simp at h
    | cons w m =>
      rw [List.zipWith_cons_cons, List.sum_cons, List.sum_cons, List.sum_cons, ih (by simpa using h)]
      ring

theorem sum_zipWith_add (h : l.length = m.length) : (List.zipWith (· + ·) l m).sum = l.sum + m.sum := by
  induction l generalizing m with
  | nil =>
    cases m with
    | nil => simp
    | cons w m => simp at h
  | cons v l ih =>
    cases m with
    | nil => simp at h
    | cons w m =>
      rw [List.zipWith_cons_cons, List.sum_cons, List.sum_cons, List.sum_cons, ih (by simpa using h)]
      ring

end

/-! ## The lines of a bill -/

theorem gross_of_figures {l : BillLine} {c : String} {lf : LineFigures c} (hnn : 0 ≤ l.money.lineAmount c)
    (hread : l.figures c = .ok lf) : lf.gross = l.money.lineAmount c := by
  unfold BillLine.figures at hread
  split at hread
  · cases hread
  · next amount hamount =>
    have hvalue : l.money.lineAmount c = amount := by rw [MoneyLine.lineAmount, hamount, Option.getD_some]
    cases htaxes : l.taxAmounts.mapM NumberInput.orZero with
    | error e =>
      rw [htaxes] at hread
      cases hread
    | ok taxes =>
      rw [htaxes] at hread
      obtain rfl := Except.ok.inj hread
      rw [hvalue] at hnn ⊢
      exact max_eq_left hnn

/-- The gross amounts of a bill without negative lines are its lines' amounts. -/
theorem Bill.gross_figures {b : Bill} {f : BillFigures b.currency} (hread : b.figures = .ok f)
    (hlines : ∀ l ∈ b.lines, 0 ≤ l.money.lineAmount b.currency) :
    f.gross = b.lines.map fun l => l.money.lineAmount b.currency := by
  unfold Bill.figures at hread
  obtain ⟨lines, hread_lines, hread⟩ := bind_eq_ok.1 hread
  obtain ⟨tax, -, hread⟩ := bind_eq_ok.1 hread
  obtain ⟨shipping, -, hread⟩ := bind_eq_ok.1 hread
  obtain ⟨total, -, hread⟩ := bind_eq_ok.1 hread
  obtain rfl := Except.ok.inj hread
  exact map_of_mapM_eq_ok (fun l hl lf hlf => gross_of_figures (hlines l hl) hlf) hread_lines

/-! ## The shares of the discount -/

namespace BillFigures
variable {c : String} (f : BillFigures c)

theorem gross_spec : ∀ v ∈ f.gross, 0 ≤ v ∧ IsWhole c v := by
  intro v hv
  obtain ⟨l, -, rfl⟩ := List.mem_map.1 hv
  exact ⟨l.gross_nonneg, l.gross_whole⟩

theorem isWhole_discount : IsWhole c f.discount := by
  have hgoods : IsWhole c f.goods := IsWhole.sum fun v hv => (f.gross_spec v hv).2
  exact ((hgoods.add f.tax_whole).add f.shipping_whole).sub f.total_whole

theorem length_discounts : f.discounts.length = f.gross.length := by
  unfold discounts
  split_ifs
  · exact length_allocateProRata _ _ _
  · exact List.length_map _

/-- Each line's share of the discount lies between nothing and its amount. -/
theorem discounts_spec :
    (∀ v ∈ f.discounts, IsWhole c v) ∧ ∀ p ∈ f.gross.zip f.discounts, 0 ≤ p.2 ∧ p.2 ≤ p.1 := by
  unfold discounts
  split_ifs with hshared
  · obtain ⟨hpos, hle⟩ := hshared
    have hgoods : 0 < f.gross.sum := hpos.trans_le hle
    have hshares := proRata_of_nonneg (fun v hv => (f.gross_spec v hv).1) hgoods.ne'
      (roundMoney_nonneg c hpos.le)
    refine ⟨hshares.whole, fun p hp => ⟨?_, ?_⟩⟩
    · exact hshares.nonneg hpos.le _ (List.of_mem_zip hp).2
    · exact hshares.le_weight f.isWhole_discount hle hgoods f.gross_spec p hp
  · constructor
    · intro v hv
      obtain ⟨w, -, rfl⟩ := List.mem_map.1 hv
      exact isWhole_zero c
    · intro p hp
      obtain ⟨hgross, hzero⟩ := List.of_mem_zip hp
      obtain ⟨w, -, hw⟩ := List.mem_map.1 hzero
      rw [← hw]
      exact ⟨le_rfl, (f.gross_spec _ hgross).1⟩

theorem sum_discounts (hnn : 0 ≤ f.discount) (hle : f.discount ≤ f.goods) : f.discounts.sum = f.discount := by
  unfold discounts
  rcases hnn.eq_or_lt with hzero | hpos
  · rw [if_neg (by simp [← hzero]), ← hzero]
    simp
  · have hgoods : 0 < f.gross.sum := hpos.trans_le hle
    rw [if_pos ⟨hpos, hle⟩, sum_allocateProRata hgoods.ne', roundMoney_of_isWhole f.isWhole_discount]

/-- No line costs less than nothing, in minor units. -/
theorem net_spec : ∀ v ∈ f.net, 0 ≤ v ∧ IsWhole c v := by
  intro v hv
  rw [net, ← List.map_uncurry_zip_eq_zipWith, List.mem_map] at hv
  obtain ⟨p, hp, rfl⟩ := hv
  obtain ⟨hgross, hshare⟩ := List.of_mem_zip hp
  have hle := (f.discounts_spec.2 p hp).2
  exact ⟨sub_nonneg.2 hle, (f.gross_spec _ hgross).2.sub (f.discounts_spec.1 _ hshare)⟩

theorem length_net : f.net.length = f.lines.length := by
  rw [net, List.length_zipWith, f.length_discounts, min_self, gross, List.length_map]

/-! ## The shares of the tax -/

theorem isWhole_restTax : IsWhole c f.restTax := by
  refine f.tax_whole.sub (IsWhole.sum fun v hv => ?_)
  obtain ⟨l, -, rfl⟩ := List.mem_map.1 hv
  exact l.tax_whole

theorem length_lineTaxes : f.lineTaxes.length = f.lines.length := by
  unfold lineTaxes
  split_ifs
  · rw [List.length_zipWith, length_allocateProRata, f.length_net, List.length_map, min_self]
  · exact List.length_map _

theorem sum_lineTaxes (hnet : 0 < f.net.sum) : f.lineTaxes.sum = f.tax := by
  unfold lineTaxes
  by_cases hrest : f.restTax = 0
  · rw [if_neg fun h => h.1 hrest]
    exact (sub_eq_zero.1 hrest).symm
  · rw [if_pos ⟨hrest, hnet⟩, sum_zipWith_add (by rw [length_allocateProRata, f.length_net, List.length_map]),
      sum_allocateProRata hnet.ne', roundMoney_of_isWhole f.isWhole_restTax, restTax]
    ring

/-! ## The charges and the parts -/

theorem charges_zip_length : f.gross.length = (f.discounts.zip f.lineTaxes).length := by
  rw [List.length_zip, f.length_discounts, f.length_lineTaxes, gross, List.length_map, min_self]

theorem map_discount_charges : f.charges.map (·.discount) = f.discounts := by
  have hzip : f.charges.map (·.discount) =
      ((f.gross.zip (f.discounts.zip f.lineTaxes)).map Prod.snd).map Prod.fst := by
    rw [charges, List.map_map, List.map_map]
    rfl
  rw [hzip, List.map_snd_zip f.charges_zip_length.ge, List.map_fst_zip]
  rw [f.length_discounts, f.length_lineTaxes, gross, List.length_map]

theorem map_tax_charges : f.charges.map (·.tax) = f.lineTaxes := by
  have hzip : f.charges.map (·.tax) =
      ((f.gross.zip (f.discounts.zip f.lineTaxes)).map Prod.snd).map Prod.snd := by
    rw [charges, List.map_map, List.map_map]
    rfl
  rw [hzip, List.map_snd_zip f.charges_zip_length.ge, List.map_snd_zip]
  rw [f.length_discounts, f.length_lineTaxes, gross, List.length_map]

theorem map_net_charges : (f.charges.map fun ch => ch.amount - ch.discount) = f.net := by
  have hzip : (f.charges.map fun ch => ch.amount - ch.discount) =
      List.zipWith (fun v p => v - p.1) f.gross (f.discounts.zip f.lineTaxes) := by
    rw [charges, List.map_map, ← List.map_uncurry_zip_eq_zipWith]
    rfl
  have hshares : (f.discounts.zip f.lineTaxes).map Prod.fst = f.discounts := by
    rw [List.map_fst_zip]
    rw [f.length_discounts, f.length_lineTaxes, gross, List.length_map]
  rw [hzip, net, ← List.zipWith_map_right, hshares]

/-- What a charge is: an amount of at least 0, and a share of the discount within it. -/
theorem charges_spec : ∀ ch ∈ f.charges, 0 ≤ ch.discount ∧ ch.discount ≤ ch.amount := by
  intro ch hch
  obtain ⟨⟨v, d, t⟩, hp, rfl⟩ := List.mem_map.1 hch
  obtain ⟨i, hi⟩ := List.mem_iff_getElem?.1 hp
  obtain ⟨hgross, hrest⟩ := List.getElem?_zip_eq_some.1 hi
  obtain ⟨hshare, -⟩ := List.getElem?_zip_eq_some.1 hrest
  exact f.discounts_spec.2 (v, d) (List.mem_iff_getElem?.2 ⟨i, List.getElem?_zip_eq_some.2 ⟨hgross, hshare⟩⟩)

/-- The lines left out of the entry cost nothing. -/
theorem sum_parts_of_charges {charges : List BillCharge} (start : ℕ)
    (h : ∀ ch ∈ charges, 0 ≤ ch.discount ∧ ch.discount ≤ ch.amount) :
    (((charges.zipIdx start).filterMap BillCharge.part).map Prod.snd).sum =
      (charges.map fun ch => ch.amount - ch.discount).sum := by
  induction charges generalizing start with
  | nil => rfl
  | cons ch charges ih =>
    have hrest := ih (start + 1) fun ch' hch' => h ch' (List.mem_cons_of_mem _ hch')
    obtain ⟨hnn, hle⟩ := h ch List.mem_cons_self
    rw [List.zipIdx_cons, List.map_cons, List.sum_cons, ← hrest]
    by_cases hpos : 0 < ch.amount
    · have hpart : BillCharge.part (ch, start) = some (.line start, ch.amount - ch.discount) := if_pos hpos
      rw [List.filterMap_cons_some hpart, List.map_cons, List.sum_cons]
    · have hpart : BillCharge.part (ch, start) = none := if_neg hpos
      rw [List.filterMap_cons_none hpart]
      have hzero : ch.amount - ch.discount = 0 := by linarith
      rw [hzero, zero_add]

theorem sum_lineParts : (f.lineParts.map Prod.snd).sum = f.goods - f.discounts.sum := by
  rw [lineParts, sum_parts_of_charges 0 f.charges_spec, map_net_charges, net,
    sum_zipWith_sub f.length_discounts.symm, goods]

/-- The parts of a bill come to its total. -/
theorem sum_debitParts (htax : 0 ≤ f.tax) (hshipping : 0 ≤ f.shipping) (hnn : 0 ≤ f.discount)
    (hle : f.discount ≤ f.goods) : (f.debitParts.map Prod.snd).sum = f.total := by
  have hwhen : ∀ (r : AccountRole) (v : ℚ), 0 ≤ v →
      ((if 0 < v then [(BillPart.role r, v)] else []).map Prod.snd).sum = v := by
    intro r v hv
    rcases hv.eq_or_lt with rfl | hpos
    · simp
    · simp [hpos]
  rw [debitParts, List.map_append, List.map_append, List.sum_append, List.sum_append, hwhen _ _ htax,
    hwhen _ _ hshipping, f.sum_lineParts, f.sum_discounts hnn hle, discount]
  ring

/-- The entry of a bill whose parts come to its total is not refused. -/
theorem billEntries_not_refused (hsum : (f.debitParts.map Prod.snd).sum = f.total) (rate : ℚ) (base : String) :
    ∃ entry, billEntries f rate base = .ok entry := by
  have hbooked : (f.bookedParts.map Prod.snd).sum = f.total := by
    unfold bookedParts
    split_ifs
    · simp
    · exact hsum
  unfold billEntries
  rw [if_neg (not_not.2 hbooked)]
  split_ifs
  · exact ⟨_, rfl⟩
  · exact ⟨_, rfl⟩

end BillFigures

/-- What a bill charges its lines adds up to a discount, to its tax and to its total. -/
structure ChargesAddUp {c : String} (f : BillFigures c) (discount : ℚ) : Prop where
  discounts : (f.charges.map (·.discount)).sum = discount
  net_nonneg : ∀ ch ∈ f.charges, 0 ≤ ch.amount - ch.discount
  taxes : (∃ ch ∈ f.charges, 0 < ch.amount - ch.discount) → (f.charges.map (·.tax)).sum = f.tax
  parts : (f.debitParts.map Prod.snd).sum = f.total
  accepted : ∀ rate base, ∃ entry, billEntries f rate base = .ok entry

/-- What a bill's lines come to. -/
def Bill.linesTotal (b : Bill) : ℚ := (b.lines.map fun l => l.money.lineAmount b.currency).sum

/-- **A bill's charges add up to the bill**: where the discount its total implies lies
    between nothing and what its lines come to, the lines' shares of the discount sum to it
    and leave no line below nothing, their shares of the tax sum to it as soon as a line
    costs something, and the parts the entry debits come to the total, which is then not
    refused. -/
theorem billCharges_add_up (b : Bill) (f : BillFigures b.currency) (hread : b.figures = .ok f)
    (hlines : ∀ l ∈ b.lines, 0 ≤ l.money.lineAmount b.currency) (htax : 0 ≤ f.tax) (hshipping : 0 ≤ f.shipping)
    (hnn : 0 ≤ b.linesTotal + f.tax + f.shipping - f.total)
    (hle : b.linesTotal + f.tax + f.shipping - f.total ≤ b.linesTotal) :
    ChargesAddUp f (b.linesTotal + f.tax + f.shipping - f.total) := by
  rw [Bill.linesTotal, ← b.gross_figures hread hlines] at hnn hle ⊢
  have hsum := f.sum_debitParts htax hshipping hnn hle
  refine ⟨?_, ?_, ?_, hsum, fun rate base => f.billEntries_not_refused hsum rate base⟩
  · rw [f.map_discount_charges]
    exact f.sum_discounts hnn hle
  · intro ch hch
    exact sub_nonneg.2 (f.charges_spec ch hch).2
  · rintro ⟨ch, hch, hcosts⟩
    have hmem : ch.amount - ch.discount ∈ f.net := by
      rw [← f.map_net_charges]
      exact List.mem_map_of_mem hch
    have hnet : 0 < f.net.sum := hcosts.trans_le (List.single_le_sum (fun v hv => (f.net_spec v hv).1) _ hmem)
    rw [f.map_tax_charges, f.sum_lineTaxes hnet]

/-- Three lines of 10, 10 and nothing, a tax of 7 of which 2 are recorded on the first
    line, and freight of 5, for 31. -/
def discountedBill : Bill where
  currency := "USD"
  lines := [⟨{ lineTotal := .number 10 }, [.number 2]⟩, ⟨{ lineTotal := .number 10 }, []⟩,
    ⟨{ lineTotal := .number 0 }, []⟩]
  tax := .number 7
  shipping := .number 5
  total := .number 31

theorem discountedBill_adds_up : ∃ f, discountedBill.figures = .ok f ∧
    ChargesAddUp f (discountedBill.linesTotal + f.tax + f.shipping - f.total) := by
  obtain ⟨f, hf⟩ : Succeeds discountedBill.figures := by decide +kernel
  have hvalues : (discountedBill.figures.map fun f => (f.tax, f.shipping, f.total)) = .ok (7, 5, 31) := by
    decide +kernel
  rw [hf] at hvalues
  obtain ⟨htax, hrest⟩ := Prod.mk.inj (Except.ok.inj hvalues)
  obtain ⟨hshipping, htotal⟩ := Prod.mk.inj hrest
  have hlines : discountedBill.linesTotal = 20 := by decide +kernel
  refine ⟨f, hf, billCharges_add_up discountedBill f hf (by decide +kernel) ?_ ?_ ?_ ?_⟩
  all_goals simp only [htax, hshipping, htotal, hlines]
  all_goals norm_num

/-- A bill of freight and tax alone: its tax is not among its parts. -/
def linelessBill : Bill where
  currency := "USD"
  lines := []
  tax := .number 5
  shipping := .number 3
  total := .number 8

/-- The tax of a bill without lines is left out, and its entry refused. -/
theorem taxWithoutLines_left_out :
    ¬ ∀ (b : Bill) (f : BillFigures b.currency) (tax shipping total : ℚ), b.figures = .ok f →
      b.tax = .number tax → b.shipping = .number shipping → b.total = .number total →
      (∀ l ∈ b.lines, 0 ≤ l.money.lineAmount b.currency) → 0 ≤ tax → 0 ≤ shipping →
      0 ≤ b.linesTotal + tax + shipping - total → b.linesTotal + tax + shipping - total ≤ b.linesTotal →
      (f.debitParts.map Prod.snd).sum = f.total ∧ ∀ rate base, ∃ entry, billEntries f rate base = .ok entry := by
  intro h
  obtain ⟨f, hf⟩ : Succeeds linelessBill.figures := by decide +kernel
  have hsum := (h linelessBill f 5 3 8 hf rfl rfl rfl (by decide +kernel) (by norm_num) (by norm_num)
    (by decide +kernel) (by decide +kernel)).1
  have hvalues : (linelessBill.figures.map fun f => decide ((f.debitParts.map Prod.snd).sum = f.total)) =
      .ok false := by
    decide +kernel
  rw [hf] at hvalues
  exact of_decide_eq_false (Except.ok.inj hvalues) hsum

end Celerp
