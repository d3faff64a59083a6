/-
  The totals of a list (`celerp_docs/doc_projections.py`, `celerp_docs/doc_money.py`).

  A `list.created` or `list.updated` is written with the totals it gives the list
  (`withListTotals`), worked out from the list it will give (`listFields`), and the list
  takes them over (`applyList`).

  So what a list holds is what the document rule gives it, at every point of a run of such
  events (`list_totals_held`).
-/
import Celerp.Docs.LineMoney

namespace Celerp

open Outcome

/-! ## Lists -/

/-- An entry of a list's lines; one that is no line is kept as it is. -/
abbrev ListEntry := Option MoneyLine

/-- `LIST_TOTAL_FIELDS` -/
structure ListTotals where
  subtotal : ℚ
  discountAmount : ℚ
  taxAmount : ℚ
  total : ℚ
  deriving DecidableEq, Repr

/-- A list's state: its money and what it is derived from. -/
structure ListState where
  currency : Option String := none
  status : Option String := none
  lineItems : Option (List ListEntry) := none
  discount : NumberInput := .absent
  discountType : Option String := none
  tax : NumberInput := .absent
  subtotal : Option ℚ := none
  discountAmount : Option ℚ := none
  taxAmount : Option ℚ := none
  total : Option ℚ := none
  deriving DecidableEq, Repr

/-- A field of a list with a value. -/
inductive ListField where
  | currency (v : Option String)
  | status (v : Option String)
  | lineItems (v : Option (List ListEntry))
  | discount (v : NumberInput)
  | discountType (v : Option String)
  | tax (v : NumberInput)
  | subtotal (v : Option ℚ)
  | discountAmount (v : Option ℚ)
  | taxAmount (v : Option ℚ)
  | total (v : Option ℚ)
  /-- a field no money is read from -/
  | other (name : String)
  deriving DecidableEq, Repr

/-- An event's data: the fields of a list as they are, or those that change with their new
    values, and beside them its lines where these change of themselves. -/
inductive ListEvent where
  | created (fields : List ListField) (totals : Option ListTotals)
  | updated (fieldsChanged : List ListField) (lineItems : Option (List ListEntry)) (totals : Option ListTotals)
  deriving DecidableEq, Repr

namespace ListState
variable (s : ListState)

/-- `state[field] = value` -/
def put : ListField → ListState
  | .currency v => { s with currency := v }
  | .status v => { s with status := v }
  | .lineItems v => { s with lineItems := v }
  | .discount v => { s with discount := v }
  | .discountType v => { s with discountType := v }
  | .tax v => { s with tax := v }
  | .subtotal v => { s with subtotal := v }
  | .discountAmount v => { s with discountAmount := v }
  | .taxAmount v => { s with taxAmount := v }
  | .total v => { s with total := v }
  | .other _ => s

/-- A field changed: the currency of a list past draft is fixed. -/
def change (f : ListField) : ListState :=
  match f with
  | .currency _ => if s.currency ≠ none ∧ s.status ≠ some "draft" then s else s.put f
  | _ => s.put f

/-- The defaults of a list that is created. -/
def setDefaults : ListState :=
  { s with
    status := some (s.status.getD "draft")
    lineItems := some (s.lineItems.getD [])
    subtotal := some (s.subtotal.getD 0)
    discount := if s.discount = .absent then .number 0 else s.discount
    discountType := some (s.discountType.getD "flat")
    tax := if s.tax = .absent then .number 0 else s.tax
    total := some (s.total.getD 0) }

/-- `_list_fields`: a list with an event's fields, before its totals. -/
def listFields : ListEvent → ListState
  | .created fields _ => (fields.foldl put s).setDefaults
  | .updated fieldsChanged lineItems totals =>
    let changed := fieldsChanged.foldl change s
    match totals, lineItems with
    | some _, some lines => { changed with lineItems := some lines }
    | _, _ => changed

/-- The totals an event says. -/
def setTotals (t : ListTotals) : ListState :=
  { s with
    subtotal := some t.subtotal, discountAmount := some t.discountAmount, taxAmount := some t.taxAmount
    total := some t.total }

end ListState

/-! ## Totals -/

/-- The header a list's money is derived with: its tax is the rate. -/
def ListState.header (s : ListState) : MoneyHeader where
  discount := s.discount
  discountType := s.discountType
  taxRate := s.tax

/-- `list_money`: a list's totals by the document rule, and the lines with their taxes. -/
def listMoney (s : ListState) (lines : List MoneyLine) : Except MoneyError (ListTotals × List MoneyLine) :=
  (derivedMoney s.header lines (s.currency.getD "") true false).map fun r =>
    (⟨r.1.subtotal, r.1.discountAmount, r.1.tax, r.1.total⟩, r.2)

/-- `list_totals`: the totals the document rule gives a list as it stands. -/
def listTotals (s : ListState) : Except MoneyError ListTotals :=
  (listMoney s ((s.lineItems.getD []).filterMap id)).map Prod.fst

/-- A line with its amount. -/
def withAmount (currency : String) (l : MoneyLine) : MoneyLine :=
  match l.documentLineAmount currency with
  | some amount => { l with lineTotal := .number amount }
  | none => l

/-- Lines put back between the entries that are none. -/
def putLines : List ListEntry → List MoneyLine → List ListEntry
  | some _ :: entries, l :: ls => some l :: putLines entries ls
  | none :: entries, ls => none :: putLines entries ls
  | entries, [] => entries
  | [], _ => []

/-- `list_lines_and_totals`: the lines with their amounts and taxes, and the totals. -/
def listLinesAndTotals (s : ListState) : Except MoneyError (List ListEntry × ListTotals) :=
  let lines := (s.lineItems.getD []).map fun e => e.map (withAmount (s.currency.getD ""))
  (listMoney s (lines.filterMap id)).map fun r => (putLines lines r.2, r.1)

/-- The totals a list holds, else given ones. -/
def ListState.totalsOr (s : ListState) (t : ListTotals) : ListTotals :=
  ⟨s.subtotal.getD t.subtotal, s.discountAmount.getD t.discountAmount, s.taxAmount.getD t.taxAmount,
    s.total.getD t.total⟩

/-- An event's data with totals. -/
def ListEvent.withTotals (t : ListTotals) : ListEvent → ListEvent
  | .created fields _ => .created fields (some t)
  | .updated fieldsChanged lineItems _ => .updated fieldsChanged lineItems (some t)

def ListField.isLineItems : ListField → Bool
  | .lineItems _ => true
  | _ => false

/-- An event's data with its lines: where it names them, else beside its fields where they
    differ from the list's. -/
def ListEvent.withLines (before : Option (List ListEntry)) (lines : List ListEntry) : ListEvent → ListEvent
  | .created fields totals => .created (fields.filter (!·.isLineItems) ++ [.lineItems (some lines)]) totals
  | .updated fieldsChanged lineItems totals =>
    if fieldsChanged.any (·.isLineItems) then
      .updated (fieldsChanged.map fun f => if f.isLineItems then .lineItems (some lines) else f) lineItems totals
    else if some lines ≠ before then .updated fieldsChanged (some lines) totals
    else .updated fieldsChanged lineItems totals

/-- Whether a write to a saved list changes none of its money. -/
def keepsTotals (before : Option ListState) (after : ListState) : Except MoneyError Bool :=
  match before with
  | none => .ok false
  | some before => do
    let held ← listTotals before
    let given ← listTotals after
    pure (held = given)

/-- `with_list_totals`: the data an event is written with. -/
def withListTotals (before : Option ListState) (event : ListEvent) : Except MoneyError ListEvent := do
  let after := (before.getD {}).listFields event
  let (lines, money) ← listLinesAndTotals after
  let keeps ← keepsTotals before after
  if keeps then pure (event.withTotals ((before.getD {}).totalsOr money))
  else pure ((event.withTotals money).withLines (before.bind (·.lineItems)) lines)

/-! ## The events of a list -/

/-- `discount_from_inputs` -/
def ListState.discountFromInputs (s : ListState) (subtotal : ℚ) : Except MoneyError ℚ :=
  s.discount.orZero.map fun discount =>
    roundMoney (if s.discountType = some "percentage" then subtotal * discount / 100 else discount) (s.currency.getD "")

/-- `_legacy_list_totals`: the totals an event written before events carried them gave: the
    tax on each line before the header discount. -/
def ListState.legacyListTotals (s : ListState) : Except MoneyError ListState := do
  let currency := s.currency.getD ""
  let lines := (s.lineItems.getD []).filterMap id
  let subtotal := roundMoney (lines.map (·.lineAmount currency)).sum currency
  let discountAmount ← s.discountFromInputs subtotal
  let taxable := subtotal - discountAmount
  let taxes ← lines.mapM fun l => l.taxRate.orZero.map fun rate => l.lineAmount currency * rate / 100
  let rate ← s.tax.orZero
  let taxAmount := roundMoney (if taxes.sum ≠ 0 then taxes.sum else taxable * rate / 100) currency
  pure (s.setTotals ⟨subtotal, discountAmount, taxAmount, roundMoney (taxable + taxAmount) currency⟩)

def ListEvent.totals : ListEvent → Option ListTotals
  | .created _ totals => totals
  | .updated _ _ totals => totals

/-- The list an event gives (`_apply_list_totals`). -/
def ListState.applyList (s : ListState) (event : ListEvent) : Except MoneyError ListState :=
  match event.totals with
  | some t => .ok ((s.listFields event).setTotals t)
  | none => (s.listFields event).legacyListTotals

/-- An event written with its totals, and the list it gives. -/
def emitList (s : Option ListState) (event : ListEvent) : Except MoneyError (Option ListState) := do
  let stamped ← withListTotals s event
  let after ← (s.getD {}).applyList stamped
  pure (some after)

/-- The list after events, each written with its totals. -/
def listAfter (events : List ListEvent) : Except MoneyError (Option ListState) := events.foldlM emitList none

/-! ## What the totals are worked out from -/

/-- A list holds totals. -/
def ListState.Holds (s : ListState) (t : ListTotals) : Prop := s = s.setTotals t

/-- An event names the lines of a list only among its fields. -/
def ListEvent.Plain : ListEvent → Prop
  | .created _ _ => True
  | .updated _ lineItems _ => lineItems = none

section
variable {s : ListState} {event : ListEvent} {t t' : ListTotals} {lines : List ListEntry}

@[simp] theorem setTotals_setTotals : (s.setTotals t).setTotals t' = s.setTotals t' := rfl

theorem holds_setTotals : (s.setTotals t).Holds t := rfl

/-- The document rule does not read the totals a list holds. -/
@[simp] theorem listMoney_setTotals (ls : List MoneyLine) : listMoney (s.setTotals t) ls = listMoney s ls := rfl

@[simp] theorem listTotals_setTotals : listTotals (s.setTotals t) = listTotals s := rfl

theorem totalsOr_of_holds (h : s.Holds t) : s.totalsOr t' = t := by
  rw [ListState.Holds] at h
  rw [h]
  rfl

@[simp] theorem totals_withTotals : (event.withTotals t).totals = some t := by
  cases event <;> rfl

@[simp] theorem totals_withLines (before : Option (List ListEntry)) :
    (event.withLines before lines).totals = event.totals := by
  cases event with
  | created fields totals => rfl
  | updated fieldsChanged lineItems totals =>
    unfold ListEvent.withLines
    dsimp only
    split_ifs <;> rfl

/-- Totals do not change what an event with no lines of its own gives. -/
theorem listFields_withTotals (h : event.Plain) : s.listFields (event.withTotals t) = s.listFields event := by
  cases event with
  | created fields totals => rfl
  | updated fieldsChanged lineItems totals =>
    obtain rfl : lineItems = none := h
    cases totals <;> rfl

end

/-! ## Lines written with their totals -/

/-- A list with other lines. -/
def ListState.setLines (s : ListState) (lines : Option (List ListEntry)) : ListState := { s with lineItems := lines }

section
variable {s s' : ListState} {f : ListField} {fields : List ListField} {lines : Option (List ListEntry)}

theorem setLines_self (h : s.lineItems = lines) : s.setLines lines = s := by
  subst h
  rfl

theorem setLines_put_lines (h : f.isLineItems) : (s.put f).setLines lines = s.setLines lines := by
  cases f with
  | lineItems v => rfl
  | _ => cases h

theorem setLines_put (h : s.setLines lines = s'.setLines lines) : (s.put f).setLines lines = (s'.put f).setLines lines := by
  obtain ⟨_, _, _, _, _, _, _, _, _, _⟩ := s
  obtain ⟨_, _, _, _, _, _, _, _, _, _⟩ := s'
  simp only [ListState.setLines, ListState.mk.injEq] at h
  cases f <;> simp_all [ListState.put, ListState.setLines]

theorem setLines_change (h : s.setLines lines = s'.setLines lines) :
    (s.change f).setLines lines = (s'.change f).setLines lines := by
  have hsame : s.currency = s'.currency ∧ s.status = s'.status :=
    ⟨congrArg (·.currency) h, congrArg (·.status) h⟩
  cases f with
  | currency v =>
    simp only [ListState.change, hsame.1, hsame.2]
    split_ifs
    · exact h
    · exact setLines_put h
  | _ => exact setLines_put h

theorem change_lineItems (v : Option (List ListEntry)) : s.change (.lineItems v) = s.setLines v := rfl

/-- The lines of a list depend on no other field, and no other field on them. -/
theorem setLines_foldl_put : ∀ {fields : List ListField} {s s' : ListState}, s.setLines lines = s'.setLines lines →
    ((fields.filter (!·.isLineItems)).foldl ListState.put s).setLines lines =
      (fields.foldl ListState.put s').setLines lines
  | [], _, _, h => h
  | f :: fields, s, s', h => by
    by_cases hf : f.isLineItems
    · rw [List.filter_cons_of_neg (by simp [hf]), List.foldl_cons]
      exact setLines_foldl_put (h.trans (setLines_put_lines hf).symm)
    · rw [List.filter_cons_of_pos (by simp [hf]), List.foldl_cons, List.foldl_cons]
      exact setLines_foldl_put (setLines_put h)

theorem setLines_foldl_change {ls : List ListEntry} : ∀ {fields : List ListField} {s s' : ListState},
    s.setLines lines = s'.setLines lines →
    ((fields.map fun f => if f.isLineItems then .lineItems (some ls) else f).foldl ListState.change s).setLines lines =
      (fields.foldl ListState.change s').setLines lines
  | [], _, _, h => h
  | f :: fields, s, s', h => by
    rw [List.map_cons, List.foldl_cons, List.foldl_cons]
    refine setLines_foldl_change ?_
    split_ifs with hf
    · cases f with
      | lineItems v =>
        rw [change_lineItems, change_lineItems]
        exact h
      | _ => cases hf
    · exact setLines_change h

/-- Where the changed fields name the lines, the list has those of the last. -/
theorem lineItems_foldl_change {ls : List ListEntry} : ∀ {fields : List ListField} {s : ListState},
    s.lineItems = some ls ∨ fields.any (·.isLineItems) →
    ((fields.map fun f => if f.isLineItems then .lineItems (some ls) else f).foldl ListState.change s).lineItems = some ls
  | [], _, h => h.resolve_right (by simp)
  | f :: fields, s, h => by
    rw [List.map_cons, List.foldl_cons]
    refine lineItems_foldl_change ?_
    split_ifs with hf
    · exact .inl rfl
    · rw [List.any_cons, Bool.eq_false_iff.2 hf, Bool.false_or] at h
      refine h.imp_left fun hs => ?_
      cases f with
      | lineItems v => exact absurd rfl hf
      | currency v =>
        simp only [ListState.change]
        split_ifs <;> exact hs
      | _ => exact hs

theorem lineItems_foldl_change_of_not : ∀ {fields : List ListField} {s : ListState}, ¬fields.any (·.isLineItems) →
    (fields.foldl ListState.change s).lineItems = s.lineItems
  | [], _, _ => rfl
  | f :: fields, s, h => by
    rw [List.any_cons, Bool.or_eq_true, not_or] at h
    rw [List.foldl_cons, lineItems_foldl_change_of_not h.2]
    cases f with
    | lineItems v => exact absurd rfl h.1
    | currency v =>
      simp only [ListState.change]
      split_ifs <;> rfl
    | _ => rfl

/-- An event written with lines gives what it gave, with these lines. -/
theorem listFields_withLines {event : ListEvent} (h : event.Plain) (t : ListTotals) (ls : List ListEntry) :
    s.listFields ((event.withTotals t).withLines s.lineItems ls) = (s.listFields event).setLines (some ls) := by
  cases event with
  | created fields totals =>
    have hfields : (fields.filter (fun f => !f.isLineItems) ++ [ListField.lineItems (some ls)]).foldl ListState.put s =
        (fields.foldl ListState.put s).setLines (some ls) := by
      rw [List.foldl_append]
      exact setLines_foldl_put rfl
    show ListState.setDefaults _ = _
    rw [hfields]
    rfl
  | updated fieldsChanged lineItems totals =>
    obtain rfl : lineItems = none := h
    have hevent : s.listFields (.updated fieldsChanged none totals) = fieldsChanged.foldl ListState.change s := by
      cases totals <;> rfl
    rw [hevent]
    unfold ListEvent.withTotals ListEvent.withLines
    dsimp only
    split_ifs with hany hsame
    · have hset : ((fieldsChanged.map fun f : ListField => if f.isLineItems then .lineItems (some ls) else f).foldl
          ListState.change s).setLines (some ls) = (fieldsChanged.foldl ListState.change s).setLines (some ls) :=
        setLines_foldl_change rfl
      rw [← hset]
      exact (setLines_self (lineItems_foldl_change (.inr hany))).symm
    · rfl
    · show fieldsChanged.foldl ListState.change s = _
      refine (setLines_self ?_).symm
      rw [lineItems_foldl_change_of_not hany]
      exact (not_not.1 hsame).symm

end

/-! ## The totals a list holds -/

section
variable {s : ListState} {event : ListEvent} {t : ListTotals} {entries : List ListEntry} {ls : List MoneyLine}

theorem filterMap_putLines : ∀ {entries : List ListEntry} {ls : List MoneyLine},
    ls.length = (entries.filterMap id).length → (putLines entries ls).filterMap id = ls := by
  intro entries
  induction entries with
  | nil =>
    intro ls h
    rw [List.length_eq_zero_iff.1 h]
    rfl
  | cons e entries ih =>
    intro ls h
    cases e with
    | none =>
      rw [putLines, List.filterMap_cons]
      exact ih h
    | some l =>
      rw [List.filterMap_cons] at h
      cases ls with
      | nil => exact absurd h (Nat.succ_ne_zero _).symm
      | cons l' ls =>
        rw [putLines, List.filterMap_cons]
        exact congrArg (l' :: ·) (ih (Nat.succ.inj h))

/-- The document rule gives a list whose lines it wrote the totals it gave. -/
theorem listTotals_setLines (h : listLinesAndTotals s = .ok (entries, t)) :
    listTotals (s.setLines (some entries)) = .ok t := by
  unfold listLinesAndTotals at h
  dsimp only at h
  unfold listMoney at h
  generalize hlines : ((s.lineItems.getD []).map fun e => e.map (withAmount (s.currency.getD ""))) = lines at h
  cases hmoney : derivedMoney s.header (lines.filterMap id) (s.currency.getD "") true false with
  | error e =>
    rw [hmoney] at h
    cases h
  | ok r =>
    obtain ⟨money, ls⟩ := r
    rw [hmoney] at h
    obtain ⟨rfl, rfl⟩ := Prod.mk.inj (Except.ok.inj h)
    have hlength : ls.length = (lines.filterMap id).length := by
      have := congrArg List.length (lineAmounts_derivedMoney hmoney)
      rwa [List.length_map, List.length_map] at this
    have hagain := derivedMoney_again hmoney
    show (listMoney s ((putLines lines ls).filterMap id)).map Prod.fst = _
    rw [filterMap_putLines hlength, listMoney, hagain]
    rfl

/-- A list whose totals are those of the document rule. -/
def ListState.Totalled (s : ListState) : Prop := ∃ t, listTotals s = .ok t ∧ s.Holds t

/-- What an event written with its totals gives is totalled. -/
theorem totalled_emitList {before : Option ListState} {after : ListState} (hplain : event.Plain)
    (h : emitList before event = .ok (some after)) (hbefore : ∀ s, before = some s → s.Totalled) : after.Totalled := by
  obtain ⟨stamped, hstamped, h⟩ := bind_eq_ok.1 h
  obtain ⟨after', happlied, h⟩ := bind_eq_ok.1 h
  obtain rfl : after' = after := Option.some.inj (Except.ok.inj h)
  unfold withListTotals at hstamped
  dsimp only at hstamped
  obtain ⟨⟨lines, money⟩, hmoney, hstamped⟩ := bind_eq_ok.1 hstamped
  obtain ⟨keeps, hkeeps, hstamped⟩ := bind_eq_ok.1 hstamped
  cases keeps with
  | true =>
    cases before with
    | none => cases hkeeps
    | some s =>
      obtain ⟨held, hheld, hkeeps⟩ := bind_eq_ok.1 hkeeps
      obtain ⟨given, hgiven, hkeeps⟩ := bind_eq_ok.1 hkeeps
      obtain rfl : held = given := of_decide_eq_true (Except.ok.inj hkeeps)
      obtain ⟨t, ht, hholds⟩ := hbefore s rfl
      obtain rfl : t = held := Except.ok.inj (ht.symm.trans hheld)
      rw [if_pos rfl] at hstamped
      obtain rfl := Except.ok.inj hstamped
      rw [ListState.applyList, totals_withTotals] at happlied
      obtain rfl := Except.ok.inj happlied
      refine ⟨t, ?_, ?_⟩
      · rw [listTotals_setTotals, listFields_withTotals hplain]
        exact hgiven
      · rw [Option.getD_some, totalsOr_of_holds hholds]
        exact holds_setTotals
  | false =>
    rw [if_neg Bool.false_ne_true] at hstamped
    obtain rfl := Except.ok.inj hstamped
    rw [ListState.applyList, totals_withLines, totals_withTotals] at happlied
    obtain rfl := Except.ok.inj happlied
    have hlines : before.bind (·.lineItems) = (before.getD {}).lineItems := by
      cases before <;> rfl
    refine ⟨money, ?_, holds_setTotals⟩
    rw [listTotals_setTotals, hlines, listFields_withLines hplain]
    exact listTotals_setLines hmoney

end

/-- **What a list holds is what the document rule gives it**, after any events written with
    their totals. -/
theorem list_totals_held (events : List ListEvent) (hplain : ∀ event ∈ events, event.Plain) (s : ListState)
    (hs : listAfter events = .ok (some s)) : ∃ t, listTotals s = .ok t ∧ s.subtotal = some t.subtotal ∧
      s.discountAmount = some t.discountAmount ∧ s.taxAmount = some t.taxAmount ∧ s.total = some t.total := by
  have hrun : ∀ s', some s = some s' → s'.Totalled := by
    refine keeps_of_foldlM_eq_ok (I := fun before => ∀ s, before = some s → s.Totalled) ?_ hs ?_
    · intro event hevent before after hafter hbefore s' hs'
      subst hs'
      exact totalled_emitList (hplain event hevent) hafter hbefore
    · intro s' hs'
      cases hs'
  obtain ⟨t, ht, hholds⟩ := hrun s rfl
  rw [ListState.Holds] at hholds
  refine ⟨t, ht, ?_, ?_, ?_, ?_⟩ <;> rw [hholds] <;> rfl

/-- Three units at a price. -/
def threeUnits : MoneyLine where
  quantity := .number 3
  unitPrice := .number (999 / 100)

/-- A quotation of them, then given a discount of a tenth and a tax of 7%. -/
def quotation : List ListEvent :=
  [.created [.currency (some "USD"), .lineItems (some [some threeUnits])] none,
    .updated [.discountType (some "percentage"), .discount (.number 10), .tax (.number 7)] none none]

/-- The quotation as it then stands. -/
def quoted : ListState where
  currency := some "USD"
  status := some "draft"
  lineItems := some [some { threeUnits with lineTotal := .number (2997 / 100) }]
  discount := .number 10
  discountType := some "percentage"
  tax := .number 7
  subtotal := some (2997 / 100)
  discountAmount := some 3
  taxAmount := some (189 / 100)
  total := some (2886 / 100)

theorem quotation_plain : ∀ event ∈ quotation, event.Plain := by
  rw [quotation, List.forall_mem_cons, List.forall_mem_cons]
  exact ⟨trivial, rfl, fun event h => absurd h List.not_mem_nil⟩

theorem quoted_totalled : ∃ t, listTotals quoted = .ok t ∧ quoted.subtotal = some t.subtotal ∧
    quoted.discountAmount = some t.discountAmount ∧ quoted.taxAmount = some t.taxAmount ∧ quoted.total = some t.total :=
  list_totals_held quotation quotation_plain quoted (by decide +kernel)

/-- Lines beside the fields of a change that names none are taken over without being
    counted. -/
theorem uncounted_lines :
    ((listAfter [.created [] none, .updated [] (some [some threeUnits]) none]).toOption.join.map fun s =>
      (s.total, (listTotals s).toOption.map (·.total))) = some (some 0, some (2997 / 100)) := by
  decide +kernel

end Celerp
