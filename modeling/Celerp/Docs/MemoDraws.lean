/-
  Goods on a memo invoiced in parts (`celerp_docs/doc_money.py`, `celerp_docs/routes.py`,
  `celerp_docs/doc_projections.py`).

  A draw puts units of a memo's lines on an invoice (`drawBill`) and is recorded on the memo
  as a take; lines of it may come back, and a released take counts no more
  (`linesInvoiced`, `linesReturned`).

  * `unreturned_linesReturned`: a return only takes lines away from those unreturned;
  * `unreturned_step`: what a draw or a return does to the unreturned take lines of a memo
    line.
-/
import Celerp.Docs.Document
import Celerp.Docs.LineMoney
import Celerp.Lib.Grouping
import Celerp.Lib.Runs

namespace Celerp

open Grouping Outcome

/-! ## The memo -/

/-- A line of a memo. -/
structure MemoLine extends MoneyLine where
  lineId : String
  deriving DecidableEq, Repr

/-- A memo line's units on an invoice (`MemoTakeLine`). -/
structure TakeLine where
  invoiceLineId : String
  memoLineId : String
  quantity : ℚ
  memoAmount : ℚ
  memoLineAmount : ℚ
  returned : Bool := false
  deriving DecidableEq, Repr

/-- What one draw put on an invoice (`MemoTake`). -/
structure Take where
  drawId : Option String
  invoiceId : String
  docNumber : Option String := none
  lines : List TakeLine
  shipping : ℚ := 0
  discount : ℚ := 0
  tax : ℚ := 0
  released : Bool := false
  deriving DecidableEq, Repr

/-- A memo. No two of its lines have one id. -/
structure Memo where
  currency : String
  status : DocStatus
  header : MoneyHeader := {}
  lines : List MemoLine
  amountPaid : ℚ := 0
  convertedTo : Option String := none
  invoicedOn : List Take := []
  nodup_ids : (lines.map (·.lineId)).Nodup := by decide

/-- `MEMO_DRAW_STATUSES`: goods out on a memo in one of these can be invoiced. -/
def MEMO_DRAW_STATUSES : List DocStatus :=
  [.sent, .final, .partPaid, .received, .partReceived, .partReturned, .paid]

/-! ## Fixed amounts -/

/-- `_has_rate`: the tax comes from a rate. -/
def hasRate (h : MoneyHeader) (lines : List MemoLine) : Except MoneyError Bool := do
  let rate ← h.taxRate.orZero
  if h.docTaxes ≠ [] ∨ rate ≠ 0 then pure true
  else lines.anyM fun l => l.lineTaxDefinition.map fun d => d.1 ≠ [] || d.2 ≠ 0

/-- `unrated_tax`: a tax amount that nothing gives a rate. -/
def unratedTax (h : MoneyHeader) (lines : List MemoLine) : Except MoneyError ℚ := do
  if ← hasRate h lines then pure 0 else h.tax.orZero

/-- `fixed_discount`: a header discount that is an amount. -/
def fixedDiscount (h : MoneyHeader) : Except MoneyError ℚ :=
  if h.discountType = some "percentage" then .ok 0 else h.discount.orZero.map (max 0)

/-! ## Takes -/

/-- The takes that still count, each with its lines not yet back on the memo. -/
def countedTakes (takes : List Take) : List Take :=
  (takes.filter fun t => !t.released).map fun t => { t with lines := t.lines.filter fun ln => !ln.returned }

/-- The lines of takes that are of one memo line. -/
def takeLinesOf (takes : List Take) (lineId : String) : List TakeLine :=
  (takes.flatMap (·.lines)).filter fun ln => ln.memoLineId = lineId

/-- The units of take lines. -/
def drawnQuantity (takeLines : List TakeLine) : ℚ := (takeLines.map (·.quantity)).sum

/-- The amount of take lines. -/
def drawnAmount (takeLines : List TakeLine) : ℚ := (takeLines.map (·.memoAmount)).sum

/-- `drawn_line_money`: what `n` units of a memo line bill, beside its unreturned take
    lines. -/
def drawnLineMoney (l : MemoLine) (n : ℚ) (takeLines : List TakeLine) (currency : String) : Except MoneyError ℚ :=
  let amount := l.lineAmount currency
  l.quantity.orZero.map fun quantity =>
    -- the draw that finishes the line takes what the others left of it
    if drawnQuantity takeLines + n = quantity ∧ ∀ ln ∈ takeLines, ln.memoLineAmount = amount then
      amount - drawnAmount takeLines
    else if quantity = 0 then 0
    else roundMoney (amount * n / quantity) currency

namespace Memo
variable (m : Memo)

/-- `memo_draws`: a memo converted before draws existed holds its fixed amounts in one take
    with no lines. -/
def memoDraws : Except MoneyError (List Take) :=
  match if m.status = .converted then m.convertedTo else none with
  | some invoiceId => do
    let shipping ← m.header.shipping.orZero
    let discount ← fixedDiscount m.header
    let tax ← unratedTax m.header m.lines
    pure [{ drawId := none, invoiceId := invoiceId, lines := [], shipping := shipping, discount := discount, tax := tax }]
  | none => .ok (countedTakes m.invoicedOn)

/-- The unreturned take lines of a memo line. -/
def unreturned (l : MemoLine) : List TakeLine := takeLinesOf (countedTakes m.invoicedOn) l.lineId

/-- What `memo_fixed_amounts` reports. -/
structure FixedAmounts where
  shipping : ℚ
  discount : ℚ
  tax : ℚ
  takes : List Take
  /-- what is still on the memo, where a draw can come from it -/
  stillOnMemo : Option ℚ

/-- What the units of a line that are still out would bill. -/
def stillOut (takes : List Take) (outByLine : List (String × ℚ)) (l : MemoLine) : Except MoneyError ℚ :=
  drawnLineMoney l ((outByLine.lookup l.lineId).getD 0) (takeLinesOf takes l.lineId) m.currency

/-- The shipping left, which goes whole with the first take. -/
def leftShipping (takes : List Take) : Except MoneyError ℚ :=
  if takes.any (·.shipping ≠ 0) then .ok 0 else m.header.shipping.orZero

/-- The tax with no rate left, which goes whole with the first take. -/
def leftTax (takes : List Take) : Except MoneyError ℚ :=
  if takes.any (·.tax ≠ 0) then .ok 0 else unratedTax m.header m.lines

/-- What each line would bill of what is still out, on a memo a draw can come from. -/
def goodsStillOut (takes : List Take) (outByLine : List (String × ℚ)) : Except MoneyError (Option (List ℚ)) :=
  if m.status ∈ MEMO_DRAW_STATUSES then (m.lines.mapM (m.stillOut takes outByLine)).map some else .ok none

/-- `memo_fixed_amounts`: what is left of the fixed amounts, the takes that hold some, and what
    is still on the memo. -/
def memoFixedAmounts (outByLine : List (String × ℚ)) : Except MoneyError FixedAmounts := do
  let takes ← m.memoDraws
  let shipping ← m.leftShipping takes
  let fixed ← fixedDiscount m.header
  -- a fixed discount is taken in parts
  let discount := max 0 (fixed - (takes.map (·.discount)).sum)
  let tax ← m.leftTax takes
  let goods ← m.goodsStillOut takes outByLine
  pure {
    shipping := roundMoney shipping m.currency
    discount := roundMoney discount m.currency
    tax := roundMoney tax m.currency
    takes := takes
    stillOnMemo := goods.map fun goods => roundMoney (goods.sum + shipping + tax - discount) m.currency }

end Memo

/-! ## A draw -/

/-- A draw as it is asked for (`InvoiceLinesRequest`, which names no line twice), the units each
    line has out, and the invoice and the ids its lines get there. -/
structure DrawRequest where
  lineIds : List String
  /-- the units given; a line without any is drawn whole -/
  quantities : List (String × ℚ) := []
  outByLine : List (String × ℚ)
  drawId : String
  invoiceId : String
  docNumber : Option String := none
  /-- the invoice line of a memo line -/
  newLineId : String → String := id
  /-- `Invoice all` -/
  everything : Bool := false
  nodup : lineIds.Nodup := by decide

/-- What stops a draw (`draw_problems`). -/
inductive DrawProblem where
  | memoNothingOut
  | memoIssueFirst
  | drawMemoHasPayment
  | noneSelected
  | notOnDocument (lineId : String)
  | drawLineNotShipped (lineId : String)
  | drawQuantityPositive (lineId : String)
  | drawQuantityMoreThanOut (lineId : String)
  | money (e : MoneyError)
  deriving DecidableEq, Repr

namespace Memo
variable (m : Memo) (r : DrawRequest)

/-- The units a request draws of a line. -/
def requested (lineId : String) : ℚ :=
  (r.quantities.lookup lineId).getD ((r.outByLine.lookup lineId).getD 0)

/-- The memo's line of an id. -/
def lineOf (lineId : String) : Option MemoLine := m.lines.find? fun l => l.lineId = lineId

/-- What stops a line of a draw. -/
def lineProblems (lineId : String) : List DrawProblem :=
  let out := (r.outByLine.lookup lineId).getD 0
  match m.lineOf lineId with
  | none => [.notOnDocument lineId]
  | some _ =>
    if out = 0 then [.drawLineNotShipped lineId]
    else if requested r lineId ≤ 0 then [.drawQuantityPositive lineId]
    else if out + 1 / 10 ^ 9 < requested r lineId then [.drawQuantityMoreThanOut lineId]
    else []

/-- The lines of a draw, with the units of each. -/
def picks : List (MemoLine × ℚ) := r.lineIds.filterMap fun lineId => (m.lineOf lineId).map (·, requested r lineId)

/-- `draw_problems`: what stops a draw. A memo in a status goods cannot be invoiced from stops
    the check. -/
def drawProblems : List DrawProblem :=
  if m.status ∉ MEMO_DRAW_STATUSES then [if m.status = .converted then .memoNothingOut else .memoIssueFirst]
  else (if 0 < m.amountPaid then [.drawMemoHasPayment] else [])
    ++ (if r.lineIds = [] then [if r.everything then .memoNothingOut else .noneSelected] else [])
    ++ r.lineIds.flatMap (m.lineProblems r)

/-- The take line of a line drawn. -/
def takeLine (takes : List Take) (pick : MemoLine × ℚ) : Except MoneyError TakeLine :=
  (drawnLineMoney pick.1 pick.2 (takeLinesOf takes pick.1.lineId) m.currency).map fun amount => {
    invoiceLineId := r.newLineId pick.1.lineId
    memoLineId := pick.1.lineId
    quantity := pick.2
    memoAmount := amount
    memoLineAmount := pick.1.lineAmount m.currency }

/-- `_draw_bill`: the take of a draw. -/
def drawBill : Except MoneyError Take := do
  let _ ← readDocTaxes (m.header.docTaxes ++ (m.picks r).flatMap (·.1.taxes))
  let takes ← m.memoDraws
  let takeLines ← (m.picks r).mapM (m.takeLine r takes)
  let fixed ← m.memoFixedAmounts r.outByLine
  pure {
    drawId := some r.drawId
    invoiceId := r.invoiceId
    docNumber := r.docNumber
    lines := takeLines
    shipping := fixed.shipping
    discount := min fixed.discount (drawnAmount takeLines)
    tax := fixed.tax }

/-- The take of a draw that nothing stops. -/
def draw : Except (List DrawProblem) Take :=
  match m.drawProblems r with
  | p :: ps => .error (p :: ps)
  | [] => (m.drawBill r).mapError fun e => [.money e]

/-! ## The memo's events -/

/-- `doc.lines_invoiced` -/
def linesInvoiced (take : Take) : Memo :=
  { m with invoicedOn := m.invoicedOn ++
      [{ take with released := false, lines := take.lines.map fun ln => { ln with returned := false } }] }

/-- A take line back on the memo where a return names it. -/
def markReturned (returned : List (String × String)) (drawId : Option String) (ln : TakeLine) : TakeLine :=
  { ln with returned := ln.returned || returned.any fun p => p.1 = ln.invoiceLineId ∧ some p.2 = drawId }

/-- A take with the lines a return names back on the memo, and released where it says so. -/
def markTake (returned : List (String × String)) (release : List String) (t : Take) : Take :=
  { t with
    released := t.released || release.any fun d => some d = t.drawId
    lines := t.lines.map (markReturned returned t.drawId) }

/-- `doc.lines_returned` -/
def linesReturned (returned : List (String × String)) (release : List String) : Memo :=
  { m with invoicedOn := m.invoicedOn.map (markTake returned release) }

/-- What happens to the goods on a memo. -/
inductive Event where
  | draw (r : DrawRequest)
  /-- take lines, by invoice line and draw, and the draws that count no more -/
  | back (returned : List (String × String)) (release : List String)

/-- The take lines an event puts on an invoice. -/
def drawnLines : Event → List TakeLine
  | .draw r => match m.draw r with
    | .ok take => take.lines
    | .error _ => []
  | .back _ _ => []

/-- The memo after an event. A draw that something stops leaves it as it is. -/
def step (m : Memo) : Event → Memo
  | .draw r => match m.draw r with
    | .ok take => m.linesInvoiced take
    | .error _ => m
  | .back returned release => m.linesReturned returned release

end Memo

/-! ## The unreturned lines of a memo line -/

section
variable {takes : List Take} {t take : Take} {lineId : String}

theorem countedTakes_append (ts us : List Take) : countedTakes (ts ++ us) = countedTakes ts ++ countedTakes us := by
  simp [countedTakes]

theorem takeLinesOf_append (ts us : List Take) (lineId : String) :
    takeLinesOf (ts ++ us) lineId = takeLinesOf ts lineId ++ takeLinesOf us lineId := by
  simp [takeLinesOf]

/-- The lines of one memo line that a take counts for. -/
theorem takeLinesOf_counted_singleton (t : Take) (lineId : String) :
    takeLinesOf (countedTakes [t]) lineId =
      if t.released then [] else t.lines.filter fun ln => !ln.returned ∧ ln.memoLineId = lineId := by
  cases hreleased : t.released
  · simp [takeLinesOf, countedTakes, hreleased, List.filter_filter, Bool.and_comm]
  · simp [takeLinesOf, countedTakes, hreleased]

namespace Memo

/-- A return only takes lines away from the unreturned ones of a take. -/
theorem takeLinesOf_markTake (returned : List (String × String)) (release : List String) (t : Take)
    (lineId : String) :
    (takeLinesOf (countedTakes [markTake returned release t]) lineId).Sublist (takeLinesOf (countedTakes [t]) lineId) := by
  have hlines : ∀ lines : List TakeLine,
      ((lines.map (markReturned returned t.drawId)).filter fun ln => !ln.returned ∧ ln.memoLineId = lineId).Sublist
        (lines.filter fun ln => !ln.returned ∧ ln.memoLineId = lineId) := by
    intro lines
    induction lines with
    | nil => exact .slnil
    | cons ln lines ih =>
      rw [List.map_cons, List.filter_cons, List.filter_cons]
      by_cases hback : (markReturned returned t.drawId ln).returned
      · rw [if_neg (by simp [hback])]
        split_ifs
        · exact ih.cons ln
        · exact ih
      · -- a line that stays is the one it was
        have hkeep : markReturned returned t.drawId ln = ln := by
          simp only [markReturned, Bool.or_eq_true, not_or, Bool.not_eq_true] at hback
          unfold markReturned
          rw [hback.2, Bool.or_false]
        rw [hkeep]
        split_ifs
        · exact ih.cons_cons ln
        · exact ih
  rw [takeLinesOf_counted_singleton, takeLinesOf_counted_singleton]
  cases hreleased : (markTake returned release t).released
  · have ht : t.released = false := by
      simp only [markTake, Bool.or_eq_false_iff] at hreleased
      exact hreleased.1
    rw [ht]
    exact hlines t.lines
  · exact List.nil_sublist _

variable {m : Memo} {l : MemoLine} {r : DrawRequest} {e : Event}

/-- **A return only takes lines away from those unreturned.** -/
theorem unreturned_linesReturned (m : Memo) (l : MemoLine) (returned : List (String × String)) (release : List String) :
    ((m.linesReturned returned release).unreturned l).Sublist (m.unreturned l) := by
  unfold unreturned linesReturned
  dsimp only
  induction m.invoicedOn with
  | nil => exact .slnil
  | cons t takes ih =>
    rw [List.map_cons, ← List.singleton_append, ← List.singleton_append (l := takes), countedTakes_append,
      countedTakes_append, takeLinesOf_append, takeLinesOf_append]
    exact (takeLinesOf_markTake returned release t l.lineId).append ih

/-- A draw adds its lines to those unreturned. -/
theorem unreturned_linesInvoiced (m : Memo) (l : MemoLine) {take : Take} (hnew : ∀ ln ∈ take.lines, ln.returned = false) :
    (m.linesInvoiced take).unreturned l =
      m.unreturned l ++ take.lines.filter fun ln => ln.memoLineId = l.lineId := by
  unfold unreturned linesInvoiced
  dsimp only
  have hlines : (take.lines.map fun ln => { ln with returned := false }) = take.lines := by
    conv_rhs => rw [← List.map_id take.lines]
    refine List.map_congr_left fun ln hln => ?_
    rw [← hnew ln hln]
    rfl
  rw [countedTakes_append, takeLinesOf_append, takeLinesOf_counted_singleton, hlines]
  congr 1
  refine List.filter_congr fun ln hln => ?_
  simp [hnew ln hln]

theorem lineOf_eq_some (hl : l ∈ m.lines) : m.lineOf l.lineId = some l := by
  unfold lineOf
  have hnodup := m.nodup_ids
  revert hl hnodup
  induction m.lines with
  | nil => exact fun hl => absurd hl List.not_mem_nil
  | cons l' lines ih =>
    intro hl hnodup
    rw [List.map_cons, List.nodup_cons] at hnodup
    rcases List.mem_cons.1 hl with rfl | hl
    · exact List.find?_cons_of_pos (by simp)
    · have hne : l'.lineId ≠ l.lineId := fun h => hnodup.1 (h ▸ List.mem_map_of_mem hl)
      rw [List.find?_cons_of_neg (by simpa using hne)]
      exact ih hl hnodup.2

/-- What a draw that goes through is: its lines are those chosen, each at what its units bill
    beside the unreturned lines. -/
theorem draw_eq_ok {take : Take} (h : m.draw r = .ok take) :
    m.drawProblems r = [] ∧ m.status ∈ MEMO_DRAW_STATUSES ∧
      (m.picks r).mapM (m.takeLine r (countedTakes m.invoicedOn)) = .ok take.lines := by
  unfold draw at h
  cases hproblems : m.drawProblems r with
  | cons p ps => rw [hproblems] at h; cases h
  | nil =>
    rw [hproblems] at h
    have hstatus : m.status ∈ MEMO_DRAW_STATUSES := by
      by_contra hstatus
      rw [drawProblems, if_pos hstatus] at hproblems
      cases hproblems
    refine ⟨rfl, hstatus, ?_⟩
    cases hbill : m.drawBill r with
    | error e => rw [hbill] at h; cases h
    | ok take' =>
      rw [hbill] at h
      obtain rfl : take' = take := Except.ok.inj h
      unfold drawBill at hbill
      obtain ⟨-, -, hbill⟩ := bind_eq_ok.1 hbill
      obtain ⟨takes, htakes, hbill⟩ := bind_eq_ok.1 hbill
      obtain rfl : countedTakes m.invoicedOn = takes := by
        have hconverted : m.status ≠ .converted := fun h => by rw [h] at hstatus; exact absurd hstatus (by decide)
        unfold memoDraws at htakes
        rw [if_neg hconverted] at htakes
        exact Except.ok.inj htakes
      obtain ⟨takeLines, hlines, hbill⟩ := bind_eq_ok.1 hbill
      obtain ⟨fixed, -, hbill⟩ := bind_eq_ok.1 hbill
      rw [← Except.ok.inj hbill]
      exact hlines

theorem lineId_of_lineOf {lineId : String} (h : m.lineOf lineId = some l) : l.lineId = lineId := by
  simpa using List.find?_some h

/-- No two lines of a draw are of one memo line. -/
theorem nodup_picks (m : Memo) (r : DrawRequest) : ((m.picks r).map (·.1.lineId)).Nodup := by
  unfold picks
  rw [List.map_filterMap]
  refine r.nodup.filterMap fun a b lineId ha hb => ?_
  have hid : ∀ a : String, lineId ∈ ((m.lineOf a).map (·, requested r a)).map (·.1.lineId) → lineId = a := by
    intro a ha
    rw [Option.map_map] at ha
    obtain ⟨l, hl, rfl⟩ := Option.map_eq_some_iff.1 (Option.mem_def.1 ha)
    exact lineId_of_lineOf hl
  exact (hid a ha).symm.trans (hid b hb)

/-- A line of a draw nothing stops has units to draw. -/
theorem pos_of_mem_picks {pick : MemoLine × ℚ} (hproblems : m.drawProblems r = []) (hstatus : m.status ∈ MEMO_DRAW_STATUSES)
    (hpick : pick ∈ m.picks r) : pick.1 ∈ m.lines ∧ 0 < pick.2 := by
  obtain ⟨lineId, hlineId, hpick⟩ := List.mem_filterMap.1 hpick
  obtain ⟨l, hl, rfl⟩ := Option.map_eq_some_iff.1 hpick
  rw [drawProblems, if_neg (not_not.2 hstatus)] at hproblems
  have hline := List.flatMap_eq_nil_iff.1 (List.append_eq_nil_iff.1 hproblems).2 lineId hlineId
  refine ⟨List.mem_of_find?_eq_some hl, ?_⟩
  unfold lineProblems at hline
  dsimp only at hline
  rw [hl] at hline
  dsimp only at hline
  split_ifs at hline with hout hpos
  exact not_le.1 hpos

/-- The one line a draw that goes through may take of a memo line, at what its units bill
    beside the unreturned ones. -/
structure DrawnLine (m : Memo) (l : MemoLine) (ln : TakeLine) : Prop where
  pos : 0 < ln.quantity
  returned : ln.returned = false
  memoLineId : ln.memoLineId = l.lineId
  memoLineAmount : ln.memoLineAmount = l.lineAmount m.currency
  memoAmount : drawnLineMoney l ln.quantity (m.unreturned l) m.currency = .ok ln.memoAmount

theorem takeLine_eq_ok {takes : List Take} {pick : MemoLine × ℚ} {ln : TakeLine} (h : m.takeLine r takes pick = .ok ln) :
    ln.quantity = pick.2 ∧ ln.returned = false ∧ ln.memoLineId = pick.1.lineId ∧
      ln.memoLineAmount = pick.1.lineAmount m.currency ∧
      drawnLineMoney pick.1 pick.2 (takeLinesOf takes pick.1.lineId) m.currency = .ok ln.memoAmount := by
  unfold takeLine at h
  cases hmoney : drawnLineMoney pick.1 pick.2 (takeLinesOf takes pick.1.lineId) m.currency with
  | error e => rw [hmoney] at h; cases h
  | ok amount =>
    rw [hmoney] at h
    rw [← Except.ok.inj h]
    exact ⟨rfl, rfl, rfl, rfl, rfl⟩

/-- A memo line is one where ids are. -/
theorem eq_of_lineId_eq {l' : MemoLine} (hl : l ∈ m.lines) (hl' : l' ∈ m.lines) (h : l'.lineId = l.lineId) : l' = l :=
  Option.some.inj <| by rw [← lineOf_eq_some hl', h, lineOf_eq_some hl]

theorem drawnLine_of_mem {take : Take} {ln : TakeLine} (hl : l ∈ m.lines) (h : m.draw r = .ok take) (hln : ln ∈ take.lines)
    (hid : ln.memoLineId = l.lineId) : DrawnLine m l ln := by
  obtain ⟨hproblems, hstatus, hlines⟩ := draw_eq_ok h
  obtain ⟨pick, hpick, htake⟩ := exists_of_mem_right (forall₂_of_mapM_eq_ok hlines) hln
  obtain ⟨hquantity, hreturned, hmemoLineId, hamount, hmoney⟩ := takeLine_eq_ok htake
  obtain ⟨hmem, hpos⟩ := pos_of_mem_picks hproblems hstatus hpick
  obtain rfl := eq_of_lineId_eq hl hmem (hmemoLineId.symm.trans hid)
  exact ⟨hquantity ▸ hpos, hreturned, hmemoLineId, hamount, hquantity ▸ hmoney⟩

@[simp] theorem step_lines (m : Memo) (e : Event) : (m.step e).lines = m.lines := by
  cases e with
  | draw r => unfold step; dsimp only; split <;> rfl
  | back returned release => rfl

@[simp] theorem step_currency (m : Memo) (e : Event) : (m.step e).currency = m.currency := by
  cases e with
  | draw r => unfold step; dsimp only; split <;> rfl
  | back returned release => rfl

/-- No two take lines of a draw are of one memo line. -/
theorem nodup_drawn {take : Take} (h : m.draw r = .ok take) : (take.lines.map (·.memoLineId)).Nodup := by
  obtain ⟨-, -, hlines⟩ := draw_eq_ok h
  rw [map_of_mapM_eq_ok (fun pick _ ln htake => (takeLine_eq_ok htake).2.2.1) hlines]
  exact nodup_picks m r

/-- **What an event does to the unreturned lines of a memo line**: it adds the line it draws,
    or takes some away. -/
theorem unreturned_step (hl : l ∈ m.lines) (e : Event) :
    (∃ ln, DrawnLine m l ln ∧ (m.drawnLines e).filter (·.memoLineId = l.lineId) = [ln] ∧
        (m.step e).unreturned l = m.unreturned l ++ [ln]) ∨
      (m.drawnLines e).filter (·.memoLineId = l.lineId) = [] ∧ ((m.step e).unreturned l).Sublist (m.unreturned l) := by
  cases e with
  | back returned release => exact .inr ⟨rfl, unreturned_linesReturned m l returned release⟩
  | draw r =>
    cases hdraw : m.draw r with
    | error problems =>
      refine .inr ⟨?_, ?_⟩
      · rw [drawnLines, hdraw]
        rfl
      · rw [step, hdraw]
    | ok take =>
      have hdrawn : ∀ ln ∈ take.lines, ln.returned = false := by
        intro ln hln
        obtain ⟨-, -, hlines⟩ := draw_eq_ok hdraw
        obtain ⟨pick, -, htake⟩ := exists_of_mem_right (forall₂_of_mapM_eq_ok hlines) hln
        exact (takeLine_eq_ok htake).2.1
      have hlines : m.drawnLines (.draw r) = take.lines := by rw [drawnLines, hdraw]
      have hstep : (m.step (.draw r)).unreturned l =
          m.unreturned l ++ take.lines.filter fun ln => ln.memoLineId = l.lineId := by
        rw [step, hdraw]
        exact unreturned_linesInvoiced m l hdrawn
      rw [hlines, hstep]
      rcases filter_key (nodup_drawn hdraw) l.lineId with hnone | ⟨ln, hln, hid, hone⟩
      · refine .inr ⟨hnone, ?_⟩
        rw [hnone, List.append_nil]
      · refine .inl ⟨ln, drawnLine_of_mem hl hdraw hln hid, hone, ?_⟩
        rw [hone]

end Memo

end

end Celerp
