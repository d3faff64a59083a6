/-
  What the draws of a memo line bill.

  * `memo_line_billed`: where no more than a line's quantity is ever out on invoices, the
    draws that come to the quantity bill its amount, whatever was drawn and came back before,
    and what is reported as still on the memo is what the draws leave (`stillOnMemo_eq`);
  * `draws_within_iff`: each draw bills no less than 0 and no more than what is left of the
    amount exactly when each draw that does not finish its line has a share less than half a
    minor unit above what is left: draws of small shares rounded up bill more than the line.
-/
import Celerp.Docs.MemoDraws
import Celerp.Lib.Tally
import Mathlib.Tactic.FieldSimp
import Mathlib.Tactic.Linarith

namespace Celerp

open Outcome Tally

namespace Memo
variable {m m' : Memo} {l : MemoLine} {q A n : ℚ} {ln : TakeLine} {takeLines : List TakeLine} {c : String}
  {events : List Event}

/-! ## One draw -/

/-- The draw that finishes a line takes what the others left. -/
theorem drawnLineMoney_finishing (hq : l.quantity = .number q)
    (htaken : ∀ ln ∈ takeLines, ln.memoLineAmount = l.lineAmount c) (h : drawnQuantity takeLines + n = q) :
    drawnLineMoney l n takeLines c = .ok (l.lineAmount c - drawnAmount takeLines) := by
  unfold drawnLineMoney
  dsimp only
  rw [hq]
  exact congrArg Except.ok (if_pos ⟨h, htaken⟩)

/-- Any other draw takes its share. -/
theorem drawnLineMoney_share (hq : l.quantity = .number q) (hpos : 0 < q) (h : drawnQuantity takeLines + n ≠ q) :
    drawnLineMoney l n takeLines c = .ok (roundMoney (l.lineAmount c * n / q) c) := by
  unfold drawnLineMoney
  dsimp only
  rw [hq]
  refine congrArg Except.ok ?_
  dsimp only
  rw [if_neg fun hfinish => h hfinish.1, if_neg hpos.ne']

theorem drawnQuantity_append (takeLines : List TakeLine) (ln : TakeLine) :
    drawnQuantity (takeLines ++ [ln]) = drawnQuantity takeLines + ln.quantity := by
  simp [drawnQuantity]

theorem drawnAmount_append (takeLines : List TakeLine) (ln : TakeLine) :
    drawnAmount (takeLines ++ [ln]) = drawnAmount takeLines + ln.memoAmount := by
  simp [drawnAmount]

/-! ## The unreturned lines over a run -/

/-- The unreturned take lines of a line of `q` units at `A`: each taken at that amount, and
    together at the amount where they come to the quantity. -/
structure Billed (q A : ℚ) (takeLines : List TakeLine) : Prop where
  pos : ∀ ln ∈ takeLines, 0 < ln.quantity
  taken : ∀ ln ∈ takeLines, ln.memoLineAmount = A
  billed : drawnQuantity takeLines = q → drawnAmount takeLines = A

theorem billed_nil (hpos : 0 < q) : Billed q A [] where
  pos := fun _ hln => absurd hln List.not_mem_nil
  taken := fun _ hln => absurd hln List.not_mem_nil
  billed := fun h => absurd h hpos.ne

/-- Take lines that stay of those billed are billed: they come to the quantity only where none
    went. -/
theorem Billed.sublist {kept : List TakeLine} (h : Billed q A takeLines) (hkept : kept.Sublist takeLines)
    (hwithin : drawnQuantity takeLines ≤ q) : Billed q A kept where
  pos := fun ln hln => h.pos ln (hkept.subset hln)
  taken := fun ln hln => h.taken ln (hkept.subset hln)
  billed := by
    intro hquantity
    obtain rfl : kept = takeLines := eq_of_sublist_of_sum_le hkept h.pos (hwithin.trans hquantity.ge)
    exact h.billed hquantity

/-- A draw leaves the unreturned lines billed. -/
theorem Billed.drawn (hq : l.quantity = .number q) (h : Billed q (l.lineAmount m.currency) (m.unreturned l))
    (hln : DrawnLine m l ln) : Billed q (l.lineAmount m.currency) (m.unreturned l ++ [ln]) where
  pos := List.forall_mem_append.2 ⟨h.pos, List.forall_mem_singleton.2 hln.pos⟩
  taken := List.forall_mem_append.2 ⟨h.taken, List.forall_mem_singleton.2 hln.memoLineAmount⟩
  billed := by
    intro hquantity
    rw [drawnQuantity_append] at hquantity
    have hamount := hln.memoAmount
    rw [drawnLineMoney_finishing hq h.taken hquantity] at hamount
    rw [drawnAmount_append, ← Except.ok.inj hamount, add_sub_cancel]

/-- A memo with a line of `q` units at `A`, as a run keeps it: no more than the line's quantity is
    out on invoices. -/
structure LineBilled (l : MemoLine) (q : ℚ) (currency : String) (m : Memo) : Prop where
  mem : l ∈ m.lines
  currency_eq : m.currency = currency
  within : drawnQuantity (m.unreturned l) ≤ q
  billed : Billed q (l.lineAmount currency) (m.unreturned l)

theorem unreturned_of_new (hnew : m.invoicedOn = []) (l : MemoLine) : m.unreturned l = [] := by
  rw [unreturned, hnew]
  rfl

theorem lineBilled_of_new (hnew : m.invoicedOn = []) (hl : l ∈ m.lines) (hpos : 0 < q) :
    LineBilled l q m.currency m := by
  refine ⟨hl, rfl, ?_, ?_⟩
  · rw [unreturned_of_new hnew]
    exact hpos.le
  · rw [unreturned_of_new hnew]
    exact billed_nil hpos

theorem LineBilled.step (hq : l.quantity = .number q) (e : Event) (h : LineBilled l q c m)
    (hwithin : drawnQuantity ((m.step e).unreturned l) ≤ q) : LineBilled l q c (m.step e) := by
  obtain ⟨hl, rfl, hbefore, hbilled⟩ := h
  refine ⟨by rwa [step_lines], step_currency m e, hwithin, ?_⟩
  rcases unreturned_step hl e with ⟨ln, hln, -, hstep⟩ | ⟨-, hstep⟩
  · rw [hstep]
    exact hbilled.drawn hq hln
  · exact hbilled.sublist hstep hbefore

/-- What is still on a memo is reported where a draw can come from it. -/
theorem isSome_stillOnMemo_iff {outByLine : List (String × ℚ)} {fixed : FixedAmounts}
    (h : m.memoFixedAmounts outByLine = .ok fixed) : fixed.stillOnMemo.isSome ↔ m.status ∈ MEMO_DRAW_STATUSES := by
  unfold memoFixedAmounts at h
  obtain ⟨takes, -, h⟩ := bind_eq_ok.1 h
  obtain ⟨shipping, -, h⟩ := bind_eq_ok.1 h
  obtain ⟨most, -, h⟩ := bind_eq_ok.1 h
  obtain ⟨tax, -, h⟩ := bind_eq_ok.1 h
  obtain ⟨goods, hgoods, h⟩ := bind_eq_ok.1 h
  rw [← Except.ok.inj h, Option.isSome_map]
  unfold goodsStillOut at hgoods
  split_ifs at hgoods with hstatus
  · obtain ⟨_, -, rfl⟩ := map_eq_ok.1 hgoods
    exact iff_of_true rfl hstatus
  · rw [← Except.ok.inj hgoods]
    exact iff_of_false Bool.false_ne_true hstatus

/-- What `memo_fixed_amounts` reports as still on a memo: what each line's units still out would
    bill beside its unreturned take lines, and the fixed amounts left, rounded together. -/
theorem stillOnMemo_eq {outByLine : List (String × ℚ)} {fixed : FixedAmounts} {still : ℚ}
    (h : m.memoFixedAmounts outByLine = .ok fixed) (hstill : fixed.stillOnMemo = some still) (hl : l ∈ m.lines) :
    ∃ entry others shipping tax most,
      drawnLineMoney l ((outByLine.lookup l.lineId).getD 0) (m.unreturned l) m.currency = .ok entry ∧
      (m.lines.erase l).mapM (m.stillOut (countedTakes m.invoicedOn) outByLine) = .ok others ∧
      m.leftShipping (countedTakes m.invoicedOn) = .ok shipping ∧
      m.leftTax (countedTakes m.invoicedOn) = .ok tax ∧ fixedDiscount m.header = .ok most ∧
      still = roundMoney (entry + others.sum + shipping + tax -
        max 0 (most - ((countedTakes m.invoicedOn).map (·.discount)).sum)) m.currency := by
  unfold memoFixedAmounts at h
  obtain ⟨takes, htakes, h⟩ := bind_eq_ok.1 h
  obtain ⟨shipping, hshipping, h⟩ := bind_eq_ok.1 h
  obtain ⟨most, hmost, h⟩ := bind_eq_ok.1 h
  obtain ⟨tax, htax, h⟩ := bind_eq_ok.1 h
  obtain ⟨goods, hgoods, h⟩ := bind_eq_ok.1 h
  rw [← Except.ok.inj h] at hstill
  obtain ⟨entries, rfl, rfl⟩ := Option.map_eq_some_iff.1 hstill
  unfold goodsStillOut at hgoods
  split_ifs at hgoods with hstatus
  · have hconverted : m.status ≠ .converted := fun h => by rw [h] at hstatus; exact absurd hstatus (by decide)
    unfold memoDraws at htakes
    rw [if_neg hconverted] at htakes
    obtain rfl := Except.ok.inj htakes
    obtain ⟨_, hentries, hsome⟩ := map_eq_ok.1 hgoods
    obtain rfl := Option.some.inj hsome
    obtain ⟨entry, others, hentry, hothers, hsum⟩ := mapM_erase_of_mem hentries hl
    exact ⟨entry, others, shipping, tax, most, hentry, hothers, hshipping, htax, hmost, by rw [hsum]⟩
  · cases Except.ok.inj hgoods

/-- **A memo line is billed to the minor unit.** What is still on the memo, reported where a draw
    can come from it, holds what the line's units still out would bill; with the unreturned draws
    that is the line's amount where those units are all that is left. -/
theorem memo_line_billed (hnew : m.invoicedOn = []) (hl : l ∈ m.lines) (hq : l.quantity = .number q) (hpos : 0 < q)
    (hwithin : Runs.EveryAfter step (fun m => drawnQuantity (m.unreturned l) ≤ q) m events)
    (hrun : events.foldl step m = m') :
    (drawnQuantity (m'.unreturned l) = q → drawnAmount (m'.unreturned l) = l.lineAmount m.currency) ∧
      ∀ outByLine fixed, m'.memoFixedAmounts outByLine = .ok fixed →
        (fixed.stillOnMemo.isSome ↔ m'.status ∈ MEMO_DRAW_STATUSES) ∧
        ∀ still, fixed.stillOnMemo = some still → ∃ entry others shipping tax most,
          drawnLineMoney l ((outByLine.lookup l.lineId).getD 0) (m'.unreturned l) m'.currency = .ok entry ∧
          (m'.lines.erase l).mapM (m'.stillOut (countedTakes m'.invoicedOn) outByLine) = .ok others ∧
          m'.leftShipping (countedTakes m'.invoicedOn) = .ok shipping ∧
          m'.leftTax (countedTakes m'.invoicedOn) = .ok tax ∧ fixedDiscount m'.header = .ok most ∧
          still = roundMoney (entry + others.sum + shipping + tax -
            max 0 (most - ((countedTakes m'.invoicedOn).map (·.discount)).sum)) m'.currency ∧
          (drawnQuantity (m'.unreturned l) + (outByLine.lookup l.lineId).getD 0 = q →
            entry + drawnAmount (m'.unreturned l) = l.lineAmount m.currency) := by
  have hend : LineBilled l q m.currency m' := by
    rw [← hrun]
    exact Runs.foldl_of_after (fun s e hs hwithin => hs.step hq e hwithin) (lineBilled_of_new hnew hl hpos) hwithin
  refine ⟨hend.billed.billed, ?_⟩
  intro outByLine fixed hfixed
  refine ⟨isSome_stillOnMemo_iff hfixed, ?_⟩
  intro still hstill
  obtain ⟨entry, others, shipping, tax, most, hentry, hothers, hshipping, htax, hmost, hsum⟩ :=
    stillOnMemo_eq hfixed hstill hend.mem
  refine ⟨entry, others, shipping, tax, most, hentry, hothers, hshipping, htax, hmost, hsum, ?_⟩
  intro hall
  rw [hend.currency_eq, drawnLineMoney_finishing hq hend.billed.taken hall] at hentry
  rw [← Except.ok.inj hentry, sub_add_cancel]

/-- A line of three units at 10.00. -/
def threeUnits : MemoLine := { lineTotal := .number 10, quantity := .number 3, lineId := "three" }

/-- An issued memo of one line. -/
def memoOf (l : MemoLine) : Memo where
  currency := "USD"
  status := .final
  lines := [l]
  nodup_ids := List.nodup_singleton _

/-- A draw of some of the units a line has out. -/
def drawOf (lineId drawId : String) (n out : ℚ) : DrawRequest where
  lineIds := [lineId]
  quantities := [(lineId, n)]
  outByLine := [(lineId, out)]
  drawId := drawId
  invoiceId := drawId
  nodup := List.nodup_singleton _

/-- Two units drawn one at a time, the first back, and then both that are out. -/
def drawnAgain : List Event :=
  [.draw (drawOf "three" "a" 1 3), .draw (drawOf "three" "b" 1 2), .back [("three", "a")] ["a"],
    .draw (drawOf "three" "c" 2 2)]

/-- Drawn whole, the line bills 10.00; with one unit drawn at 3.33 the two still out are reported
    at the rest. -/
theorem threeUnits_billed :
    drawnAmount ((drawnAgain.foldl step (memoOf threeUnits)).unreturned threeUnits) = 10 ∧
      ∃ fixed still,
        (((drawnAgain.take 3).foldl step (memoOf threeUnits)).memoFixedAmounts [("three", 2)] = .ok fixed) ∧
        fixed.stillOnMemo = some still ∧
        still + drawnAmount (((drawnAgain.take 3).foldl step (memoOf threeUnits)).unreturned threeUnits) = 10 := by
  have hpos : (0 : ℚ) < 3 := by norm_num
  constructor
  · have hwithin : Runs.EveryAfter step (fun m => drawnQuantity (m.unreturned threeUnits) ≤ 3) (memoOf threeUnits)
        drawnAgain := by decide +kernel
    rw [(memo_line_billed rfl List.mem_cons_self rfl hpos hwithin rfl).1 (by decide +kernel)]
    decide +kernel
  · have hwithin : Runs.EveryAfter step (fun m => drawnQuantity (m.unreturned threeUnits) ≤ 3) (memoOf threeUnits)
        (drawnAgain.take 3) := by decide +kernel
    have hreport : (((drawnAgain.take 3).foldl step (memoOf threeUnits)).memoFixedAmounts [("three", 2)]).map
        (·.stillOnMemo) = .ok (some (667 / 100)) := by decide +kernel
    obtain ⟨fixed, hfixed, hstill⟩ := map_eq_ok.1 hreport
    obtain ⟨entry, -, -, -, -, hentry, -, -, -, -, -, hbilled⟩ :=
      ((memo_line_billed rfl List.mem_cons_self rfl hpos hwithin rfl).2 [("three", 2)] fixed hfixed).2 _ hstill
    obtain rfl : entry = 667 / 100 := Except.ok.inj (hentry.symm.trans (by decide +kernel))
    refine ⟨fixed, 667 / 100, hfixed, hstill, ?_⟩
    rw [hbilled (by decide +kernel)]
    decide +kernel

/-! ## Draws within what is left -/

/-- What the unreturned draws leave of a line's amount. -/
def left (m : Memo) (l : MemoLine) : ℚ := l.lineAmount m.currency - drawnAmount (m.unreturned l)

/-- A memo with a line whose draws billed no more than its amount. -/
structure LineWithin (l : MemoLine) (q : ℚ) (currency : String) (m : Memo) : Prop
    extends LineBilled l q currency m where
  nonneg : ∀ ln ∈ m.unreturned l, 0 ≤ ln.memoAmount
  whole : ∀ ln ∈ m.unreturned l, IsWhole currency ln.memoAmount
  le_left : 0 ≤ m.left l

theorem LineWithin.isWhole_left (h : LineWithin l q c m) : IsWhole c (m.left l) := by
  have hdrawn : IsWhole c (drawnAmount (m.unreturned l)) := by
    refine IsWhole.sum fun v hv => ?_
    obtain ⟨ln, hln, rfl⟩ := List.mem_map.1 hv
    exact h.whole ln hln
  rw [left, h.currency_eq]
  exact (isWhole_lineAmount l.toMoneyLine c).sub hdrawn

/-- A draw bills within what is left when it finishes the line, or its share is less than half a
    minor unit above what is left. -/
theorem LineWithin.drawn_iff (hq : l.quantity = .number q) (hpos : 0 < q) (hA : 0 ≤ l.lineAmount c)
    (h : LineWithin l q c m) (hln : DrawnLine m l ln) :
    (0 ≤ ln.memoAmount ∧ ln.memoAmount ≤ m.left l) ↔
      (drawnQuantity (m.unreturned l) + ln.quantity ≠ q →
        l.lineAmount m.currency * ln.quantity / q < m.left l + quant m.currency / 2) := by
  have hleft := h.isWhole_left
  have hmoney := hln.memoAmount
  obtain rfl := h.currency_eq
  by_cases hfinish : drawnQuantity (m.unreturned l) + ln.quantity = q
  · rw [drawnLineMoney_finishing hq h.billed.taken hfinish] at hmoney
    rw [← Except.ok.inj hmoney]
    exact ⟨fun _ hne => absurd hfinish hne, fun _ => ⟨h.le_left, le_rfl⟩⟩
  · rw [drawnLineMoney_share hq hpos hfinish] at hmoney
    have hshare : 0 ≤ l.lineAmount m.currency * ln.quantity / q :=
      div_nonneg (mul_nonneg hA hln.pos.le) hpos.le
    rw [← Except.ok.inj hmoney, roundMoney_le_iff hshare hleft]
    exact ⟨fun hwithin _ => hwithin.2, fun hwithin => ⟨roundMoney_nonneg _ hshare, hwithin hfinish⟩⟩

theorem isWhole_drawn (h : LineWithin l q c m) (hq : l.quantity = .number q) (hpos : 0 < q) (hln : DrawnLine m l ln) :
    IsWhole c ln.memoAmount := by
  have hleft := h.isWhole_left
  have hmoney := hln.memoAmount
  obtain rfl := h.currency_eq
  by_cases hfinish : drawnQuantity (m.unreturned l) + ln.quantity = q
  · rw [drawnLineMoney_finishing hq h.billed.taken hfinish] at hmoney
    rw [← Except.ok.inj hmoney]
    exact hleft
  · rw [drawnLineMoney_share hq hpos hfinish] at hmoney
    rw [← Except.ok.inj hmoney]
    exact isWhole_roundMoney _ _

/-- What holds of the lines of an event that are of one memo line, of which there is one. -/
theorem forall_drawn_iff {e : Event} {P : TakeLine → Prop}
    (h : (m.drawnLines e).filter (·.memoLineId = l.lineId) = [ln]) :
    (∀ ln ∈ m.drawnLines e, ln.memoLineId = l.lineId → P ln) ↔ P ln := by
  rw [← List.forall_mem_singleton (p := P), ← h]
  simp [List.mem_filter]

/-- An event that bills a line within what is left of it keeps its draws within its amount. -/
theorem LineWithin.step (hq : l.quantity = .number q) (hpos : 0 < q) {e : Event} (h : LineWithin l q c m)
    (hwithin : drawnQuantity ((m.step e).unreturned l) ≤ q)
    (hdrawn : ∀ ln ∈ m.drawnLines e, ln.memoLineId = l.lineId → 0 ≤ ln.memoAmount ∧ ln.memoAmount ≤ m.left l) :
    LineWithin l q c (m.step e) := by
  have hbilled := h.toLineBilled.step hq e hwithin
  rcases unreturned_step h.mem e with ⟨ln, hln, hone, hstep⟩ | ⟨-, hstep⟩
  · rw [forall_drawn_iff hone] at hdrawn
    refine ⟨hbilled, ?_, ?_, ?_⟩
    · rw [hstep]
      exact List.forall_mem_append.2 ⟨h.nonneg, List.forall_mem_singleton.2 hdrawn.1⟩
    · rw [hstep]
      exact List.forall_mem_append.2 ⟨h.whole, List.forall_mem_singleton.2 (isWhole_drawn h hq hpos hln)⟩
    · have hle := hdrawn.2
      rw [left] at hle
      rw [left, hstep, drawnAmount_append, step_currency]
      linarith
  · refine ⟨hbilled, fun ln hln => h.nonneg ln (hstep.subset hln), fun ln hln => h.whole ln (hstep.subset hln), ?_⟩
    have hle : drawnAmount ((m.step e).unreturned l) ≤ drawnAmount (m.unreturned l) :=
      sum_le_of_sublist hstep h.nonneg
    have hleft := h.le_left
    rw [left] at hleft
    rw [left, step_currency]
    linarith

/-- **Draws bill within what is left of their line exactly when those that do not finish it have
    a share less than half a minor unit above it.** -/
theorem draws_within_iff (hnew : m.invoicedOn = []) (hl : l ∈ m.lines) (hq : l.quantity = .number q) (hpos : 0 < q)
    (hA : 0 ≤ l.lineAmount m.currency)
    (hwithin : Runs.EveryAfter step (fun m => drawnQuantity (m.unreturned l) ≤ q) m events) :
    Runs.EveryStep step (fun m e => ∀ ln ∈ m.drawnLines e, ln.memoLineId = l.lineId →
        0 ≤ ln.memoAmount ∧ ln.memoAmount ≤ m.left l) m events ↔
      Runs.EveryStep step (fun m e => ∀ ln ∈ m.drawnLines e, ln.memoLineId = l.lineId →
        drawnQuantity (m.unreturned l) + ln.quantity ≠ q →
          l.lineAmount m.currency * ln.quantity / q < m.left l + quant m.currency / 2) m events := by
  have hstart : LineWithin l q m.currency m := by
    have hnone := unreturned_of_new hnew l
    refine ⟨lineBilled_of_new hnew hl hpos, ?_, ?_, ?_⟩
    · rw [hnone]
      exact fun _ hln => absurd hln List.not_mem_nil
    · rw [hnone]
      exact fun _ hln => absurd hln List.not_mem_nil
    · rw [left, hnone]
      simpa [drawnAmount] using hA
  refine Runs.everyStep_congr (I := LineWithin l q m.currency) ?_ ?_ hstart hwithin
  · intro s e hs _
    rcases unreturned_step hs.mem e with ⟨ln, hln, hone, -⟩ | ⟨hnone, -⟩
    · rw [forall_drawn_iff hone, forall_drawn_iff hone]
      exact hs.drawn_iff hq hpos hA hln
    · have hnot : ∀ ln ∈ s.drawnLines e, ln.memoLineId ≠ l.lineId := by
        simpa using List.filter_eq_nil_iff.1 hnone
      exact ⟨fun _ ln hln hid => absurd hid (hnot ln hln), fun _ ln hln hid => absurd hid (hnot ln hln)⟩
  · intro s e hs hwithin hdrawn
    exact hs.step hq hpos hwithin hdrawn

/-- A line of four units at 0.02, drawn one unit at a time. -/
def fourUnits : MemoLine := { lineTotal := .number (2 / 100), quantity := .number 4, lineId := "four" }

def oneByOne : List Event :=
  [.draw (drawOf "four" "a" 1 4), .draw (drawOf "four" "b" 1 3), .draw (drawOf "four" "c" 1 2),
    .draw (drawOf "four" "d" 1 1)]

/-- The first two draws of 0.005 round up to the whole amount, the third bills more than is left,
    and the last takes 0.01 back. -/
theorem fourUnits_overdrawn :
    fourUnits ∈ (memoOf fourUnits).lines ∧
      Runs.EveryAfter step (fun m => drawnQuantity (m.unreturned fourUnits) ≤ 4) (memoOf fourUnits) oneByOne ∧
      0 ≤ fourUnits.lineAmount (memoOf fourUnits).currency ∧
      ¬Runs.EveryStep step (fun m e => ∀ ln ∈ m.drawnLines e, ln.memoLineId = fourUnits.lineId →
        0 ≤ ln.memoAmount ∧ ln.memoAmount ≤ m.left fourUnits) (memoOf fourUnits) oneByOne ∧
      ((oneByOne.foldl step (memoOf fourUnits)).unreturned fourUnits).map (·.memoAmount) =
        [1 / 100, 1 / 100, 1 / 100, -1 / 100] := by
  decide +kernel

theorem threeUnits_within :
    Runs.EveryStep step (fun m e => ∀ ln ∈ m.drawnLines e, ln.memoLineId = threeUnits.lineId →
      0 ≤ ln.memoAmount ∧ ln.memoAmount ≤ m.left threeUnits) (memoOf threeUnits) drawnAgain := by
  have hwithin : Runs.EveryAfter step (fun m => drawnQuantity (m.unreturned threeUnits) ≤ 3) (memoOf threeUnits)
      drawnAgain := by decide +kernel
  have hpos : (0 : ℚ) < 3 := by norm_num
  exact (draws_within_iff rfl List.mem_cons_self rfl hpos (by decide +kernel) hwithin).2 (by decide +kernel)

end Memo

end Celerp
