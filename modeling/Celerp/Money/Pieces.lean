/-
  Amounts taken in pieces (`split_to_base` and `received_share` in
  `celerp/services/money.py`): each piece is the rounded amount up to its end less the
  rounded amount up to its start.

  * `amountsInPieces_telescope`: whatever the pieces, they come to the rounded whole; each stays
    within a minor unit of its exact share, and none is negative where nothing taken is.
-/
import Celerp.Lib.Telescope
import Celerp.Money

namespace Celerp

open Rounding Telescope

/-! ## The pieces -/

/-- `received_share`: the share of an amount that the units `before` to `after` of
    `whole` take. -/
def receivedShare (amount before after whole : ℚ) (currency : String) : ℚ :=
  roundMoney (amount * after / whole) currency - roundMoney (amount * before / whole) currency

/-- The loop of `split_to_base`, from what is already converted. -/
def splitFrom (rate : ℚ) (baseCurrency : String) : ℚ → ℚ → List ℚ → List ℚ
  | _, _, [] => []
  | running, before, amount :: amounts =>
    let upto := roundMoney ((running + amount) * rate) baseCurrency
    (upto - before) :: splitFrom rate baseCurrency (running + amount) upto amounts

/-- `split_to_base`: several parts of a document in the books' currency. -/
def splitToBase (amounts : List ℚ) (rate : ℚ) (baseCurrency : String) : List ℚ :=
  splitFrom rate baseCurrency 0 0 amounts

/-- Pieces of a total against the exact shares they stand for. -/
structure PiecesOf (total : ℚ) (exact : List ℚ) (currency : String) (pieces : List ℚ) : Prop where
  length_eq : pieces.length = exact.length
  sum_eq : pieces.sum = total
  near : ∀ p ∈ exact.zip pieces, |p.2 - p.1| ≤ quant currency

/-! ## Their sums and bounds -/

theorem abs_roundMoney_sub_le (v : ℚ) (c : String) : |roundMoney v c - v| ≤ quant c / 2 :=
  abs_roundTo_sub_le (quant_pos c) v

section
variable {c : String}

/-- A rounding of `f` taken step by step. -/
theorem piecesOf_steps {α : Type*} (f : α → ℚ) (c : String) (a : α) (l : List α)
    (hstart : roundMoney (f a) c = 0) :
    PiecesOf (roundMoney (f (l.getLastD a)) c) (steps f a l) c (steps (fun x => roundMoney (f x) c) a l) where
  length_eq := by rw [length_steps, length_steps]
  sum_eq := by rw [sum_steps, hstart, sub_zero]
  near p hp := by
    have hnear := near_steps (fun x => abs_roundMoney_sub_le (f x) c) a l p hp
    rwa [add_halves] at hnear

theorem splitFrom_eq_steps (rate : ℚ) (base : String) (running : ℚ) (amounts : List ℚ) :
    splitFrom rate base running (roundMoney (running * rate) base) amounts =
      steps (fun v => roundMoney (v * rate) base) running (totals running amounts) := by
  induction amounts generalizing running with
  | nil => rfl
  | cons amount amounts ih =>
    rw [splitFrom, totals, steps, ih]

theorem splitToBase_eq_steps (amounts : List ℚ) (rate : ℚ) (base : String) :
    splitToBase amounts rate base = steps (fun v => roundMoney (v * rate) base) 0 (totals 0 amounts) := by
  have hzero : roundMoney (0 * rate) base = 0 := by rw [zero_mul, roundMoney_zero]
  rw [splitToBase, ← splitFrom_eq_steps, hzero]

/-- **The parts of a document come to its total converted once.** -/
theorem piecesOf_splitToBase (amounts : List ℚ) (rate : ℚ) (base : String) :
    PiecesOf (toBase amounts.sum rate base) (amounts.map (· * rate)) base (splitToBase amounts rate base) := by
  have hexact : steps (· * rate) 0 (totals 0 amounts) = amounts.map (· * rate) :=
    steps_totals (AddMonoidHom.mulRight rate) 0 amounts
  have hlast : (totals 0 amounts).getLastD 0 = amounts.sum := by rw [getLastD_totals, zero_add]
  have hpieces := piecesOf_steps (· * rate) base 0 (totals 0 amounts) (by simp)
  rw [hexact, hlast, ← splitToBase_eq_steps] at hpieces
  exact hpieces

theorem splitToBase_nonneg {amounts : List ℚ} {rate : ℚ} (base : String) (hrate : 0 ≤ rate)
    (hamounts : ∀ v ∈ amounts, 0 ≤ v) : ∀ v ∈ splitToBase amounts rate base, 0 ≤ v := by
  rw [splitToBase_eq_steps]
  refine steps_nonneg (fun v w hvw => ?_) (isChain_totals hamounts)
  exact roundMoney_mono base (mul_le_mul_of_nonneg_right hvw hrate)

theorem map_receivedShare (amount whole : ℚ) (cuts : List ℚ) (c : String) :
    (((0 :: cuts).zip cuts).map fun p => receivedShare amount p.1 p.2 whole c) =
      steps (fun v => roundMoney (amount * v / whole) c) 0 cuts :=
  (steps_eq_map_zip (fun v => roundMoney (amount * v / whole) c) 0 cuts).symm

theorem piecesOf_receivedShare (amount : ℚ) {whole : ℚ} {cuts : List ℚ} (c : String) (hwhole : whole ≠ 0)
    (hlast : cuts.getLastD 0 = whole) :
    PiecesOf (roundMoney amount c) (((0 :: cuts).zip cuts).map fun p => amount * (p.2 - p.1) / whole) c
      (((0 :: cuts).zip cuts).map fun p => receivedShare amount p.1 p.2 whole c) := by
  have hexact : steps (fun v => amount * v / whole) 0 cuts =
      ((0 :: cuts).zip cuts).map fun p => amount * (p.2 - p.1) / whole := by
    rw [steps_eq_map_zip]
    refine List.map_congr_left fun p _ => ?_
    ring
  have hpieces := piecesOf_steps (fun v => amount * v / whole) c 0 cuts (by simp)
  rw [hexact, hlast, ← map_receivedShare, mul_div_cancel_right₀ _ hwhole] at hpieces
  exact hpieces

theorem receivedShare_nonneg {amount whole : ℚ} {cuts : List ℚ} (c : String) (hwhole : 0 < whole)
    (hcuts : List.IsChain (· ≤ ·) (0 :: cuts)) (hamount : 0 ≤ amount) :
    ∀ v ∈ ((0 :: cuts).zip cuts).map fun p => receivedShare amount p.1 p.2 whole c, 0 ≤ v := by
  rw [map_receivedShare]
  refine steps_nonneg (fun v w hvw => roundMoney_mono c ?_) hcuts
  exact div_le_div_of_nonneg_right (mul_le_mul_of_nonneg_left hvw hamount) hwhole.le

end

/-- **Amounts taken in pieces telescope**: along cut points from 0 to the whole, the
    shares of consecutive pieces come to the rounded amount, and the parts of a document
    to its total converted once; each within a minor unit of its exact share, and not
    negative where the amounts and the rate are not. -/
theorem amountsInPieces_telescope (amount whole : ℚ) (cuts : List ℚ) (c : String) (hwhole : 0 < whole)
    (hcuts : List.IsChain (· ≤ ·) (0 :: cuts)) (hlast : cuts.getLast? = some whole)
    (amounts : List ℚ) (rate : ℚ) (base : String) :
    (PiecesOf (roundMoney amount c) (((0 :: cuts).zip cuts).map fun p => amount * (p.2 - p.1) / whole) c
        (((0 :: cuts).zip cuts).map fun p => receivedShare amount p.1 p.2 whole c) ∧
      (0 ≤ amount → ∀ p ∈ (0 :: cuts).zip cuts, 0 ≤ receivedShare amount p.1 p.2 whole c)) ∧
    PiecesOf (toBase amounts.sum rate base) (amounts.map (· * rate)) base (splitToBase amounts rate base) ∧
      (0 ≤ rate → (∀ v ∈ amounts, 0 ≤ v) → ∀ v ∈ splitToBase amounts rate base, 0 ≤ v) := by
  have hend : cuts.getLastD 0 = whole := by rw [List.getLastD_eq_getLast?, hlast, Option.getD_some]
  refine ⟨⟨piecesOf_receivedShare amount c hwhole.ne' hend, ?_⟩, piecesOf_splitToBase amounts rate base,
    fun hrate hamounts => splitToBase_nonneg base hrate hamounts⟩
  intro hamount p hp
  exact receivedShare_nonneg c hwhole hcuts hamount _ (List.mem_map_of_mem hp)

/-- A dollar received in three pieces of 3 units, and a document of three lines at a rate
    of a third. -/
theorem thirds_telescope :
    (PiecesOf (roundMoney 1 "USD") (((0 :: [1, 2, 3]).zip [1, 2, 3]).map fun p => 1 * (p.2 - p.1) / 3) "USD"
        (((0 :: [1, 2, 3]).zip [1, 2, 3]).map fun p => receivedShare 1 p.1 p.2 3 "USD") ∧
      ((0 : ℚ) ≤ 1 → ∀ p ∈ ((0 : ℚ) :: [1, 2, 3]).zip [1, 2, 3], 0 ≤ receivedShare 1 p.1 p.2 3 "USD")) ∧
    PiecesOf (toBase [1, 1, 1].sum (1 / 3) "USD") ([1, 1, 1].map (· * (1 / 3))) "USD"
        (splitToBase [1, 1, 1] (1 / 3) "USD") ∧
      ((0 : ℚ) ≤ 1 / 3 → (∀ v ∈ ([1, 1, 1] : List ℚ), 0 ≤ v) →
        ∀ v ∈ splitToBase [1, 1, 1] (1 / 3) "USD", 0 ≤ v) :=
  amountsInPieces_telescope 1 3 [1, 2, 3] "USD" (by norm_num) (by decide +kernel) rfl [1, 1, 1] (1 / 3) "USD"

example : splitToBase [1, 1, 1] (1 / 3) "USD" = [33 / 100, 34 / 100, 33 / 100] := by decide +kernel

end Celerp
