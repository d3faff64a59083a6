/-
  Unit prices from typed totals (`unit_price_from_total` in
  `celerp/services/money.py`): the price of the fewest decimals whose amount at the
  quantity is the rounded total, else the price at the ceiling of a rate.

  * `unitPriceFromTotal_honours_iff`: a total is honoured exactly when, at some number of
    decimals up to the ceiling, the nearest amount that prices of so many decimals give
    rounds as the total does, and so always when the total is whole;
  * `fineTotal_not_honoured`: a total of half a cent is not.
-/
import Celerp.Money

namespace Celerp

open Rounding

/-! ## The price -/

/-- The price of a total to `d` decimals. -/
def priceAt (total qty : ℚ) (d : ℕ) : ℚ := roundTo (1 / 10 ^ d) (total / qty)

/-- A unit price brings a quantity to a total, in whole minor units. -/
def Honours (unit qty total : ℚ) (currency : String) : Prop :=
  roundMoney (unit * qty) currency = roundMoney total currency

instance (unit qty total : ℚ) (currency : String) : Decidable (Honours unit qty total currency) :=
  inferInstanceAs (Decidable (_ = _))

/-- `unit_price_from_total`: the price at the fewest decimals that honours the total, from
    the currency's to the ceiling, else the price at the ceiling. -/
def unitPriceFromTotal (total qty : ℚ) (currency : String) : ℚ :=
  if qty = 0 then 0
  else
    let lo := currencyDp currency
    let hi := rateDp currency
    match (List.range' lo (hi + 1 - lo)).find? fun d => Honours (priceAt total qty d) qty total currency with
    | some d => priceAt total qty d
    | none => priceAt total qty hi

/-- A price that honours a total, of decimals that no fewer of would do. -/
def HonoursAtFewest (unit total qty : ℚ) (currency : String) : Prop :=
  Honours unit qty total currency ∧
    ∃ d, currencyDp currency ≤ d ∧ d ≤ rateDp currency ∧ unit = priceAt total qty d ∧
      ∀ e, currencyDp currency ≤ e → e < d → ¬ Honours (priceAt total qty e) qty total currency

/-! ## What a price of so many decimals gives -/

/-- Rounding over a scale. -/
theorem roundTo_div_mul (u q v : ℚ) : roundTo u (v / q) * q = roundTo (q * u) v := by
  rw [roundTo, roundTo, div_div, mul_assoc, mul_comm u q]

/-- At `d` decimals a quantity comes to the multiple of a step of the last one that is
    nearest to the total. -/
theorem priceAt_mul (total qty : ℚ) (d : ℕ) : priceAt total qty d * qty = roundTo (qty / 10 ^ d) total := by
  rw [priceAt, roundTo_div_mul, mul_one_div]

section
variable {total qty : ℚ} {c : String}

/-- The price returned is the first that honours the total, if one does. -/
theorem unitPriceFromTotal_eq (hqty : qty ≠ 0) {d : ℕ} (hlo : currencyDp c ≤ d) (hhi : d ≤ rateDp c)
    (hd : Honours (priceAt total qty d) qty total c)
    (hfirst : ∀ e, currencyDp c ≤ e → e < d → ¬ Honours (priceAt total qty e) qty total c) :
    unitPriceFromTotal total qty c = priceAt total qty d := by
  have hfind : (List.range' (currencyDp c) (rateDp c + 1 - currencyDp c)).find?
      (fun d => Honours (priceAt total qty d) qty total c) = some d := by
    rw [List.find?_range'_eq_some, List.mem_range'_1]
    refine ⟨decide_eq_true hd, ⟨hlo, by omega⟩, fun e he hlt => ?_⟩
    simpa using hfirst e he hlt
  unfold unitPriceFromTotal
  rw [if_neg hqty]
  dsimp only
  rw [hfind]

/-- The decimals of the price returned. -/
theorem exists_unitPriceFromTotal (total : ℚ) (c : String) (hqty : qty ≠ 0) :
    ∃ d, currencyDp c ≤ d ∧ d ≤ rateDp c ∧ unitPriceFromTotal total qty c = priceAt total qty d := by
  have hceiling : currencyDp c ≤ rateDp c := Nat.le_add_right _ _
  unfold unitPriceFromTotal
  rw [if_neg hqty]
  dsimp only
  cases hfind : (List.range' (currencyDp c) (rateDp c + 1 - currencyDp c)).find?
      (fun d => Honours (priceAt total qty d) qty total c) with
  | none => exact ⟨rateDp c, hceiling, le_rfl, rfl⟩
  | some d =>
    rw [List.find?_range'_eq_some, List.mem_range'_1] at hfind
    obtain ⟨-, ⟨hlo, hhi⟩, -⟩ := hfind
    exact ⟨d, hlo, by omega, rfl⟩

theorem honoursAtFewest_iff (total : ℚ) (c : String) (hqty : qty ≠ 0) :
    HonoursAtFewest (unitPriceFromTotal total qty c) total qty c ↔
      ∃ d, currencyDp c ≤ d ∧ d ≤ rateDp c ∧ Honours (priceAt total qty d) qty total c := by
  constructor
  · rintro ⟨hhonours, -⟩
    obtain ⟨d, hlo, hhi, hprice⟩ := exists_unitPriceFromTotal total c hqty
    exact ⟨d, hlo, hhi, hprice ▸ hhonours⟩
  · intro hsome
    -- the loop stops at the least of them
    obtain ⟨hlo, hhi, hd⟩ := Nat.find_spec hsome
    have hfirst : ∀ e, currencyDp c ≤ e → e < Nat.find hsome → ¬ Honours (priceAt total qty e) qty total c := by
      intro e he hlt hhonours
      exact Nat.find_min hsome hlt ⟨he, hlt.le.trans hhi, hhonours⟩
    rw [unitPriceFromTotal_eq hqty hlo hhi hd hfirst]
    exact ⟨hd, _, hlo, hhi, rfl, hfirst⟩

/-- Within the headroom a price at the ceiling comes near enough to any whole total. -/
theorem honours_ceiling (hpos : 0 < qty) (hle : qty ≤ 10 ^ RATE_EXTRA_DP) (htotal : IsWhole c total) :
    Honours (priceAt total qty (rateDp c)) qty total c := by
  have hstep : qty / 10 ^ rateDp c ≤ quant c := by
    rw [rateDp, pow_add, quant, div_le_div_iff₀ (by positivity) (by positivity), one_mul]
    rw [mul_comm (10 ^ currencyDp c : ℚ)]
    exact mul_le_mul_of_nonneg_right hle (by positivity)
  unfold Honours
  rw [priceAt_mul, roundMoney_of_isWhole htotal]
  rcases hstep.eq_or_lt with heq | hlt
  · rw [heq]
    exact roundMoney_of_isWhole (isWhole_roundMoney total c) |>.trans (roundMoney_of_isWhole htotal)
  · have hnear := abs_roundTo_sub_le (show 0 < qty / 10 ^ rateDp c by positivity) total
    exact roundTo_of_near (quant_pos c) htotal (by linarith)

end

/-- **When a typed total is honoured**: for a quantity within the headroom, the price
    honours the total at the fewest decimals exactly when, at some number of decimals up
    to the ceiling, the multiple of the quantity's step nearest to the total rounds as the
    total does.  A total in whole minor units always is. -/
theorem unitPriceFromTotal_honours_iff (total qty : ℚ) (c : String) (hpos : 0 < qty)
    (hle : qty ≤ 10 ^ RATE_EXTRA_DP) :
    (HonoursAtFewest (unitPriceFromTotal total qty c) total qty c ↔
      ∃ d, currencyDp c ≤ d ∧ d ≤ rateDp c ∧
        roundMoney (roundTo (qty / 10 ^ d) total) c = roundMoney total c) ∧
      (IsWhole c total → HonoursAtFewest (unitPriceFromTotal total qty c) total qty c) := by
  have hiff := honoursAtFewest_iff total c hpos.ne'
  constructor
  · simpa only [Honours, priceAt_mul] using hiff
  · intro htotal
    exact hiff.2 ⟨rateDp c, Nat.le_add_right _ _, le_rfl, honours_ceiling hpos hle htotal⟩

/-- 590 dollars for 38.6. -/
theorem typedTotal_honoured :
    (HonoursAtFewest (unitPriceFromTotal 590 (386 / 10) "USD") 590 (386 / 10) "USD" ↔
      ∃ d, currencyDp "USD" ≤ d ∧ d ≤ rateDp "USD" ∧
        roundMoney (roundTo (386 / 10 / 10 ^ d) 590) "USD" = roundMoney 590 "USD") ∧
      (IsWhole "USD" 590 → HonoursAtFewest (unitPriceFromTotal 590 (386 / 10) "USD") 590 (386 / 10) "USD") :=
  unitPriceFromTotal_honours_iff 590 (386 / 10) "USD" (by norm_num) (by decide +kernel)

/-- The ceiling falls short of half a cent for 4.09: 0.001222 brings it to 0.00499798. -/
theorem fineTotal_not_honoured :
    ¬ ∀ (total qty : ℚ) (c : String), 0 < qty → qty ≤ 10 ^ RATE_EXTRA_DP →
      HonoursAtFewest (unitPriceFromTotal total qty c) total qty c := by
  intro h
  have hhonours := (h (5 / 1000) (409 / 100) "USD" (by norm_num) (by decide +kernel)).1
  revert hhonours
  decide +kernel

example : unitPriceFromTotal 590 (386 / 10) "USD" = 15285 / 1000 := by decide +kernel

end Celerp
