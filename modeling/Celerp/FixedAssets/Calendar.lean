/-
  Months as integers and timing conventions
  (`celerp_fixed_assets/calc/periods.py`, `celerp_fixed_assets/calc/conventions.py`).

  A convention says how much of a month a layer consumes when it starts and when the
  asset is disposed of; every other month consumes one whole month.
-/
import Mathlib.Data.Rat.Defs
import Mathlib.Data.Rat.Floor
import Mathlib.Algebra.Order.Ring.Rat
import Mathlib.Tactic.Linarith

namespace Celerp

/-! ## Dates and months -/

/-- The days of a month (`calendar.monthrange`). -/
def daysInMonthOf (year month : ℕ) : ℕ :=
  if month = 2 then if year % 4 = 0 ∧ (year % 100 ≠ 0 ∨ year % 400 = 0) then 29 else 28
  else if month ∈ [4, 6, 9, 11] then 30
  else 31

/-- A calendar day. -/
structure Date where
  year : ℕ
  month : ℕ
  day : ℕ
  month_pos : 0 < month
  month_le : month ≤ 12
  day_pos : 0 < day
  day_le : day ≤ daysInMonthOf year month
  deriving DecidableEq

namespace Date

/-- The day of these parts. -/
def of (year month day : ℕ)
    (h : (0 < month ∧ month ≤ 12) ∧ 0 < day ∧ day ≤ daysInMonthOf year month) : Date :=
  ⟨year, month, day, h.1.1, h.1.2, h.2.1, h.2.2⟩

variable (d : Date)

/-- `month_index` -/
def monthIndex : ℕ := d.year * 12 + d.month - 1

/-- `days_in_month` -/
def daysInMonth : ℕ := daysInMonthOf d.year d.month

/-- Where the day stands among all days. -/
def ordinal : ℕ := d.monthIndex * 31 + d.day

end Date

/-- `months_to_fiscal_year_end`: the months left in the fiscal year of a month, this one
    included. -/
def monthsToFiscalYearEnd (index fiscalYearStart : ℕ) : ℕ :=
  (((fiscalYearStart : ℤ) - (index % 12 + 1) - 1) % 12 + 1).toNat

/-- `fiscal_year_start_index` -/
def fiscalYearStartIndex (index fiscalYearStart : ℕ) : ℕ :=
  ((index : ℤ) - ((index : ℤ) % 12 + 1 - fiscalYearStart) % 12).toNat

theorem monthsToFiscalYearEnd_pos (index fiscalYearStart : ℕ) :
    0 < monthsToFiscalYearEnd index fiscalYearStart := by
  unfold monthsToFiscalYearEnd
  omega

/-! ## Conventions -/

/-- The timing conventions. -/
inductive Convention where
  | fullMonth
  | midMonth
  | daily
  | halfYear
  deriving DecidableEq, Repr

namespace Convention

/-- `start_weights`: what the first months of a layer consume. -/
def startWeights (day : Date) (fiscalYearStart : ℕ) : Convention → List ℚ
  | fullMonth => [1]
  | midMonth => [1 / 2]
  | daily => [((day.daysInMonth : ℚ) - day.day + 1) / day.daysInMonth]
  | halfYear =>
    let months := monthsToFiscalYearEnd day.monthIndex fiscalYearStart
    List.replicate months (6 / months)

/-- `disposal`: what the month of disposal consumes. -/
def disposal (normal : ℚ) (day : Date) (fyConsumed remaining : ℚ) : Convention → ℚ
  | fullMonth => 0
  | midMonth => min (max (normal - 1 / 2) 0) remaining
  | daily =>
    let unused : ℚ := ((day.daysInMonth : ℚ) - day.day) / day.daysInMonth
    min (max (normal - unused) 0) remaining
  | halfYear => min 6 (fyConsumed + remaining) - fyConsumed

/-- A layer starts by consuming some of its life each month. -/
theorem startWeights_pos (day : Date) (fiscalYearStart : ℕ) (convention : Convention) :
    ∀ w ∈ convention.startWeights day fiscalYearStart, 0 < w := by
  cases convention with
  | fullMonth => simp [startWeights]
  | midMonth => simp [startWeights]
  | daily =>
    intro w hw
    obtain rfl := List.mem_singleton.1 hw
    have hday : (day.day : ℚ) ≤ day.daysInMonth := by exact_mod_cast day.day_le
    have hpos : (0 : ℚ) < day.daysInMonth := by
      exact_mod_cast day.day_pos.trans_le day.day_le
    exact div_pos (by linarith) hpos
  | halfYear =>
    intro w hw
    obtain ⟨-, rfl⟩ := List.mem_replicate.1 hw
    have hpos : (0 : ℚ) < monthsToFiscalYearEnd day.monthIndex fiscalYearStart := by
      exact_mod_cast monthsToFiscalYearEnd_pos _ _
    exact div_pos (by norm_num) hpos

end Convention

end Celerp
