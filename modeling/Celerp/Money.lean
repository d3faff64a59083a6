/-
  Money (`celerp/services/money.py`): the minor units of the currencies, the
  rounding of amounts, of inventory cost basis and of exchange rates, the
  conversion to the books' currency, and the allocation of an amount over parts.

  Amounts, rates and quantities are exact decimals in the source; here they are
  rationals.

  * `roundMoney` rounds to whole minor units (`isWhole_roundMoney`), fixes whole
    amounts (`roundMoney_of_isWhole`), is monotone and odd, and commutes with
    taking a whole amount off a nonnegative one (`roundMoney_sub`);
  * `roundBasis` keeps every amount of `BASIS_DP` places (`roundBasis_of_onBasis`).
-/
import Mathlib.Algebra.BigOperators.Ring.Finset
import Celerp.Lib.Apportion
import Celerp.Lib.Rounding

namespace Celerp

open Apportion Rounding

/-! ## Currencies -/

/-- The ISO 4217 minor units of every currency that does not use `DEFAULT_DP`. -/
def CURRENCY_DP : List (String × ℕ) :=
  [("BIF", 0), ("CLP", 0), ("DJF", 0), ("GNF", 0), ("ISK", 0), ("JPY", 0), ("KMF", 0), ("KRW", 0),
    ("PYG", 0), ("RWF", 0), ("UGX", 0), ("VND", 0), ("VUV", 0), ("XAF", 0), ("XOF", 0), ("XPF", 0),
    ("BHD", 3), ("IQD", 3), ("JOD", 3), ("KWD", 3), ("LYD", 3), ("OMR", 3), ("TND", 3),
    ("CLF", 4)]

def DEFAULT_DP : ℕ := 2

/-- The decimal places of a currency code, whatever its case. -/
def currencyDp (currency : String) : ℕ := (CURRENCY_DP.lookup currency.toUpper).getD DEFAULT_DP

/-- One minor unit of a currency (`quant`). -/
def quant (currency : String) : ℚ := 1 / 10 ^ currencyDp currency

theorem quant_pos (currency : String) : 0 < quant currency := by unfold quant; positivity

/-! ## Amounts -/

/-- Round to the currency's decimal places, half up. -/
def roundMoney (v : ℚ) (currency : String) : ℚ := roundTo (quant currency) v

/-- `v` is a whole number of the currency's minor units. -/
def IsWhole (currency : String) (v : ℚ) : Prop := IsMultiple (quant currency) v

section
variable {c : String} {v w : ℚ}

theorem isWhole_zero (c : String) : IsWhole c 0 := isMultiple_zero _

theorem IsWhole.add (hv : IsWhole c v) (hw : IsWhole c w) : IsWhole c (v + w) :=
  IsMultiple.add hv hw

theorem IsWhole.sub (hv : IsWhole c v) (hw : IsWhole c w) : IsWhole c (v - w) :=
  IsMultiple.sub hv hw

theorem IsWhole.neg (hv : IsWhole c v) : IsWhole c (-v) := by
  simpa using (isWhole_zero c).sub hv

theorem IsWhole.abs (hv : IsWhole c v) : IsWhole c |v| := by
  rcases abs_choice v with h | h <;> rw [h]
  · exact hv
  · exact hv.neg

theorem IsWhole.sum {l : List ℚ} (h : ∀ v ∈ l, IsWhole c v) : IsWhole c l.sum := IsMultiple.sum h

/-- A whole amount above nothing is at least a minor unit. -/
theorem IsWhole.quant_le (hv : IsWhole c v) (hpos : 0 < v) : quant c ≤ v := by
  obtain ⟨n, rfl⟩ := hv
  have hn : (0 : ℚ) < n := pos_of_mul_pos_left hpos (quant_pos c).le
  have hone : (1 : ℚ) ≤ n := by exact_mod_cast (by exact_mod_cast hn : 0 < n)
  exact le_mul_of_one_le_left (quant_pos c).le hone

theorem isWhole_roundMoney (v : ℚ) (c : String) : IsWhole c (roundMoney v c) :=
  isMultiple_roundTo _ _

@[simp] theorem roundMoney_zero (c : String) : roundMoney 0 c = 0 := roundTo_zero _

theorem roundMoney_of_isWhole (hv : IsWhole c v) : roundMoney v c = v :=
  roundTo_of_isMultiple (quant_pos c) hv

theorem isWhole_iff_roundMoney_eq : IsWhole c v ↔ roundMoney v c = v :=
  ⟨roundMoney_of_isWhole, fun h => h ▸ isWhole_roundMoney v c⟩

instance (c : String) (v : ℚ) : Decidable (IsWhole c v) := decidable_of_iff _ isWhole_iff_roundMoney_eq.symm

theorem roundMoney_neg (v : ℚ) (c : String) : roundMoney (-v) c = -roundMoney v c :=
  roundTo_neg _ _

theorem roundMoney_mono (c : String) (h : v ≤ w) : roundMoney v c ≤ roundMoney w c :=
  roundTo_mono (quant_pos c) h

theorem roundMoney_nonneg (c : String) (hv : 0 ≤ v) : 0 ≤ roundMoney v c :=
  roundTo_nonneg (quant_pos c) hv

theorem roundMoney_le_iff (hv : 0 ≤ v) (hw : IsWhole c w) : roundMoney v c ≤ w ↔ v < w + quant c / 2 :=
  roundTo_le_iff (quant_pos c) hv hw

theorem roundMoney_sub (hv : 0 ≤ v) (hw : IsWhole c w) (hvw : 0 ≤ v - w) :
    roundMoney (v - w) c = roundMoney v c - w :=
  roundTo_sub (quant_pos c) hv hw hvw

end

/-! ## Unit prices

A unit price is a rate, not an amount: it may carry more decimal places than the
currency, so that it reconciles to a rounded total. -/

def RATE_EXTRA_DP : ℕ := 4

/-- The decimal places of a unit price. -/
def rateDp (currency : String) : ℕ := currencyDp currency + RATE_EXTRA_DP

/-- Round a unit price, half up. -/
def roundRate (v : ℚ) (currency : String) : ℚ := roundTo (1 / 10 ^ rateDp currency) v

/-! ## Quantities -/

/-- The built-in `round` to a number of decimal places, halves to the even digit. -/
def roundDigits (v : ℚ) (digits : ℕ) : ℚ := roundEvenTo (1 / 10 ^ digits) v

/-! ## Inventory cost basis

A cost basis is internal state, not money: it keeps `BASIS_DP` decimal places and
becomes money only where it leaves as an amount. -/

def BASIS_DP : ℕ := 10

/-- Round a cost basis, enough to drop float noise. -/
def roundBasis (v : ℚ) : ℚ := roundDigits v BASIS_DP

/-- `v` has at most `BASIS_DP` decimal places. -/
def OnBasis (v : ℚ) : Prop := IsMultiple (1 / 10 ^ BASIS_DP) v

theorem onBasis_zero : OnBasis 0 := isMultiple_zero _

theorem onBasis_roundBasis (v : ℚ) : OnBasis (roundBasis v) := isMultiple_roundEvenTo _ _

theorem roundBasis_of_onBasis {v : ℚ} (hv : OnBasis v) : roundBasis v = v :=
  roundEvenTo_of_isMultiple (by norm_num) hv

theorem roundBasis_nonneg {v : ℚ} (hv : 0 ≤ v) : 0 ≤ roundBasis v :=
  roundEvenTo_nonneg (by norm_num) hv

theorem roundBasis_mono {v w : ℚ} (h : v ≤ w) : roundBasis v ≤ roundBasis w :=
  roundEvenTo_mono (by norm_num) h

theorem currencyDp_le (c : String) : currencyDp c ≤ 4 := by
  have htable : ∀ p ∈ CURRENCY_DP, p.2 ≤ 4 := by decide
  unfold currencyDp
  cases h : CURRENCY_DP.lookup c.toUpper with
  | none => simp [DEFAULT_DP]
  | some n =>
    obtain ⟨l₁, l₂, hk, -⟩ := List.lookup_eq_some_iff.1 h
    exact htable (c.toUpper, n) (by simp [hk])

/-- A minor unit of any currency is an even number of the smallest steps a cost
    basis is kept in. -/
theorem IsWhole.even_onBasis {c : String} {v : ℚ} :
    IsWhole c v → ∃ n : ℤ, Even n ∧ v = n * (1 / 10 ^ BASIS_DP)
  | ⟨n, hn⟩ => by
    have hlt : currencyDp c < BASIS_DP := (currencyDp_le c).trans_lt (by decide)
    refine ⟨n * 10 ^ (BASIS_DP - currencyDp c), ?_, ?_⟩
    · exact (Even.pow_of_ne_zero (by decide) (by omega)).mul_left n
    · have hpow : (10 : ℚ) ^ BASIS_DP = 10 ^ (BASIS_DP - currencyDp c) * 10 ^ currencyDp c := by
        rw [← pow_add, Nat.sub_add_cancel hlt.le]
      rw [hn, quant, hpow]
      push_cast
      field_simp

theorem IsWhole.onBasis {c : String} {v : ℚ} (h : IsWhole c v) : OnBasis v :=
  have ⟨n, _, hv⟩ := h.even_onBasis
  ⟨n, hv⟩

theorem roundBasis_sub_whole {c : String} {w : ℚ} (v : ℚ) (hw : IsWhole c w) :
    roundBasis (v - w) = roundBasis v - w := by
  obtain ⟨n, hn, rfl⟩ := hw.even_onBasis
  exact roundEvenTo_sub_even (by norm_num) hn v

/-! ## Exchange rates -/

def EXCHANGE_RATE_DP : ℕ := 12

/-- Round an exchange rate to `EXCHANGE_RATE_DP` places, half up. -/
def roundExchangeRate (v : ℚ) : ℚ := roundTo (1 / 10 ^ EXCHANGE_RATE_DP) v

/-- A rate as it is stored: positive, with at most `EXCHANGE_RATE_DP` places. -/
structure ExchangeRate where
  value : ℚ
  places : IsMultiple (1 / 10 ^ EXCHANGE_RATE_DP) value
  pos : 0 < value

/-- `checked_exchange_rate`: a rate ready to store, if the value is a usable rate. -/
def checkedExchangeRate (v : ℚ) : Option ExchangeRate :=
  if h : 0 < v ∧ 0 < roundExchangeRate v then
    some ⟨roundExchangeRate v, isMultiple_roundTo _ _, h.2⟩
  else none

/-- A stored rate is stored again as it is. -/
theorem checkedExchangeRate_value (r : ExchangeRate) : checkedExchangeRate r.value = some r := by
  have hround : roundExchangeRate r.value = r.value :=
    roundTo_of_isMultiple (by norm_num) r.places
  unfold checkedExchangeRate
  rw [dif_pos ⟨r.pos, by rw [hround]; exact r.pos⟩]
  cases r
  simp only [hround]

/-- `to_base`: an amount of a document in the books' currency, by one
    multiplication and one rounding. -/
def toBase (amount rate : ℚ) (baseCurrency : String) : ℚ := roundMoney (amount * rate) baseCurrency

section
variable {a b rate : ℚ} {base : String}

theorem isWhole_toBase (a rate : ℚ) (base : String) : IsWhole base (toBase a rate base) :=
  isWhole_roundMoney _ _

@[simp] theorem toBase_zero (rate : ℚ) (base : String) : toBase 0 rate base = 0 := by simp [toBase]

theorem toBase_mono (hrate : 0 ≤ rate) (h : a ≤ b) : toBase a rate base ≤ toBase b rate base :=
  roundMoney_mono base (mul_le_mul_of_nonneg_right h hrate)

end

/-! ## Allocation -/

/-- An amount of at least 0 over weights, in whole minor units. -/
def allocateUnits (total : ℚ) (weights : List ℚ) (currency : String) : List ℚ :=
  (apportion ⌊total / quant currency⌋ weights).map fun n : ℤ => (n : ℚ) * quant currency

/-- `allocate_pro_rata`: split an amount over parts in proportion to their weights,
    in whole minor units, by largest remainder.  A negative amount splits as its
    opposite does, negated. -/
def allocateProRata (amount : ℚ) (weights : List ℚ) (currency : String) : List ℚ :=
  let total := roundMoney amount currency
  if total < 0 then (allocateUnits (-total) weights currency).map (-·)
  else allocateUnits total weights currency

theorem isWhole_of_mem_allocateUnits {total : ℚ} {weights : List ℚ} {c : String} {v : ℚ}
    (hv : v ∈ allocateUnits total weights c) : IsWhole c v := by
  obtain ⟨n, -, rfl⟩ := List.mem_map.1 hv
  exact isMultiple_intCast_mul n _

theorem isWhole_of_mem_allocateProRata {amount : ℚ} {weights : List ℚ} {c : String} {v : ℚ}
    (hv : v ∈ allocateProRata amount weights c) : IsWhole c v := by
  unfold allocateProRata at hv
  dsimp only at hv
  split_ifs at hv
  · obtain ⟨w, hw, rfl⟩ := List.mem_map.1 hv
    simpa using (isWhole_zero c).sub (isWhole_of_mem_allocateUnits hw)
  · exact isWhole_of_mem_allocateUnits hv

section
variable {weights : List ℚ} {amount total : ℚ} {c : String}

theorem length_allocateProRata (amount : ℚ) (weights : List ℚ) (c : String) :
    (allocateProRata amount weights c).length = weights.length := by
  unfold allocateProRata allocateUnits
  dsimp only
  split_ifs <;> simp [length_apportion]

theorem sum_map_neg (l : List ℚ) : (l.map (-·)).sum = -l.sum := by
  induction l with
  | nil => simp
  | cons v l ih =>
    rw [List.map_cons, List.sum_cons, List.sum_cons, ih]
    ring

theorem sum_allocateUnits (hw : weights.sum ≠ 0) (htotal : IsWhole c total) :
    (allocateUnits total weights c).sum = total := by
  obtain ⟨n, rfl⟩ := htotal
  have hunits : ⌊(n : ℚ) * quant c / quant c⌋ = n := by
    rw [mul_div_cancel_right₀ _ (quant_pos c).ne', Int.floor_intCast]
  rw [allocateUnits, hunits, List.sum_map_mul_right]
  rw [← Int.cast_list_sum, sum_apportion hw]

/-- **The shares sum to the rounded amount.** -/
theorem sum_allocateProRata (hw : weights.sum ≠ 0) (amount : ℚ) (c : String) :
    (allocateProRata amount weights c).sum = roundMoney amount c := by
  have hwhole := isWhole_roundMoney amount c
  unfold allocateProRata
  dsimp only
  split_ifs
  · rw [sum_map_neg, sum_allocateUnits hw hwhole.neg, neg_neg]
  · exact sum_allocateUnits hw hwhole

theorem allocateUnits_nonneg (htotal : 0 ≤ total) (hw : ∀ w ∈ weights, 0 ≤ w) :
    ∀ v ∈ allocateUnits total weights c, 0 ≤ v := by
  intro v hv
  obtain ⟨n, hn, rfl⟩ := List.mem_map.1 hv
  have hquant := quant_pos c
  have hunits : 0 ≤ ⌊total / quant c⌋ := Int.floor_nonneg.2 (by positivity)
  have hnn : (0 : ℚ) ≤ n := by exact_mod_cast apportion_nonneg hunits hw n hn
  positivity

/-- The shares of an amount are all on its side of nothing. -/
theorem allocateProRata_sign (hw : ∀ w ∈ weights, 0 ≤ w) (amount : ℚ) (c : String) :
    (∀ v ∈ allocateProRata amount weights c, 0 ≤ v) ∨ ∀ v ∈ allocateProRata amount weights c, v ≤ 0 := by
  unfold allocateProRata
  dsimp only
  split_ifs with hneg
  · right
    intro v hv
    obtain ⟨w, hmem, rfl⟩ := List.mem_map.1 hv
    have := allocateUnits_nonneg (by linarith) hw w hmem
    linarith
  · exact .inl (allocateUnits_nonneg (not_lt.1 hneg) hw)

end

end Celerp
