/-
  Price lists and derived prices (`celerp/services/pricing.py`).

  A list's price is read under its name, or under a key made of its name.  A derived list's
  price is computed from the base list's when an item is read, and written under the key
  (`injectDerivedPrices`).

  * `derived_prices_apart_iff`: that changes nothing when done again, and no price of the
    base list or of a manual or cost list, exactly where no derived list has a name or a key
    in common with one of these (`priceKeys`).

  How texts are lowered and stripped is a parameter.
-/
import Celerp.Money
import Mathlib.Data.List.Sort
import Mathlib.Data.String.Basic

namespace Celerp

open Rounding

/-! ## Writes of fixed values -/

section
variable {κ α : Type} [DecidableEq κ]

/-- A dictionary after values are written under keys, in order. -/
def writeAll (ws : List (κ × α)) (f : κ → α) : κ → α := ws.foldl (fun f w => Function.update f w.1 w.2) f

variable {ws : List (κ × α)} {f g : κ → α} {k : κ}

theorem writeAll_of_not_mem (h : k ∉ ws.map Prod.fst) : writeAll ws f k = f k := by
  unfold writeAll
  induction ws generalizing f with
  | nil => rfl
  | cons w ws ih =>
    rw [List.map_cons, List.mem_cons, not_or] at h
    rw [List.foldl_cons, ih h.2, Function.update_of_ne h.1]

/-- What a key written to holds is a value written under it, whatever was there. -/
theorem writeAll_of_mem (h : k ∈ ws.map Prod.fst) : ∃ v, (k, v) ∈ ws ∧ ∀ f, writeAll ws f k = v := by
  induction ws with
  | nil => exact absurd h List.not_mem_nil
  | cons w ws ih =>
    by_cases hmem : k ∈ ws.map Prod.fst
    · obtain ⟨v, hv, hall⟩ := ih hmem
      exact ⟨v, List.mem_cons_of_mem _ hv, fun f => hall _⟩
    · obtain rfl : k = w.1 := (List.mem_cons.1 h).resolve_right hmem
      refine ⟨w.2, List.mem_cons_self, fun f => ?_⟩
      have hlast : writeAll (w :: ws) f w.1 = writeAll ws (Function.update f w.1 w.2) w.1 := rfl
      rw [hlast, writeAll_of_not_mem hmem, Function.update_self]

theorem writeAll_writeAll : writeAll ws (writeAll ws f) = writeAll ws f := by
  funext k
  by_cases h : k ∈ ws.map Prod.fst
  · obtain ⟨v, -, hall⟩ := writeAll_of_mem h
    rw [hall, hall]
  · rw [writeAll_of_not_mem h]

end

/-! ## Price lists -/

/-- A value of an item or of a setting. -/
inductive ItemValue where
  | number (v : ℚ)
  /-- a text, with the finite number it reads as -/
  | text (s : String) (number : Option ℚ)
  | other
  deriving DecidableEq, Repr

/-- A price list; one with a multiplier is derived. -/
structure PriceList where
  name : String
  multiplier : Option ItemValue := none
  rounding : Option ItemValue := none
  deriving DecidableEq, Repr

/-- A flattened item. -/
abbrev FlatItem := String → Option ItemValue

/-- `COST_PRICE_LIST_NAMES` -/
def COST_PRICE_LIST_NAMES : List String := ["cost", "cost price", "landed", "landed cost"]

/-- `MAX_FACTOR` -/
def MAX_FACTOR : ℚ := 1000000

/-- `coerce_price` -/
def coercePrice : ItemValue → Option ℚ
  | .number v => some v
  | .text _ number => number
  | .other => none

/-- `is_derived` -/
def PriceList.isDerived (pl : PriceList) : Bool := pl.multiplier.isSome

section
variable (lower strip : String → String)

/-- `price_key` -/
def priceKey (name : String) : String := lower name ++ "_price"

/-- The keys a list's price is read under. -/
def priceKeys (name : String) : List String := [name, priceKey lower name]

/-- `is_cost_list_name` -/
def isCostListName (name : String) : Bool := lower name ∈ COST_PRICE_LIST_NAMES

/-- `stored_price` -/
def storedPrice (item : FlatItem) (name : String) : Option ℚ :=
  match (item name).bind coercePrice with
  | some v => some v
  | none => (item (priceKey lower name)).bind coercePrice

/-- `resolve_price` -/
def resolvePrice (item : FlatItem) (name : String) : ℚ := (storedPrice lower item name).getD 0

/-- `round_half_up_to_increment` -/
def roundHalfUpToIncrement (value : ℚ) (increment : Option ℚ) : ℚ :=
  match increment with
  | none => value
  | some increment => roundTo increment value

/-- `derived_price` -/
def derivedPrice (baseValue multiplier : ℚ) (rounding : Option ℚ) : ℚ :=
  let raw := baseValue * multiplier
  match rounding with
  | none => raw
  | some rounding =>
    let rounded := roundHalfUpToIncrement raw rounding
    if rounded = 0 ∧ 0 < raw then rounding else rounded

/-- A derived list's price at the rate ceiling, 0 where a setting is no number. -/
def derivedValue (baseValue : ℚ) (pl : PriceList) (currency : String) : ℚ :=
  match pl.multiplier.bind coercePrice, pl.rounding with
  | some multiplier, none => roundRate (derivedPrice baseValue multiplier none) currency
  | some multiplier, some rounding =>
    match coercePrice rounding with
    | some rounding => roundRate (derivedPrice baseValue multiplier (some rounding)) currency
    | none => 0
  | none, _ => 0

/-- A list whose price is computed: derived, and neither a cost list nor the base. -/
def Computed (base : String) (pl : PriceList) : Prop :=
  pl.isDerived = true ∧ ¬(isCostListName lower pl.name = true ∨ pl.name = base)

instance (base : String) (pl : PriceList) : Decidable (Computed lower base pl) := by
  unfold Computed
  infer_instance

/-- What is written under a derived list's key. -/
def injectedValue (baseValue : ℚ) (pl : PriceList) (currency : String) : Option ItemValue :=
  let value := if 0 < baseValue then derivedValue baseValue pl currency else 0
  if 0 < value then some (.number value) else none

/-- One list's part of `inject_derived_prices`. -/
def injectDerived (base currency : String) (baseValue : ℚ) (item : FlatItem) (pl : PriceList) : FlatItem :=
  if Computed lower base pl then
    Function.update (Function.update item pl.name none) (priceKey lower pl.name)
      (injectedValue baseValue pl currency)
  else item

/-- `inject_derived_prices` -/
def injectDerivedPrices (item : FlatItem) (lists : List PriceList) (base currency : String) : FlatItem :=
  lists.foldl (injectDerived lower base currency (resolvePrice lower item base)) item

end

/-! ## What a configuration is accepted -/

/-- The refusals of `validate_price_lists`. -/
inductive PriceListRefusal where
  | nameEmpty
  | nameTaken (name : String)
  | factor (name : String)
  | costDerived (name : String)
  | baseFactor (name : String)
  | roundingNeedsFactor (name : String)
  | rounding (name : String)
  | missing (name : String)
  deriving DecidableEq, Repr

/-- `_valid_factor` -/
def validFactor (v : ItemValue) : Bool := (coercePrice v).any fun f => 0 < f ∧ f ≤ MAX_FACTOR

section
variable (lower strip : String → String)

/-- The rules on one list. -/
def priceListRefusal (base : String) (pl : PriceList) : Option PriceListRefusal :=
  let name := strip pl.name
  let factor := pl.multiplier.bind fun multiplier =>
    if !validFactor multiplier then some (.factor name)
    else if isCostListName lower name then some (.costDerived name)
    else if name = base then some (.baseFactor name)
    else none
  let rounding := pl.rounding.bind fun rounding =>
    if pl.multiplier = none then some (.roundingNeedsFactor name)
    else if !validFactor rounding then some (.rounding name)
    else none
  factor.or rounding

/-- `validate_price_lists` -/
def validatePriceLists (lists : List PriceList) (base : String) (baseExplicit : Bool) : Option PriceListRefusal :=
  let names := lists.map fun pl => strip pl.name
  let lowered := names.map lower
  if "" ∈ names then some .nameEmpty
  else match ((lowered.filter fun n => 1 < lowered.count n).insertionSort (· ≤ ·)).head? with
    | some name => some (.nameTaken name)
    | none =>
      match lists.findSome? (priceListRefusal lower strip base) with
      | some refusal => some refusal
      | none =>
        if base ∉ names ∧ (baseExplicit ∨ lists.any (·.isDerived)) then some (.missing base) else none

end

/-! ## What an injection writes -/

section
variable {lower : String → String} {lists : List PriceList} {base c : String} {baseValue : ℚ} {item : FlatItem}
  {pl : PriceList} {k n : String} {v : Option ItemValue}

/-- What a list's injection writes. -/
def derivedWrites (lower : String → String) (base c : String) (baseValue : ℚ) (pl : PriceList) :
    List (String × Option ItemValue) :=
  if Computed lower base pl then [(pl.name, none), (priceKey lower pl.name, injectedValue baseValue pl c)] else []

theorem injectDerivedPrices_eq :
    injectDerivedPrices lower item lists base c =
      writeAll (lists.flatMap (derivedWrites lower base c (resolvePrice lower item base))) item := by
  unfold injectDerivedPrices
  generalize resolvePrice lower item base = baseValue
  induction lists generalizing item with
  | nil => rfl
  | cons pl lists ih =>
    have hpl : injectDerived lower base c baseValue item pl =
        writeAll (derivedWrites lower base c baseValue pl) item := by
      rw [injectDerived, derivedWrites]
      split_ifs <;> rfl
    rw [List.foldl_cons, ih, hpl, List.flatMap_cons, writeAll, writeAll, writeAll, List.foldl_append]

/-- The keys written are those of the computed lists. -/
theorem mem_derivedWrites_keys :
    k ∈ (lists.flatMap (derivedWrites lower base c baseValue)).map Prod.fst ↔
      ∃ d ∈ lists, Computed lower base d ∧ k ∈ priceKeys lower d.name := by
  rw [List.map_flatMap, List.mem_flatMap]
  refine exists_congr fun d => and_congr_right fun _ => ?_
  unfold derivedWrites priceKeys
  split_ifs with hcomputed <;> simp [hcomputed]

theorem isMultiple_derivedValue : IsMultiple (1 / 10 ^ rateDp c) (derivedValue baseValue pl c) := by
  unfold derivedValue
  split
  · exact isMultiple_roundTo _ _
  · split
    · exact isMultiple_roundTo _ _
    · exact isMultiple_zero _
  · exact isMultiple_zero _

/-- What is written is nothing, or a price at the rate ceiling. -/
theorem of_mem_derivedWrites (h : (k, v) ∈ lists.flatMap (derivedWrites lower base c baseValue)) :
    v = none ∨ ∃ w, v = some (.number w) ∧ IsMultiple (1 / 10 ^ rateDp c) w := by
  obtain ⟨d, -, hd⟩ := List.mem_flatMap.1 h
  unfold derivedWrites at hd
  split_ifs at hd
  · rcases List.mem_pair.1 hd with heq | heq
    · exact .inl (Prod.mk.inj heq).2
    · have hv := (Prod.mk.inj heq).2
      unfold injectedValue at hv
      dsimp only at hv
      split_ifs at hv
      · exact .inr ⟨_, hv, isMultiple_derivedValue⟩
      · exact .inl hv
      · exact .inr ⟨_, hv, isMultiple_zero _⟩
      · exact .inl hv
  · exact absurd hd List.not_mem_nil

/-! ## Lists left alone -/

/-- The base list, and the manual and cost lists. -/
def KeptList (lower : String → String) (lists : List PriceList) (base n : String) : Prop :=
  n = base ∨ (∃ pl ∈ lists, pl.isDerived = false ∧ pl.name = n) ∨ isCostListName lower n = true

/-- No computed list has a name or a key in common with a list that is kept. -/
def NamesApart (lower : String → String) (lists : List PriceList) (base : String) : Prop :=
  ∀ d ∈ lists, Computed lower base d → ∀ n, KeptList lower lists base n → ∀ k ∈ priceKeys lower d.name,
    k ∉ priceKeys lower n

/-- A list's price is what stands under its keys. -/
theorem resolvePrice_congr {item' : FlatItem} (h : ∀ k ∈ priceKeys lower n, item' k = item k) :
    resolvePrice lower item' n = resolvePrice lower item n := by
  have hname : item' n = item n := h n List.mem_cons_self
  have hkey : item' (priceKey lower n) = item (priceKey lower n) := h _ (List.mem_pair.2 (.inr rfl))
  unfold resolvePrice storedPrice
  rw [hname, hkey]

theorem resolvePrice_injectDerivedPrices (h : NamesApart lower lists base) (hn : KeptList lower lists base n) :
    resolvePrice lower (injectDerivedPrices lower item lists base c) n = resolvePrice lower item n := by
  refine resolvePrice_congr fun k hk => ?_
  rw [injectDerivedPrices_eq]
  refine writeAll_of_not_mem fun hmem => ?_
  obtain ⟨d, hd, hcomputed, hkd⟩ := mem_derivedWrites_keys.1 hmem
  exact h d hd hcomputed n hn k hkd hk

theorem injectDerivedPrices_twice (h : NamesApart lower lists base) :
    injectDerivedPrices lower (injectDerivedPrices lower item lists base c) lists base c =
      injectDerivedPrices lower item lists base c := by
  have hbase : resolvePrice lower (injectDerivedPrices lower item lists base c) base =
      resolvePrice lower item base := resolvePrice_injectDerivedPrices h (.inl rfl)
  have hagain : injectDerivedPrices lower (injectDerivedPrices lower item lists base c) lists base c =
      writeAll (lists.flatMap (derivedWrites lower base c (resolvePrice lower item base)))
        (injectDerivedPrices lower item lists base c) := by
    rw [injectDerivedPrices_eq, hbase]
  rw [hagain, injectDerivedPrices_eq, writeAll_writeAll]

/-- An item priced under one key alone. -/
def pricedAt (k : String) (v : ℚ) : FlatItem := fun key => if key = k then some (.number v) else none

/-- A price off the rate ceiling, under a key a computed list writes, is lost. -/
theorem resolvePrice_inject_pricedAt {d : PriceList} {p : ℚ} (hd : d ∈ lists) (hcomputed : Computed lower base d)
    (hkd : k ∈ priceKeys lower d.name) (hoff : ¬IsMultiple (1 / 10 ^ rateDp c) p) :
    resolvePrice lower (injectDerivedPrices lower (pricedAt k p) lists base c) n ≠ p := by
  set item' := injectDerivedPrices lower (pricedAt k p) lists base c with hitem'
  -- whatever a key holds afterwards, it reads as no price or as one at the ceiling
  have hheld : ∀ key, item' key = none ∨
      ∃ w, item' key = some (.number w) ∧ IsMultiple (1 / 10 ^ rateDp c) w := by
    intro key
    rw [hitem', injectDerivedPrices_eq]
    by_cases hmem : key ∈ (lists.flatMap (derivedWrites lower base c
        (resolvePrice lower (pricedAt k p) base))).map Prod.fst
    · obtain ⟨v, hv, hall⟩ := writeAll_of_mem hmem
      rw [hall]
      exact of_mem_derivedWrites hv
    · have hne : key ≠ k := by
        rintro rfl
        exact hmem (mem_derivedWrites_keys.2 ⟨d, hd, hcomputed, hkd⟩)
      rw [writeAll_of_not_mem hmem]
      exact .inl (if_neg hne)
  have hread : ∀ key, ∀ w ∈ (item' key).bind coercePrice, IsMultiple (1 / 10 ^ rateDp c) w := by
    intro key w hw
    rcases hheld key with hnone | ⟨w', hsome, hmultiple⟩
    · rw [hnone] at hw
      exact absurd hw (by simp)
    · rw [hsome] at hw
      obtain rfl : w' = w := by simpa [coercePrice] using hw
      exact hmultiple
  intro heq
  refine hoff (heq ▸ ?_)
  unfold resolvePrice storedPrice
  cases hname : (item' n).bind coercePrice with
  | some w => exact hread n w hname
  | none =>
    dsimp only
    cases hkey : (item' (priceKey lower n)).bind coercePrice with
    | some w => exact hread _ w hkey
    | none => exact isMultiple_zero _

theorem resolvePrice_pricedAt {p : ℚ} (hk : k ∈ priceKeys lower n) : resolvePrice lower (pricedAt k p) n = p := by
  unfold resolvePrice storedPrice pricedAt
  by_cases hname : n = k
  · simp [hname, coercePrice]
  · have hkey : priceKey lower n = k := ((List.mem_pair.1 hk).resolve_left (Ne.symm hname)).symm
    simp [hname, hkey, coercePrice]

/-- Half a step of the rate ceiling. -/
theorem not_isMultiple_half (c : String) : ¬IsMultiple (1 / 10 ^ rateDp c : ℚ) (1 / 10 ^ rateDp c / 2) := by
  rintro ⟨m, hm⟩
  have hunit : (1 / 10 ^ rateDp c : ℚ) ≠ 0 := by positivity
  have htwo : (2 * m : ℚ) = 1 := by
    field_simp at hm
    linarith
  have hodd : (2 * m : ℤ) = 1 := by exact_mod_cast htwo
  omega

end

/-- **Derived price lists leave the other lists alone**, and computing them again changes
    nothing, exactly where no computed list has a name or a key in common with another. -/
theorem derived_prices_apart_iff (lower : String → String) (lists : List PriceList) (base c : String) :
    (∀ item, injectDerivedPrices lower (injectDerivedPrices lower item lists base c) lists base c =
        injectDerivedPrices lower item lists base c ∧
      ∀ n, KeptList lower lists base n →
        resolvePrice lower (injectDerivedPrices lower item lists base c) n = resolvePrice lower item n) ↔
      NamesApart lower lists base := by
  constructor
  · intro hall d hd hcomputed n hn k hkd hkn
    have hkept := (hall (pricedAt k (1 / 10 ^ rateDp c / 2))).2 n hn
    rw [resolvePrice_pricedAt hkn] at hkept
    exact resolvePrice_inject_pricedAt hd hcomputed hkd (not_isMultiple_half c) hkept
  · exact fun h item => ⟨injectDerivedPrices_twice h, fun n hn => resolvePrice_injectDerivedPrices h hn⟩

/-- A list at twice the retail price, under the name retail prices are stored by. -/
def doubledLists : List PriceList := [{ name := "Retail" }, { name := "retail_price", multiplier := some (.number 2) }]

/-- The configuration is accepted, and loses the retail price it doubles. -/
theorem retail_price_lost :
    validatePriceLists String.toLower id doubledLists "Retail" true = none ∧
      resolvePrice String.toLower (pricedAt "retail_price" 100) "Retail" = 100 ∧
      resolvePrice String.toLower (injectDerivedPrices String.toLower (pricedAt "retail_price" 100) doubledLists
        "Retail" "USD") "Retail" = 0 := by
  refine ⟨by decide +kernel, by decide +kernel, by decide +kernel⟩

end Celerp
