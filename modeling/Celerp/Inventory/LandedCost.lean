/-
  Landed cost over the goods it was charged for (`celerp/services/landed_cost.py`).

  The freight, insurance and duty a bill charged are shared over its goods lines by value,
  or by quantity where none has a value, and handed out per unit of a line's quantity
  (`allocateLandedCost`).

  * `landed_whole_iff`: the goods take the whole of what was charged exactly where nothing of
    it is shared to a line without quantity (`TakesUnit`).
-/
import Celerp.Lib.Amounts
import Celerp.Money.Allocation
import Mathlib.Data.Prod.Basic

namespace Celerp

open Apportion

/-- A line of goods: what it comes to, and how many units. -/
structure LandedGoods (κ : Type) where
  key : κ
  value : ℚ
  qty : ℚ
  deriving DecidableEq, Repr

/-- A charge to be landed on the goods. -/
structure LandedComponent where
  kind : String
  amount : ℚ
  deriving DecidableEq, Repr

/-- The landed cost of a unit, by goods line and kind. -/
abbrev LandedCosts (κ : Type) := κ → String → Option ℚ

section
variable {κ : Type} [DecidableEq κ] (goods : List (LandedGoods κ)) (c : String)

/-- `total_value` -/
def goodsTotalValue : ℚ := (goods.map (·.value)).sum

/-- `total_qty` -/
def goodsTotalQty : ℚ := (goods.map (·.qty)).sum

/-- `_basis`: what a line is shared to by. -/
def landedBasis (g : LandedGoods κ) : ℚ := if 0 < goodsTotalValue goods then g.value else g.qty

/-- What the lines are shared to by. -/
def landedWeights : List ℚ := goods.map (landedBasis goods)

/-- `by_kind`: what was charged, by kind. -/
def byKind (components : List LandedComponent) : List (String × ℚ) :=
  Amounts.ofList ((components.filter fun comp => comp.amount ≠ 0).map fun comp => (comp.kind, comp.amount))

/-- The shares of a pool, by line. -/
def landedShares (pool : ℚ) : List (κ × ℚ) :=
  (goods.map (·.key)).zip (allocateProRata pool (landedWeights goods) c)

/-- `shares[key]` of a dictionary made of pairs: the last of a key stands. -/
def shareOf (shares : List (κ × ℚ)) (key : κ) : ℚ := (shares.reverse.lookup key).getD 0

/-- `result[key][kind] = v` -/
def LandedCosts.put (result : LandedCosts κ) (key : κ) (kind : String) (v : ℚ) : LandedCosts κ :=
  Function.update result key (Function.update (result key) kind (some v))

/-- A line's share of a pool, per unit of its quantity. -/
def landLine (shares : List (κ × ℚ)) (kind : String) (result : LandedCosts κ) (g : LandedGoods κ) :
    LandedCosts κ :=
  if g.qty ≠ 0 then result.put g.key kind (shareOf shares g.key / g.qty) else result

/-- The lines' shares of a kind's pool. -/
def landKind (result : LandedCosts κ) (pool : String × ℚ) : LandedCosts κ :=
  if pool.2 ≤ 0 then result else goods.foldl (landLine (landedShares goods c pool.2) pool.1) result

/-- `allocate_landed_cost` -/
def allocateLandedCost (components : List LandedComponent) : LandedCosts κ :=
  if ¬0 < goodsTotalValue goods ∧ goodsTotalQty goods ≤ 0 then fun _ _ => none
  else (byKind components).foldl (landKind goods c) fun _ _ => none

/-- What was charged of a kind. -/
def poolOf (kind : String) (components : List LandedComponent) : ℚ :=
  ((components.filter fun comp => comp.kind = kind).map (·.amount)).sum

/-- What the goods take of a kind. -/
def landedOn (result : LandedCosts κ) (kind : String) : ℚ :=
  (goods.map fun g => g.qty * (result g.key kind).getD 0).sum

end

/-! ## What is handed out -/

section
variable {κ : Type} [DecidableEq κ] {goods gs : List (LandedGoods κ)} {g : LandedGoods κ} {c kind kind' : String}
  {shares : List (κ × ℚ)} {result : LandedCosts κ} {pool : ℚ} {d : List (String × ℚ)} {key : κ}

theorem put_of_kind_ne {v : ℚ} (h : kind' ≠ kind) : result.put key kind v g.key kind' = result g.key kind' := by
  unfold LandedCosts.put
  by_cases hkey : g.key = key
  · rw [hkey, Function.update_self, Function.update_of_ne h]
  · rw [Function.update_of_ne hkey]

theorem put_of_key_ne {v : ℚ} (h : g.key ≠ key) : result.put key kind v g.key kind' = result g.key kind' := by
  rw [LandedCosts.put, Function.update_of_ne h]

theorem put_self {v : ℚ} : result.put key kind v key kind = some v := by
  rw [LandedCosts.put, Function.update_self, Function.update_self]

/-- A kind's pool is handed out under its kind. -/
theorem foldl_landLine_of_ne (h : kind' ≠ kind) :
    gs.foldl (landLine shares kind) result g.key kind' = result g.key kind' := by
  induction gs generalizing result with
  | nil => rfl
  | cons g' gs ih =>
    rw [List.foldl_cons, ih, landLine]
    split_ifs
    · exact put_of_kind_ne h
    · rfl

theorem foldl_landLine_of_not_mem (h : g.key ∉ gs.map (·.key)) :
    gs.foldl (landLine shares kind) result g.key kind' = result g.key kind' := by
  induction gs generalizing result with
  | nil => rfl
  | cons g' gs ih =>
    rw [List.map_cons, List.mem_cons, not_or] at h
    rw [List.foldl_cons, ih h.2, landLine]
    split_ifs
    · exact put_of_key_ne h.1
    · rfl

/-- A line with a quantity is handed its share of a kind's pool. -/
theorem foldl_landLine (hkeys : (gs.map (·.key)).Nodup) (hg : g ∈ gs) :
    gs.foldl (landLine shares kind) result g.key kind =
      if g.qty ≠ 0 then some (shareOf shares g.key / g.qty) else result g.key kind := by
  induction gs generalizing result with
  | nil => exact absurd hg List.not_mem_nil
  | cons g' gs ih =>
    rw [List.map_cons, List.nodup_cons] at hkeys
    rw [List.foldl_cons]
    rcases List.mem_cons.1 hg with rfl | hmem
    · rw [foldl_landLine_of_not_mem hkeys.1, landLine]
      split_ifs
      · exact put_self
      · rfl
    · have hne : g.key ≠ g'.key := fun heq => hkeys.1 (heq ▸ List.mem_map_of_mem hmem)
      rw [ih hkeys.2 hmem]
      refine if_congr Iff.rfl rfl ?_
      rw [landLine]
      split_ifs
      · exact put_of_key_ne hne
      · rfl

/-- A line is handed its share of a kind from that kind's pool alone. -/
theorem foldl_landKind (hkeys : (goods.map (·.key)).Nodup) (hg : g ∈ goods) (hd : (d.map Prod.fst).Nodup)
    (hpool : 0 < pool) (hmem : (kind, pool) ∈ d) :
    d.foldl (landKind goods c) result g.key kind =
      if g.qty ≠ 0 then some (shareOf (landedShares goods c pool) g.key / g.qty) else result g.key kind := by
  have hother : ∀ {d : List (String × ℚ)} {result : LandedCosts κ}, kind ∉ d.map Prod.fst →
      d.foldl (landKind goods c) result g.key kind = result g.key kind := by
    intro d
    induction d with
    | nil => exact fun _ => rfl
    | cons e d ih =>
      intro result h
      rw [List.map_cons, List.mem_cons, not_or] at h
      rw [List.foldl_cons, ih h.2, landKind]
      split_ifs
      · rfl
      · exact foldl_landLine_of_ne h.1
  induction d generalizing result with
  | nil => exact absurd hmem List.not_mem_nil
  | cons e d ih =>
    rw [List.map_cons, List.nodup_cons] at hd
    rw [List.foldl_cons]
    rcases List.mem_cons.1 hmem with rfl | hmem
    · rw [hother hd.1, landKind, if_neg (not_le.2 hpool), foldl_landLine hkeys hg]
    · have hne : kind ≠ e.1 := by
        rintro rfl
        exact hd.1 (List.mem_map.2 ⟨(e.1, pool), hmem, rfl⟩)
      rw [ih hd.2 hmem]
      refine if_congr Iff.rfl rfl ?_
      rw [landKind]
      split_ifs
      · rfl
      · exact foldl_landLine_of_ne hne

theorem get_byKind (components : List LandedComponent) :
    Amounts.get kind (byKind components) = poolOf kind components := by
  rw [byKind, Amounts.get_ofList, Amounts.totalOf, List.map_map, poolOf]
  simp only [ne_eq, decide_not]
  induction components with
  | nil => rfl
  | cons comp rest ih =>
    by_cases hzero : comp.amount = 0 <;> by_cases hkind : comp.kind = kind <;> simp [hzero, hkind, ih]

theorem nodup_byKind (components : List LandedComponent) : ((byKind components).map Prod.fst).Nodup :=
  Amounts.nodup_ofList

/-- What was charged of a kind is its pool. -/
theorem mem_byKind {components : List LandedComponent} (hpool : 0 < poolOf kind components) :
    (kind, poolOf kind components) ∈ byKind components := by
  have hget : Amounts.get kind (byKind components) = poolOf kind components := get_byKind components
  have hkey : kind ∈ (byKind components).map Prod.fst := by
    by_contra hnot
    rw [Amounts.get_eq_zero_of_not_mem hnot] at hget
    exact hpool.ne hget
  obtain ⟨e, he, rfl⟩ := List.mem_map.1 hkey
  have hsame : Amounts.get e.1 (byKind components) = e.2 := Amounts.get_eq_of_mem (nodup_byKind components) he
  rw [← hget, hsame]
  exact he

end

/-! ## What the goods take -/

section
variable {κ : Type} [DecidableEq κ] {goods : List (LandedGoods κ)} {g : LandedGoods κ} {c kind : String} {pool : ℚ}
  {i : ℕ}

/-- Lines with a value or a quantity, none of them below nothing. -/
structure Landable (goods : List (LandedGoods κ)) : Prop where
  keys : (goods.map (·.key)).Nodup
  value_nonneg : ∀ g ∈ goods, 0 ≤ g.value
  qty_nonneg : ∀ g ∈ goods, 0 ≤ g.qty
  some_pos : (∃ g ∈ goods, 0 < g.value) ∨ ∃ g ∈ goods, 0 < g.qty

omit [DecidableEq κ] in
theorem sum_map_pos {f : LandedGoods κ → ℚ} (hnn : ∀ g ∈ goods, 0 ≤ f g) (hpos : ∃ g ∈ goods, 0 < f g) :
    0 < (goods.map f).sum := by
  obtain ⟨g, hg, hpos⟩ := hpos
  refine hpos.trans_le (List.single_le_sum ?_ _ (List.mem_map_of_mem hg))
  intro v hv
  obtain ⟨g', hg', rfl⟩ := List.mem_map.1 hv
  exact hnn g' hg'

omit [DecidableEq κ] in
theorem Landable.weights_nonneg (h : Landable goods) : ∀ w ∈ landedWeights goods, 0 ≤ w := by
  intro w hw
  obtain ⟨g, hg, rfl⟩ := List.mem_map.1 hw
  unfold landedBasis
  split_ifs
  · exact h.value_nonneg g hg
  · exact h.qty_nonneg g hg

omit [DecidableEq κ] in
/-- What the lines are shared to by comes to something. -/
theorem Landable.weights_pos (h : Landable goods) : 0 < (landedWeights goods).sum := by
  unfold landedWeights
  by_cases hvalue : 0 < goodsTotalValue goods
  · have hbasis : goods.map (landedBasis goods) = goods.map (·.value) :=
      List.map_congr_left fun g _ => if_pos hvalue
    rw [hbasis]
    exact hvalue
  · have hbasis : goods.map (landedBasis goods) = goods.map (·.qty) := List.map_congr_left fun g _ => if_neg hvalue
    rw [hbasis]
    rcases h.some_pos with hsome | hsome
    · exact absurd (sum_map_pos h.value_nonneg hsome) hvalue
    · exact sum_map_pos h.qty_nonneg hsome

omit [DecidableEq κ] in
theorem Landable.allocates (h : Landable goods) : ¬(¬0 < goodsTotalValue goods ∧ goodsTotalQty goods ≤ 0) := by
  rintro ⟨hvalue, hqty⟩
  rcases h.some_pos with hsome | hsome
  · exact hvalue (sum_map_pos h.value_nonneg hsome)
  · exact absurd (sum_map_pos h.qty_nonneg hsome) (not_lt.2 hqty)

theorem shareOf_of_mem {shares : List (κ × ℚ)} {e : κ × ℚ} (h : (shares.map Prod.fst).Nodup) (he : e ∈ shares) :
    shareOf shares e.1 = e.2 := by
  have hrev : (shares.reverse.map Prod.fst).Nodup := by
    rw [List.map_reverse, List.nodup_reverse]
    exact h
  have hmem : e ∈ shares.reverse := List.mem_reverse.2 he
  unfold shareOf
  generalize shares.reverse = l at hrev hmem
  induction l with
  | nil => exact absurd hmem List.not_mem_nil
  | cons f l ih =>
    rw [List.map_cons, List.nodup_cons] at hrev
    obtain ⟨k, v⟩ := f
    rcases List.mem_cons.1 hmem with rfl | hrest
    · rw [List.lookup_cons_self, Option.getD_some]
    · have hne : (e.1 == k) = false :=
        beq_eq_false_iff_ne.2 fun heq => hrev.1 (List.mem_map.2 ⟨e, hrest, heq⟩)
      rw [List.lookup_cons, hne]
      exact ih hrev.2 hrest

/-- What the goods take of a kind is the shares of the lines with a quantity. -/
theorem landedOn_eq (h : Landable goods) {components : List LandedComponent} (hpool : 0 < poolOf kind components) :
    landedOn goods (allocateLandedCost goods c components) kind =
      ((goods.zip (allocateProRata (poolOf kind components) (landedWeights goods) c)).map fun p =>
        if p.1.qty = 0 then 0 else p.2).sum := by
  set pool := poolOf kind components with hpoolOf
  have hlength : (goods.map (·.key)).length = (allocateProRata pool (landedWeights goods) c).length := by
    rw [length_allocateProRata, landedWeights, List.length_map, List.length_map]
  have hkeys : ((landedShares goods c pool).map Prod.fst).Nodup := by
    rw [landedShares, List.map_fst_zip hlength.le]
    exact h.keys
  have hzip : (goods.zip (allocateProRata pool (landedWeights goods) c)).map Prod.fst = goods := by
    rw [List.length_map] at hlength
    exact List.map_fst_zip hlength.le
  have hlines : ∀ f : LandedGoods κ → ℚ,
      (goods.map f).sum = ((goods.zip (allocateProRata pool (landedWeights goods) c)).map fun p => f p.1).sum := by
    intro f
    conv_lhs => rw [← hzip, List.map_map]
    rfl
  rw [landedOn, hlines]
  refine congrArg List.sum (List.map_congr_left fun p hp => ?_)
  have hgoods : p.1 ∈ goods := (List.of_mem_zip hp).1
  have hshare : shareOf (landedShares goods c pool) p.1.key = p.2 := by
    refine shareOf_of_mem hkeys (e := (p.1.key, p.2)) ?_
    rw [landedShares, List.zip_map_left]
    exact List.mem_map.2 ⟨p, hp, rfl⟩
  rw [allocateLandedCost, if_neg h.allocates, foldl_landKind h.keys hgoods (nodup_byKind components) hpool
    (mem_byKind hpool), hshare]
  by_cases hqty : p.1.qty = 0
  · rw [if_pos hqty, hqty, zero_mul]
  · rw [if_pos hqty, if_neg hqty, Option.getD_some, mul_div_cancel₀ _ hqty]

/-- The minor units of a pool. -/
def unitsOf (pool : ℚ) (c : String) : ℤ := ⌊roundMoney pool c / quant c⌋

/-- Something of a pool is shared to a line: its exact share is a minor unit or more, or
    fewer lines come before it in the order of the remainders than minor units are left by
    rounding the shares down. -/
def TakesUnit (goods : List (LandedGoods κ)) (pool : ℚ) (c : String) (i : ℕ) (g : LandedGoods κ) : Prop :=
  1 ≤ unitsOf pool c * landedBasis goods g / (landedWeights goods).sum ∨
    (placesAhead (unitsOf pool c) (landedWeights goods) i : ℤ) < unitsLeft (unitsOf pool c) (landedWeights goods)

omit [DecidableEq κ] in
/-- A line is shared nothing of a pool where it takes no minor unit of it. -/
theorem share_eq_zero_of_line (h : Landable goods) (hpool : 0 ≤ pool) {p : LandedGoods κ × ℚ}
    (hp : (goods.zip (allocateProRata pool (landedWeights goods) c))[i]? = some p) :
    p.2 = 0 ↔ ¬TakesUnit goods pool c i p.1 := by
  have hround : 0 ≤ roundMoney pool c := roundMoney_nonneg c hpool
  have hunits : 0 ≤ unitsOf pool c := Int.floor_nonneg.2 (div_nonneg hround (quant_pos c).le)
  obtain ⟨hgoods, hshare⟩ := List.getElem?_zip_eq_some.1 hp
  have hweight : (landedWeights goods)[i]? = some (landedBasis goods p.1) := by
    rw [landedWeights, List.getElem?_map, hgoods, Option.map_some]
  rw [allocateProRata_of_nonneg hround, allocateUnits, List.getElem?_map, getElem?_apportion, hweight] at hshare
  have hvalue := Option.some.inj hshare
  rw [← hvalue, mul_eq_zero, or_iff_left (quant_pos c).ne', Int.cast_eq_zero, TakesUnit, not_or, not_le, not_lt]
  exact share_eq_zero_iff hunits h.weights_nonneg hweight

/-- **Landed cost reaches the goods whole** exactly where no line without quantity takes a
    minor unit of it. -/
theorem landed_whole_iff (goods : List (LandedGoods κ)) (h : Landable goods) (components : List LandedComponent)
    (c kind : String) (hpool : 0 < poolOf kind components) :
    landedOn goods (allocateLandedCost goods c components) kind = roundMoney (poolOf kind components) c ↔
      ∀ i g, goods[i]? = some g → g.qty = 0 → ¬TakesUnit goods (poolOf kind components) c i g := by
  set pool := poolOf kind components
  set shares := allocateProRata pool (landedWeights goods) c with hshares
  have hlength : goods.length = shares.length := by
    rw [hshares, length_allocateProRata, landedWeights, List.length_map]
  have hsum : ((goods.zip shares).map Prod.snd).sum = roundMoney pool c := by
    rw [List.map_snd_zip hlength.ge, hshares, sum_allocateProRata h.weights_pos.ne']
  have hnn : ∀ p ∈ goods.zip shares, 0 ≤ p.2 := by
    intro p hp
    have hround : 0 ≤ roundMoney pool c := roundMoney_nonneg c hpool.le
    have hshare := (List.of_mem_zip hp).2
    rw [hshares, allocateProRata_of_nonneg hround] at hshare
    exact allocateUnits_nonneg hround h.weights_nonneg _ hshare
  -- what does not reach the goods is shared to lines without quantity
  have hlost : ((goods.zip shares).map fun p => if p.1.qty = 0 then 0 else p.2).sum +
      ((goods.zip shares).map fun p => if p.1.qty = 0 then p.2 else 0).sum = roundMoney pool c := by
    rw [← List.sum_map_add, ← hsum]
    refine congrArg List.sum (List.map_congr_left fun p _ => ?_)
    split_ifs <;> simp
  have hzero : ((goods.zip shares).map fun p => if p.1.qty = 0 then p.2 else 0).sum = 0 ↔
      ∀ p ∈ goods.zip shares, p.1.qty = 0 → p.2 = 0 := by
    constructor
    · intro hsum p hp hqty
      have hall : ∀ v ∈ (goods.zip shares).map fun p => if p.1.qty = 0 then p.2 else 0, 0 ≤ v := by
        intro v hv
        obtain ⟨q, hq, rfl⟩ := List.mem_map.1 hv
        split_ifs
        · exact hnn q hq
        · exact le_rfl
      have hle := List.single_le_sum hall _ (List.mem_map_of_mem hp)
      rw [if_pos hqty, hsum] at hle
      exact le_antisymm hle (hnn p hp)
    · intro hall
      refine List.sum_eq_zero fun v hv => ?_
      obtain ⟨p, hp, rfl⟩ := List.mem_map.1 hv
      split_ifs with hqty
      · exact hall p hp hqty
      · rfl
  rw [landedOn_eq h hpool, ← hlost, left_eq_add, hzero]
  constructor
  · intro hall i g hg hqty
    have hi : i < goods.length := (List.getElem?_eq_some_iff.1 hg).1
    obtain ⟨v, hv⟩ : ∃ v, shares[i]? = some v := ⟨_, List.getElem?_eq_getElem (hlength ▸ hi)⟩
    have hp : (goods.zip shares)[i]? = some (g, v) := List.getElem?_zip_eq_some.2 ⟨hg, hv⟩
    exact (share_eq_zero_of_line h hpool.le hp).1 (hall _ (List.mem_of_getElem? hp) hqty)
  · intro hall p hp hqty
    obtain ⟨i, hi⟩ := List.mem_iff_getElem?.1 hp
    exact (share_eq_zero_of_line h hpool.le hi).2 (hall i p.1 (List.getElem?_zip_eq_some.1 hi).1 hqty)

/-- Two parcels worth a hundred each. -/
def twoParcels (qty : ℚ) : List (LandedGoods String) := [⟨"A", 100, qty⟩, ⟨"B", 100, 1⟩]

theorem landable_twoParcels {qty : ℚ} (h : 0 ≤ qty) : Landable (twoParcels qty) where
  keys := by simp [twoParcels]
  value_nonneg := by simp [twoParcels]
  qty_nonneg := by simp [twoParcels, h]
  some_pos := .inl ⟨⟨"B", 100, 1⟩, by simp [twoParcels], by norm_num⟩

/-- Parcels that are there take the freight whole. -/
theorem freight_landed :
    landedOn (twoParcels 4) (allocateLandedCost (twoParcels 4) "USD" [⟨"freight", 10⟩]) "freight" =
      roundMoney (poolOf "freight" [⟨"freight", 10⟩]) "USD" := by
  refine (landed_whole_iff (twoParcels 4) (landable_twoParcels (by norm_num)) [⟨"freight", 10⟩] "USD" "freight"
    (by decide +kernel)).2 ?_
  intro i g hg hqty
  rcases List.mem_pair.1 (List.mem_of_getElem? hg) with rfl | rfl <;> norm_num at hqty

/-- The half of the freight shared to goods without quantity reaches no goods. -/
theorem freight_lost :
    Landable (twoParcels 0) ∧ 0 < poolOf "freight" [⟨"freight", 10⟩] ∧
      roundMoney (poolOf "freight" [⟨"freight", 10⟩]) "USD" = 10 ∧
      landedOn (twoParcels 0) (allocateLandedCost (twoParcels 0) "USD" [⟨"freight", 10⟩]) "freight" = 5 :=
  ⟨landable_twoParcels le_rfl, by decide +kernel, by decide +kernel, by decide +kernel⟩

end

end Celerp
