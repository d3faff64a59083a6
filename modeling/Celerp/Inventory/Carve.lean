/-
  Carving a lot conserves its value.

  Whatever a lot keeps of its goods cost and of its pools is a whole number of
  minor units, and the part takes the exact difference.  A whole amount can be
  taken off before or after rounding, so the two lots round back to what the whole
  rounded to (`carve_rounds`), and so do the lots any tree of carves leaves
  (`carve_conserves`).
-/
import Celerp.Inventory.LotCost

namespace Celerp

/-! ## Pools -/

section
variable {pools : List (String × ℚ)} {f : String × ℚ → ℚ} {c : String}

theorem pool_map (key : String) :
    pool (pools.map fun p => (p.1, f p)) key =
      ((pools.find? (·.1 == key)).map f).getD 0 := by
  induction pools with
  | nil => rfl
  | cons p pools ih =>
    obtain ⟨k, v⟩ := p
    by_cases hk : key = k
    · subst hk
      simp [pool]
    · have hk' : ¬k = key := fun h => hk h.symm
      simpa [pool, List.lookup_cons, beq_eq_false_iff_ne.2 hk, hk'] using ih

theorem landed_map_add (g : String × ℚ → ℚ) :
    landed (pools.map fun p => (p.1, f p)) + landed (pools.map fun p => (p.1, g p)) =
      landed (pools.map fun p => (p.1, f p + g p)) := by
  simp [landed, List.map_map, Function.comp_def, List.sum_map_add]

theorem isWhole_landed (h : ∀ p ∈ pools, IsWhole c p.2) : IsWhole c (landed pools) :=
  IsWhole.sum fun v hv => by
    obtain ⟨p, hp, rfl⟩ := List.mem_map.1 hv
    exact h p hp

end

/-! ## What the lot keeps -/

theorem isWhole_keptShare (quantity partQty amount : ℚ) (c : String) :
    IsWhole c (keptShare quantity partQty amount c) := by
  unfold keptShare
  split_ifs
  · exact isWhole_zero c
  · cases h : allocateProRata amount [quantity - partQty, partQty] c with
    | nil => exact isWhole_zero c
    | cons v vs => exact isWhole_of_mem_allocateProRata (h ▸ List.mem_cons_self)

section
variable {s : LotCost} {q basis : ℚ} {c : String}

/-- What the lot keeps of its goods cost: what its rounded pools leave of the whole
    cost rounded once, or its own share. -/
def keptGoods (s : LotCost) (q basis : ℚ) (c : String) : ℚ :=
  let restLanded := landed (s.landedCosts.map fun p => (p.1, keptShare s.quantity q p.2 c))
  let once := roundBasis (keptShare s.quantity q (basis + landed s.landedCosts) c - restLanded)
  if 0 < basis ∧ 0 ≤ once ∧ once ≤ basis then once else keptShare s.quantity q basis c

theorem carve_restLanded (s : LotCost) (q : ℚ) (c : String) :
    (carve s q c).restLanded = s.landedCosts.map fun p => (p.1, keptShare s.quantity q p.2 c) := by
  unfold carve carveCost
  cases s.goodsBasis <;> simp [keptPool]

theorem carve_partLanded (s : LotCost) (q : ℚ) (c : String) :
    (carve s q c).partLanded =
      s.landedCosts.map fun p => (p.1, roundBasis (p.2 - keptShare s.quantity q p.2 c)) := by
  unfold carve carveCost
  cases s.goodsBasis <;> simp [keptPool]

theorem carve_restGoods (hb : s.goodsBasis = some basis) :
    (carve s q c).restGoods = some (keptGoods s q basis c) := by
  simp [carve, carveCost, hb, keptGoods, keptPool]

theorem carve_partGoods (hb : s.goodsBasis = some basis) :
    (carve s q c).partGoods = some (roundBasis (basis - keptGoods s q basis c)) := by
  simp [carve, carveCost, hb, keptGoods, keptPool]

theorem isWhole_restLanded (s : LotCost) (q : ℚ) (c : String) :
    ∀ p ∈ (carve s q c).restLanded, IsWhole c p.2 := by
  rw [carve_restLanded]
  intro p hp
  obtain ⟨p, -, rfl⟩ := List.mem_map.1 hp
  exact isWhole_keptShare _ _ _ _

theorem isWhole_keptGoods (s : LotCost) (q basis : ℚ) (c : String) :
    IsWhole c (keptGoods s q basis c) := by
  have hrest := isWhole_landed (isWhole_restLanded s q c)
  rw [carve_restLanded] at hrest
  have honce := (isWhole_keptShare s.quantity q (basis + landed s.landedCosts) c).sub hrest
  unfold keptGoods
  dsimp only
  rw [roundBasis_of_onBasis honce.onBasis]
  split_ifs
  · exact honce
  · exact isWhole_keptShare _ _ _ _

theorem onBasis_goodsBasis (hb : s.goodsBasis = some basis) : OnBasis basis := by
  obtain ⟨v, -, rfl⟩ := Option.map_eq_some_iff.1 hb
  exact onBasis_roundBasis v

/-! ## One carve -/

/-- The goods cost divides without loss. -/
theorem carve_goods (hb : s.goodsBasis = some basis) :
    ∃ part rest, (carve s q c).partGoods = some part ∧ (carve s q c).restGoods = some rest ∧
      part + rest = basis := by
  refine ⟨_, _, carve_partGoods hb, carve_restGoods hb, ?_⟩
  rw [roundBasis_sub_whole basis (isWhole_keptGoods s q basis c),
    roundBasis_of_onBasis (onBasis_goodsBasis hb), sub_add_cancel]

/-- Every landed pool divides without loss. -/
theorem carve_pool (s : LotCost) (q : ℚ) (c key : String) :
    pool (carve s q c).partLanded key + pool (carve s q c).restLanded key =
      pool (atBasis s.landedCosts) key := by
  rw [carve_partLanded, carve_restLanded, atBasis, pool_map, pool_map, pool_map]
  cases s.landedCosts.find? (·.1 == key) with
  | none => simp
  | some p =>
    simp only [Option.map_some, Option.getD_some]
    rw [roundBasis_sub_whole p.2 (isWhole_keptShare _ _ _ c), sub_add_cancel]

theorem carve_landed (s : LotCost) (q : ℚ) (c : String) :
    landed (carve s q c).partLanded + landed (carve s q c).restLanded =
      landed (atBasis s.landedCosts) := by
  rw [carve_partLanded, carve_restLanded, landed_map_add, atBasis]
  have hpool (p : String × ℚ) : roundBasis (p.2 - keptShare s.quantity q p.2 c) +
      keptShare s.quantity q p.2 c = roundBasis p.2 := by
    rw [roundBasis_sub_whole p.2 (isWhole_keptShare _ _ _ c), sub_add_cancel]
  simp only [hpool]

/-- The value of a lot whose amounts are kept at basis precision. -/
theorem value_costed {quantity goods : ℚ} {pools : List (String × ℚ)} {unknown : Bool}
    (hgoods : OnBasis goods) (hpools : ∀ p ∈ pools, OnBasis p.2) :
    (LotCost.costed quantity goods pools unknown).value = goods + landed pools := by
  have hself : atBasis pools = pools := by
    refine (List.map_congr_left fun p hp => ?_).trans (List.map_id pools)
    simp [roundBasis_of_onBasis (hpools p hp)]
  simp [LotCost.value, LotCost.goodsBasis, LotCost.costed, roundBasis_of_onBasis hgoods, hself]

theorem value_rest (hb : s.goodsBasis = some basis) :
    ((carve s q c).rest s q).value = keptGoods s q basis c + landed (carve s q c).restLanded := by
  rw [CostCarve.rest, carve_restGoods hb]
  exact value_costed (isWhole_keptGoods s q basis c).onBasis
    fun p hp => (isWhole_restLanded s q c p hp).onBasis

theorem roundBasis_sub_kept (hbasis : OnBasis basis) (hv : IsWhole c v) :
    roundBasis (basis - v) = basis - v := by
  rw [roundBasis_sub_whole basis hv, roundBasis_of_onBasis hbasis]

theorem value_part (hb : s.goodsBasis = some basis) :
    ((carve s q c).part q).value =
      basis - keptGoods s q basis c + landed (carve s q c).partLanded := by
  have hgoods := roundBasis_sub_kept (onBasis_goodsBasis hb) (isWhole_keptGoods s q basis c)
  rw [CostCarve.part, carve_partGoods hb, Option.getD_some, hgoods]
  refine value_costed (hgoods ▸ onBasis_roundBasis _) fun p hp => ?_
  rw [carve_partLanded] at hp
  obtain ⟨p, -, rfl⟩ := List.mem_map.1 hp
  exact onBasis_roundBasis _

theorem carve_value (hb : s.goodsBasis = some basis) :
    ((carve s q c).part q).value + ((carve s q c).rest s q).value = s.value := by
  have hlanded := carve_landed s q c
  rw [value_part hb, value_rest hb, LotCost.value, hb, Option.getD_some]
  linarith

/-- The part and the lot round back to what the whole rounded to. -/
theorem carve_rounds (hb : s.goodsBasis = some basis)
    (hpart : 0 ≤ ((carve s q c).part q).value) (hrest : 0 ≤ ((carve s q c).rest s q).value) :
    roundMoney ((carve s q c).part q).value c + roundMoney ((carve s q c).rest s q).value c =
      roundMoney s.value c := by
  have htotal := carve_value (q := q) (c := c) hb
  have hwhole : IsWhole c ((carve s q c).rest s q).value := by
    rw [value_rest hb]
    exact (isWhole_keptGoods s q basis c).add (isWhole_landed (isWhole_restLanded s q c))
  have hpartEq : ((carve s q c).part q).value = s.value - ((carve s q c).rest s q).value := by
    linarith
  rw [roundMoney_of_isWhole hwhole, hpartEq,
    roundMoney_sub (by linarith) hwhole (by linarith), sub_add_cancel]

end

/-! ## A tree of carves -/

/-- The lots successive carves leave of a lot: each carves off part of what a lot
    holds, and both values stay nonnegative. -/
inductive Splits (c : String) : LotCost → List LotCost → Prop where
  | whole (s : LotCost) : Splits c s [s]
  | carved {s : LotCost} {q : ℚ} {ps rs : List LotCost} :
      0 < q → q < s.quantity →
      0 ≤ ((carve s q c).part q).value → 0 ≤ ((carve s q c).rest s q).value →
      Splits c ((carve s q c).part q) ps → Splits c ((carve s q c).rest s q) rs →
      Splits c s (ps ++ rs)

theorem goodsBasis_costed (quantity goods : ℚ) (pools : List (String × ℚ)) (unknown : Bool) :
    (LotCost.costed quantity goods pools unknown).goodsBasis = some (roundBasis goods) := rfl

theorem splits_rounds {c : String} {s : LotCost} {lots : List LotCost} (h : Splits c s lots)
    {basis : ℚ} (hb : s.goodsBasis = some basis) :
    (lots.map fun l => roundMoney l.value c).sum = roundMoney s.value c := by
  induction h generalizing basis with
  | whole s => simp
  | @carved s q ps rs _ _ hpart hrest _ _ ihPart ihRest =>
    rw [List.map_append, List.sum_append, ihPart (goodsBasis_costed _ _ _ _),
      ihRest (goodsBasis_costed _ _ _ _)]
    exact carve_rounds hb hpart hrest

/-- **Carving conserves cost.**  A carve divides the goods cost and every landed
    pool without loss, its two lots round back to the whole while both are worth
    at least nothing, and the lots any tree of such carves leaves round back to the
    lot it started from; all at the precision a cost basis is kept in. -/
theorem carve_conserves (c : String) (s : LotCost) (basis : ℚ) (hb : s.goodsBasis = some basis) :
    (∀ q, 0 < q → q < s.quantity →
      (∃ part rest, (carve s q c).partGoods = some part ∧ (carve s q c).restGoods = some rest ∧
        part + rest = basis) ∧
      (∀ key, pool (carve s q c).partLanded key + pool (carve s q c).restLanded key =
        pool (atBasis s.landedCosts) key) ∧
      (0 ≤ ((carve s q c).part q).value → 0 ≤ ((carve s q c).rest s q).value →
        roundMoney ((carve s q c).part q).value c + roundMoney ((carve s q c).rest s q).value c =
          roundMoney s.value c)) ∧
    ∀ lots, Splits c s lots →
      (lots.map fun l => roundMoney l.value c).sum = roundMoney s.value c :=
  ⟨fun q _ _ => ⟨carve_goods hb, carve_pool s q c, carve_rounds hb⟩, fun _ h => splits_rounds h hb⟩

/-- A lot of three at ten, with a freight pool of one. -/
def freightLot : LotCost := .costed 3 10 [("bill:1::freight", 1)] false

theorem freightLot_conserves :
    roundMoney ((carve freightLot 1 "USD").part 1).value "USD" +
        roundMoney ((carve freightLot 1 "USD").rest freightLot 1).value "USD" =
      roundMoney freightLot.value "USD" :=
  ((carve_conserves "USD" freightLot 10 (by decide +kernel)).1 1 (by norm_num)
    (by decide +kernel)).2.2 (by decide +kernel) (by decide +kernel)

/-- A lot of two without goods value, whose freight pool runs past the precision of
    a cost basis. -/
def finePool : LotCost := .costed 2 0 [("bill:1::freight", 499999999996 / 10 ^ 14)] false

/-- Below that precision the pool does not divide without loss, and the unrounded
    values of the two lots come to another cent than the whole. -/
theorem finePool_loses :
    pool (carve finePool 1 "USD").partLanded "bill:1::freight" +
        pool (carve finePool 1 "USD").restLanded "bill:1::freight" ≠
      pool finePool.landedCosts "bill:1::freight" ∧
    roundMoney (landed (carve finePool 1 "USD").partLanded) "USD" +
        roundMoney (landed (carve finePool 1 "USD").restLanded) "USD" ≠
      roundMoney (landed finePool.landedCosts) "USD" := by
  constructor <;> decide +kernel

end Celerp
