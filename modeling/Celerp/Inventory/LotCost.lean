/-
  The cost of a lot and its division (`celerp_inventory/services.py`,
  `celerp_inventory/projections.py`, `celerp/services/lot_origin.py`).

  A lot carries a goods cost and landed-cost pools, one for each source bill and
  kind.  `carveCost` is `carve_cost`, the one division of a lot's cost when part of
  it becomes a lot of its own; `Splits` are the lots successive carves leave.
-/
import Celerp.Money

namespace Celerp

/-! ## The cost fields of a lot -/

/-- The cost fields of an item's state. -/
structure LotCost where
  quantity : ℚ
  costBase : Option ℚ
  costTotal : Option ℚ
  costPrice : Option ℚ
  /-- the landed pools, keyed `<source_bill_id>::<kind>` -/
  landedCosts : List (String × ℚ)
  goodsCostUnknown : Bool
  deriving DecidableEq, Repr

/-- The amount of one landed pool. -/
def pool (pools : List (String × ℚ)) (key : String) : ℚ := (pools.lookup key).getD 0

/-- What the landed pools come to. -/
def landed (pools : List (String × ℚ)) : ℚ := (pools.map Prod.snd).sum

/-- The pools at the precision a cost basis is kept in. -/
def atBasis (pools : List (String × ℚ)) : List (String × ℚ) :=
  pools.map fun p => (p.1, roundBasis p.2)

namespace LotCost

/-- `goods_basis`: the goods cost before landed cost, if the lot has a cost. -/
def goodsBasis (s : LotCost) : Option ℚ := (s.costBase.or s.costTotal).map roundBasis

/-- `goods_cost_known` -/
def goodsCostKnown (s : LotCost) : Bool :=
  !s.goodsCostUnknown && (s.goodsBasis.isSome || s.costPrice.isSome && s.quantity ≤ 0)

/-- `recorded_value`: the cost total, else the unit cost times the quantity, else
    nothing. -/
def recordedValue (s : LotCost) : ℚ :=
  if s.costTotal.getD 0 ≠ 0 then s.costTotal.getD 0 else s.costPrice.getD 0 * s.quantity

/-- The value of a lot: its goods cost and its landed pools, at the precision a
    cost basis is kept in. -/
def value (s : LotCost) : ℚ := s.goodsBasis.getD 0 + landed (atBasis s.landedCosts)

/-- The state of a lot once its goods cost is written and `_recompute_cost` has
    derived the rest. -/
def costed (quantity goods : ℚ) (pools : List (String × ℚ)) (unknown : Bool) : LotCost where
  quantity := quantity
  costBase := some goods
  costTotal := some (roundBasis (goods + roundBasis (landed pools)))
  costPrice := none
  landedCosts := pools
  goodsCostUnknown := unknown

end LotCost

/-! ## Carving -/

/-- `CostCarve`: a lot's cost divided between a part leaving it and what the lot
    keeps. -/
structure CostCarve where
  partGoods : Option ℚ
  partLanded : List (String × ℚ)
  restGoods : Option ℚ
  restLanded : List (String × ℚ)
  known : Bool
  deriving DecidableEq, Repr

/-- The bill a landed pool's key names (`k.partition("::")[0]`). -/
def sourceBill (key : String) : String := (key.splitOn "::").headD ""

/-- `kept`: the share of an amount the lot keeps when `partQty` leaves it. -/
def keptShare (quantity partQty amount : ℚ) (currency : String) : ℚ :=
  if quantity ≤ 0 then 0
  else (allocateProRata amount [quantity - partQty, partQty] currency).headD 0

/-- What the lot keeps of one landed pool: its quantity share, or what the amount
    named for the part leaves of it. -/
def keptPool (quantity partQty : ℚ) (currency : String) (landedPart : List (String × ℚ))
    (key : String) (v : ℚ) : ℚ :=
  match landedPart.lookup key with
  | some n => roundBasis (v - min v (max n 0))
  | none => keptShare quantity partQty v currency

/-- `carve_cost`: `partQty` of the lot becomes a lot of its own.  The lot keeps its
    quantity share of the goods cost and of every landed pool, each in whole minor
    units, and the part takes the difference.  When the whole lot divides by
    quantity, its whole cost is rounded once and the goods take what the rounded
    pools leave of that. -/
def carveCost (s : LotCost) (partQty : ℚ) (currency : String) (partGoods : Option ℚ)
    (landedOf : Option String) (landedPart : List (String × ℚ)) : CostCarve :=
  let kept (amount : ℚ) : ℚ := keptShare s.quantity partQty amount currency
  let divided (key : String) : Bool := landedOf = none ∨ landedOf = some (sourceBill key)
  let rest (p : String × ℚ) : ℚ :=
    if divided p.1 then keptPool s.quantity partQty currency landedPart p.1 p.2 else p.2
  let restLanded := s.landedCosts.map fun p => (p.1, rest p)
  let partLanded :=
    (s.landedCosts.filter (divided ·.1)).map fun p => (p.1, roundBasis (p.2 - rest p))
  match s.goodsBasis, partGoods with
  | none, _ => ⟨none, partLanded, none, restLanded, s.goodsCostKnown⟩
  | some basis, some goods =>
    ⟨some (roundBasis goods), partLanded, some (roundBasis (basis - roundBasis goods)), restLanded,
      s.goodsCostKnown⟩
  | some basis, none =>
    let once := roundBasis (kept (basis + landed s.landedCosts) - landed restLanded)
    let rest :=
      if (landedOf = none ∧ landedPart = [] ∧ 0 < basis) ∧ 0 ≤ once ∧ once ≤ basis then once
      else kept basis
    ⟨some (roundBasis (basis - rest)), partLanded, some rest, restLanded, s.goodsCostKnown⟩

/-- `carve_cost` with its default arguments. -/
def carve (s : LotCost) (partQty : ℚ) (currency : String) : CostCarve :=
  carveCost s partQty currency none none []

/-- The lot the part becomes. -/
def CostCarve.part (v : CostCarve) (partQty : ℚ) : LotCost :=
  .costed partQty (v.partGoods.getD 0) v.partLanded !v.known

/-- The lot that is left. -/
def CostCarve.rest (v : CostCarve) (s : LotCost) (partQty : ℚ) : LotCost :=
  .costed (s.quantity - partQty) (v.restGoods.getD 0) v.restLanded s.goodsCostUnknown

end Celerp
