/-
  Recipes (`celerp_manufacturing/costing.py`, `celerp_manufacturing/expansion.py`):
  the cost of a made item rolled up from its components, and the explosion of
  demand into the components it needs.

  Both recursions go through the graph of sub-assemblies a lookup of items gives,
  carry the items they came through, and stop at `MAX_RECIPE_DEPTH`:

  * `rollUpCost` is `roll_up_cost` (with `unit_cost`), counting the levels it may
    still go down in place of `_depth`;
  * `walk` is the `_walk` of `explode_demand`, and `explodeDemand` the whole.

  The rounding functions are a parameter (`Rounds`), `Rounds.ofCurrency` the code's.
-/
import Celerp.Inventory.LotCost

namespace Celerp

/-! ## Recipes -/

def MAX_RECIPE_DEPTH : ℕ := 32

/-- A component line of a recipe. -/
structure Component where
  itemId : String
  quantity : ℚ
  sku : Option String
  deriving DecidableEq, Repr

inductive LaborKind where
  | hourly | daily | fixed
  deriving DecidableEq, Repr

/-- A labor line: a flat amount, or hours at a rate. -/
structure LaborLine where
  kind : Option LaborKind
  amount : ℚ
  hours : ℚ
  rate : ℚ
  deriving DecidableEq, Repr

structure Recipe where
  components : List Component
  labor : List LaborLine
  overhead : List ℚ
  outputQty : Option ℚ
  deriving DecidableEq, Repr

/-- An item, as far as its recipe and its cost go. -/
structure Product where
  sku : Option String
  cost : LotCost
  recipe : Option Recipe
  deriving DecidableEq, Repr

/-- Resolves an item's state. -/
abbrev ItemLookup := String → Option Product

/-- The rounding functions of a roll-up and an explosion. -/
structure Rounds where
  money : ℚ → ℚ
  rate : ℚ → ℚ
  quantity : ℚ → ℚ

/-- The rounding functions of the code. -/
def Rounds.ofCurrency (currency : String) : Rounds where
  money := (roundMoney · currency)
  rate := (roundRate · currency)
  quantity := (roundDigits · 6)

/-! ## Refusals -/

/-- `RecipeError`: a cyclic or too deeply nested recipe graph, or a recipe that
    cannot make anything.  A product is named by its SKU, if it has one. -/
inductive RecipeError where
  | tooDeep (depth : ℕ)
  | cycle (product : Option String)
  | outputQuantity
  | componentQuantityUnnamed
  | componentQuantity (sku : String)
  | productRecipe (product : Option String) (refusal : RecipeError)
  deriving DecidableEq, Repr

/-- The text of a state's key, blank text being none (`get(key) or ...`). -/
def stated (text : Option String) : Option String := text.filter (· ≠ "")

/-- `product_name` -/
def productName (item : Option Product) : Option String := item.bind (stated ·.sku)

/-- `english_name` -/
def englishName (product : Option String) : String := product.getD "This product"

def RecipeError.message : RecipeError → String
  | tooDeep depth => s!"Sub-assemblies are nested more than {depth} levels deep"
  | cycle product =>
    s!"{englishName product} is used in its own recipe, directly or through a sub-assembly"
  | outputQuantity => "A recipe's output quantity must be greater than zero"
  | componentQuantityUnnamed => "A component's quantity must be greater than zero"
  | componentQuantity sku => s!"Component {sku} quantity must be greater than zero"
  | productRecipe product refusal => s!"{englishName product}: {refusal.message}"

/-- `too_deep` -/
def tooDeep : RecipeError := .tooDeep MAX_RECIPE_DEPTH

/-- `used_in_itself` -/
def usedInItself (item : Option Product) : RecipeError := .cycle (productName item)

/-- `for_product`: a refusal naming the product whose recipe it is. -/
def forProduct (item : Option Product) (refusal : RecipeError) : RecipeError :=
  .productRecipe (productName item) refusal

/-- `output_quantity`: what one batch yields, 1 when the recipe does not say. -/
def outputQuantity (recipe : Recipe) : Except RecipeError ℚ :=
  let qty := recipe.outputQty.getD 1
  if 0 < qty then .ok qty else .error .outputQuantity

/-- `component_quantity`: how much of a component a batch uses. -/
def componentQuantity (comp : Component) (lookup : ItemLookup) : Except RecipeError ℚ :=
  if 0 < comp.quantity then .ok comp.quantity
  else match (stated comp.sku).or (productName (lookup comp.itemId)) with
    | some sku => .error (.componentQuantity sku)
    | none => .error .componentQuantityUnnamed

/-! ## Cost -/

/-- `_labor_line_cost` -/
def laborLineCost (line : LaborLine) : ℚ :=
  if line.kind = some .fixed then line.amount else line.hours * line.rate

/-- `_leaf_unit_cost`: the unit cost of an item that is not made, if it is known. -/
def leafUnitCost (item : Product) : Option ℚ :=
  if item.cost.goodsCostKnown then
    match item.cost.costTotal with
    | some total => if item.cost.quantity ≠ 0 then some (total / item.cost.quantity)
        else item.cost.costPrice
    | none => item.cost.costPrice
  else none

/-- The recipe an item is made from: one with components (`is_manufacturable`). -/
def made (item : Option Product) : Option Recipe :=
  (item.bind (·.recipe)).filter (·.components ≠ [])

/-- What a roll-up gives: the costs, and the unit and line cost each component line
    is annotated with. -/
structure RollUp where
  materialsCost : Option ℚ
  laborCost : ℚ
  overheadCost : ℚ
  unitCost : Option ℚ
  annotations : List (Option ℚ × Option ℚ)
  deriving DecidableEq, Repr

/-- The cost of a component line before rounding: its quantity and its unit cost, if
    that is known. -/
def lineCost (line : ℚ × Option ℚ) : Option ℚ := line.2.map (line.1 * ·)

/-- The breakdown of a recipe whose component lines are costed. -/
def breakdown (R : Rounds) (recipe : Recipe) (lines : List (ℚ × Option ℚ)) (outputQty : ℚ) :
    RollUp :=
  let materials := (lines.mapM lineCost).map List.sum
  let labor := (recipe.labor.map laborLineCost).sum
  let overhead := recipe.overhead.sum
  { materialsCost := materials.map R.money
    laborCost := R.money labor
    overheadCost := R.money overhead
    unitCost := materials.map fun m => R.rate ((m + labor + overhead) / outputQty)
    annotations := lines.map fun line => (line.2.map R.rate, (lineCost line).map R.money) }

/-- `unit_cost`: the rolled cost of an item that is made, else its leaf cost. -/
def unitCost (rollUp : Recipe → Except RecipeError RollUp) (item : Option Product) :
    Except RecipeError (Option ℚ) :=
  match made item with
  | some recipe => (·.unitCost) <$> rollUp recipe
  | none => .ok (item.bind leafUnitCost)

/-- One component line of a roll-up that came through the items of `path`, its child
    costed by `rollUp`. -/
def costLine (lookup : ItemLookup) (path : List String)
    (rollUp : Recipe → Except RecipeError RollUp) (comp : Component) :
    Except RecipeError (ℚ × Option ℚ) :=
  if comp.itemId ∈ path then .error (usedInItself (lookup comp.itemId))
  else do
    let childCost ← unitCost rollUp (lookup comp.itemId)
    let qty ← componentQuantity comp lookup
    pure (qty, childCost)

/-- `roll_up_cost`, which may go `left` levels down (`_depth` levels being used of
    `MAX_RECIPE_DEPTH + 1`) and came through the items of `path`. -/
def rollUpCost (R : Rounds) (lookup : ItemLookup) :
    ℕ → List String → Recipe → Except RecipeError RollUp
  | 0, _, _ => .error tooDeep
  | left + 1, path, recipe => do
    let lines ← recipe.components.mapM fun comp =>
      costLine lookup path (rollUpCost R lookup left (comp.itemId :: path)) comp
    let outputQty ← outputQuantity recipe
    pure (breakdown R recipe lines outputQty)

/-! ## Explosion -/

/-- Demand by item, in the order the items came up. -/
abbrev Demand := List (String × ℚ)

/-- Add to the demand for an item. -/
def addDemand (item : String) (qty : ℚ) : Demand → Demand
  | [] => [(item, qty)]
  | (i, q) :: rest => if i = item then (i, q + qty) :: rest else (i, q) :: addDemand item qty rest

/-- What an explosion gathers: sub-assemblies and raw materials. -/
structure Exploded where
  subAssemblies : Demand
  rawMaterials : Demand
  deriving DecidableEq, Repr

/-- One component line of an explosion that came through the items of `path`: `walk`
    explodes what `factor` batches need of it. -/
def walkLine (lookup : ItemLookup) (path : List String) (factor : ℚ)
    (walk : List String → String → ℚ → Exploded → Except RecipeError Exploded) (acc : Exploded)
    (comp : Component) : Except RecipeError Exploded :=
  if comp.itemId = "" then .ok acc
  else if comp.itemId ∈ path then .error (usedInItself (lookup comp.itemId))
  else do
    let need ← componentQuantity comp lookup
    walk (comp.itemId :: path) comp.itemId (need * factor) acc

/-- `_walk`: explode `qty` of an item, which may go `left` levels down and came
    through the items of `path`. -/
def walk (lookup : ItemLookup) :
    ℕ → List String → String → ℚ → Exploded → Except RecipeError Exploded
  | 0, _, _, _, _ => .error tooDeep
  | left + 1, path, item, qty, acc =>
    match made (lookup item) with
    | none => .ok { acc with rawMaterials := addDemand item qty acc.rawMaterials }
    | some recipe => do
      let outputQty ← outputQuantity recipe
      recipe.components.foldlM (walkLine lookup path (qty / outputQty) (walk lookup left))
        { acc with subAssemblies := addDemand item qty acc.subAssemblies }

/-- One demand line: an item that is not made needs nothing. -/
def explodeLine (lookup : ItemLookup) (acc : Exploded) (line : String × ℚ) :
    Except RecipeError Exploded :=
  match made (lookup line.1) with
  | none => .ok acc
  | some _ =>
    match walk lookup (MAX_RECIPE_DEPTH + 1) [line.1] line.1 line.2 acc with
    | .ok acc => .ok acc
    | .error refusal => .error (forProduct (lookup line.1) refusal)

/-- `explode_demand` -/
def explodeDemand (R : Rounds) (lookup : ItemLookup) (lines : List (String × ℚ)) :
    Except RecipeError Exploded := do
  let acc ← lines.foldlM (explodeLine lookup) ⟨[], []⟩
  pure ⟨acc.subAssemblies.map fun p => (p.1, R.quantity p.2),
    acc.rawMaterials.map fun p => (p.1, R.quantity p.2)⟩

end Celerp
