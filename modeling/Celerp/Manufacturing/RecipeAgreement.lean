/-
  Costing and explosion refuse the same recipes, up to one level of nesting.

  Both recursions are a guarded descent through the graph of components: the
  roll-up stops at items that are not made, the explosion looks at every item.
  Hence (`rollUp_raises_iff`, `explode_raises_iff`) a roll-up refuses an item that
  some chain of `MAX_RECIPE_DEPTH + 1` components leads to a made item from, an
  explosion one such a chain leads anywhere from, and both one with a quantity
  within the limit that is nothing or less.
-/
import Celerp.Lib.Descent
import Celerp.Lib.Outcome
import Celerp.Manufacturing.Recipe

namespace Celerp

open Descent Outcome

/-! ## The graph of components -/

section
variable (lookup : ItemLookup)

/-- The component lines of an item: none where it is not made. -/
def componentsOf (item : String) : List Component :=
  ((made (lookup item)).map (·.components)).getD []

/-- The items an item is made from. -/
def madeFrom (item : String) : List String := (componentsOf lookup item).map (·.itemId)

/-- An item that is not made from a recipe. -/
def Raw (item : String) : Prop := made (lookup item) = none

/-- An item whose recipe yields something and uses something of each component. -/
def WellQuantified (item : String) : Prop :=
  ∀ recipe, made (lookup item) = some recipe →
    0 < recipe.outputQty.getD 1 ∧ ∀ comp ∈ recipe.components, 0 < comp.quantity

/-- A chain of `n` components leads from the item to one that is made. -/
def NestsMade (n : ℕ) (item : String) : Prop := Deep (madeFrom lookup) (Raw lookup) n item

/-- A chain of `n` components leads from the item. -/
def Nests (n : ℕ) (item : String) : Prop := Deep (madeFrom lookup) (fun _ => False) n item

/-- Within `n` levels the item's recipe states a quantity that is nothing or less. -/
def Misquantified (n : ℕ) (item : String) : Prop :=
  Flawed (madeFrom lookup) (Raw lookup) (WellQuantified lookup) n item

/-- Every component line of the items' recipes names an item. -/
def NamesItems : Prop := ∀ item, ∀ comp ∈ componentsOf lookup item, comp.itemId ≠ ""

end

section
variable {lookup : ItemLookup} {R : Rounds} {item : String} {recipe : Recipe}

theorem componentsOf_made (h : made (lookup item) = some recipe) :
    componentsOf lookup item = recipe.components := by simp [componentsOf, h]

theorem componentsOf_raw (h : made (lookup item) = none) : componentsOf lookup item = [] := by
  simp [componentsOf, h]

theorem wellQuantified_made (h : made (lookup item) = some recipe) :
    WellQuantified lookup item ↔
      0 < recipe.outputQty.getD 1 ∧ ∀ comp ∈ recipe.components, 0 < comp.quantity := by
  simp [WellQuantified, h]

theorem succeeds_outputQuantity : Succeeds (outputQuantity recipe) ↔ 0 < recipe.outputQty.getD 1 := by
  unfold outputQuantity
  dsimp only
  split_ifs with h <;> simp [h]

theorem succeeds_componentQuantity {comp : Component} :
    Succeeds (componentQuantity comp lookup) ↔ 0 < comp.quantity := by
  unfold componentQuantity
  split_ifs with h
  · simp [h]
  · cases (stated comp.sku).or (productName (lookup comp.itemId)) <;> simp [h]

/-- What is not made neither nests nor states a quantity, so that stopping there or
    not makes no difference to what is flawed. -/
theorem flawed_all_iff : ∀ {n : ℕ} {item : String},
    Flawed (madeFrom lookup) (fun _ => False) (WellQuantified lookup) n item ↔
      Misquantified lookup n item
  | 0, _ => Iff.rfl
  | n + 1, item => by
    simp only [Misquantified, Flawed, not_false_eq_true, true_and]
    cases h : made (lookup item) with
    | none =>
      have hsound : WellQuantified lookup item := fun r hr => by simp [h] at hr
      simp [Raw, h, hsound, madeFrom, componentsOf_raw h]
    | some recipe =>
      have hraw : ¬Raw lookup item := by simp [Raw, h]
      simp only [hraw, not_false_eq_true, true_and]
      refine or_congr_right (exists_congr fun w => and_congr_right fun _ => ?_)
      exact flawed_all_iff

/-! ## The roll-up -/

theorem succeeds_unitCost {rollUp : Recipe → Except RecipeError RollUp} {state : Option Product} :
    Succeeds (unitCost rollUp state) ↔ ∀ r, made state = some r → Succeeds (rollUp r) := by
  unfold unitCost
  cases made state <;> simp

theorem succeeds_costLine {path : List String} {rollUp : Recipe → Except RecipeError RollUp}
    {comp : Component} : Succeeds (costLine lookup path rollUp comp) ↔
      comp.itemId ∉ path ∧ (∀ r, made (lookup comp.itemId) = some r → Succeeds (rollUp r)) ∧
        0 < comp.quantity := by
  rw [costLine, succeeds_guard, succeeds_bind_and (P := 0 < comp.quantity), succeeds_unitCost]
  intro cost
  rw [succeeds_bind_and (P := True) (by simp), succeeds_componentQuantity, and_true]

/-- The roll-up of a made item is a descent that stops at items that are not made. -/
theorem succeeds_rollUpCost : ∀ {left : ℕ} {path : List String} {item : String} {recipe : Recipe},
    made (lookup item) = some recipe →
    (Succeeds (rollUpCost R lookup left path recipe) ↔
      Accepts (madeFrom lookup) (Raw lookup) (WellQuantified lookup) left path item)
  | 0, _, _, _, _ => by simp [rollUpCost, Accepts]
  | left + 1, path, item, recipe, h => by
    have hline : ∀ comp : Component,
        Succeeds (costLine lookup path (rollUpCost R lookup left (comp.itemId :: path)) comp) ↔
          comp.itemId ∉ path ∧ (Raw lookup comp.itemId ∨
            Accepts (madeFrom lookup) (Raw lookup) (WellQuantified lookup) left
              (comp.itemId :: path) comp.itemId) ∧ 0 < comp.quantity := by
      intro comp
      rw [succeeds_costLine]
      cases hc : made (lookup comp.itemId) with
      | none => simp [Raw, hc]
      | some r => simp [Raw, hc, succeeds_rollUpCost hc]
    rw [rollUpCost, succeeds_bind_and (P := 0 < recipe.outputQty.getD 1), succeeds_mapM]
    · simp only [hline, Accepts, wellQuantified_made h, madeFrom, componentsOf_made h,
        List.forall_mem_map]
      constructor
      · rintro ⟨hlines, hout⟩
        exact ⟨⟨hout, fun c hc => (hlines c hc).2.2⟩,
          fun c hc => ⟨(hlines c hc).1, (hlines c hc).2.1⟩⟩
      · rintro ⟨⟨hout, hqty⟩, hcomps⟩
        exact ⟨fun c hc => ⟨(hcomps c hc).1, (hcomps c hc).2, hqty c hc⟩, hout⟩
    · intro lines
      rw [succeeds_bind_and (P := True) (by simp), succeeds_outputQuantity, and_true]

/-! ## The explosion -/

theorem succeeds_walkLine {path : List String} {factor : ℚ} {acc : Exploded} {comp : Component}
    {walk : List String → String → ℚ → Exploded → Except RecipeError Exploded} {P : Prop}
    (hname : comp.itemId ≠ "")
    (hwalk : ∀ qty, Succeeds (walk (comp.itemId :: path) comp.itemId qty acc) ↔ P) :
    Succeeds (walkLine lookup path factor walk acc comp) ↔
      comp.itemId ∉ path ∧ 0 < comp.quantity ∧ P := by
  rw [walkLine, if_neg hname, succeeds_guard, succeeds_bind_and fun need => hwalk (need * factor),
    succeeds_componentQuantity]

/-- The explosion of an item is a descent that looks at every item. -/
theorem succeeds_walk (hnames : NamesItems lookup) :
    ∀ {left : ℕ} {path : List String} {item : String} {qty : ℚ} {acc : Exploded},
    Succeeds (walk lookup left path item qty acc) ↔
      Accepts (madeFrom lookup) (fun _ => False) (WellQuantified lookup) left path item
  | 0, _, _, _, _ => by simp [walk, Accepts]
  | left + 1, path, item, qty, acc => by
    simp only [walk, Accepts, false_or]
    cases h : made (lookup item) with
    | none =>
      have hsound : WellQuantified lookup item := fun r hr => by simp [h] at hr
      simp [madeFrom, componentsOf_raw h, hsound]
    | some recipe =>
      have hline : ∀ factor, ∀ comp ∈ recipe.components, ∀ acc,
          Succeeds (walkLine lookup path factor (walk lookup left) acc comp) ↔
            comp.itemId ∉ path ∧ 0 < comp.quantity ∧
              Accepts (madeFrom lookup) (fun _ => False) (WellQuantified lookup) left
                (comp.itemId :: path) comp.itemId := by
        intro factor comp hcomp acc
        refine succeeds_walkLine (hnames item comp ?_) fun qty => succeeds_walk hnames
        rwa [componentsOf_made h]
      rw [succeeds_bind_and fun outputQty => succeeds_foldlM (hline (qty / outputQty)),
        succeeds_outputQuantity]
      simp only [wellQuantified_made h, madeFrom, componentsOf_made h, List.forall_mem_map]
      constructor
      · rintro ⟨hout, hlines⟩
        exact ⟨⟨hout, fun c hc => (hlines c hc).2.1⟩,
          fun c hc => ⟨(hlines c hc).1, (hlines c hc).2.2⟩⟩
      · rintro ⟨⟨hout, hqty⟩, hcomps⟩
        exact ⟨hout, fun c hc => ⟨(hcomps c hc).1, hqty c hc, (hcomps c hc).2⟩⟩

theorem succeeds_explodeDemand (hmade : made (lookup item) = some recipe) {qty : ℚ} :
    Succeeds (explodeDemand R lookup [(item, qty)]) ↔
      Succeeds (walk lookup (MAX_RECIPE_DEPTH + 1) [item] item qty ⟨[], []⟩) := by
  rw [explodeDemand, succeeds_bind_and (P := True) (by simp), and_true, List.foldlM_cons,
    succeeds_bind_and (P := True) (by simp), and_true, explodeLine, hmade]
  cases walk lookup (MAX_RECIPE_DEPTH + 1) [item] item qty ⟨[], []⟩ <;> simp

/-! ## What each refuses -/

/-- A roll-up refuses a recipe that nests sub-assemblies too deep, or that states a
    quantity that is nothing or less. -/
theorem rollUp_raises_iff (hmade : made (lookup item) = some recipe) {path : List String}
    (hpath : path ⊆ [item]) :
    Raises (rollUpCost R lookup (MAX_RECIPE_DEPTH + 1) path recipe) ↔
      NestsMade lookup (MAX_RECIPE_DEPTH + 1) item ∨
        Misquantified lookup (MAX_RECIPE_DEPTH + 1) item := by
  have hraw : ¬Raw lookup item := by simp [Raw, hmade]
  have hleads : ∀ p ∈ path, Relation.ReflTransGen (Leads (madeFrom lookup) (Raw lookup)) p item := by
    intro p hp
    obtain rfl := List.mem_singleton.1 (hpath hp)
    exact Relation.ReflTransGen.refl
  rw [raises_iff, succeeds_rollUpCost hmade, accepts_iff hraw hleads, ← not_or, not_not]
  exact Iff.rfl

/-- An explosion refuses an item that nests components too deep, or whose recipe
    states a quantity that is nothing or less. -/
theorem explode_raises_iff (hnames : NamesItems lookup) (hmade : made (lookup item) = some recipe)
    {qty : ℚ} :
    Raises (explodeDemand R lookup [(item, qty)]) ↔
      Nests lookup (MAX_RECIPE_DEPTH + 1) item ∨
        Misquantified lookup (MAX_RECIPE_DEPTH + 1) item := by
  have hleads : ∀ p ∈ [item],
      Relation.ReflTransGen (Leads (madeFrom lookup) fun _ => False) p item := by
    intro p hp
    obtain rfl := List.mem_singleton.1 hp
    exact Relation.ReflTransGen.refl
  rw [raises_iff, succeeds_explodeDemand hmade, succeeds_walk hnames, accepts_iff id hleads,
    ← not_or, not_not, flawed_all_iff]
  exact Iff.rfl

theorem nests_of_nestsMade : ∀ {n : ℕ} {item : String}, NestsMade lookup n item → Nests lookup n item
  | 0, _, _ => id
  | _ + 1, _, ⟨_, w, hw, h⟩ => ⟨id, w, hw, nests_of_nestsMade h⟩

/-- **Costing and explosion refuse the same recipes** exactly where a chain of
    `MAX_RECIPE_DEPTH + 1` components from the item means that one of them leads to
    a made item, or that a quantity within the limit is nothing or less. -/
theorem refusals_agree_iff (R : Rounds) (lookup : ItemLookup) (hnames : NamesItems lookup)
    (item : String) (recipe : Recipe) (hmade : made (lookup item) = some recipe)
    (path : List String) (hpath : path ⊆ [item]) (qty : ℚ) :
    (Raises (rollUpCost R lookup (MAX_RECIPE_DEPTH + 1) path recipe) ↔
        Raises (explodeDemand R lookup [(item, qty)])) ↔
      (Nests lookup (MAX_RECIPE_DEPTH + 1) item →
        NestsMade lookup (MAX_RECIPE_DEPTH + 1) item ∨
          Misquantified lookup (MAX_RECIPE_DEPTH + 1) item) := by
  rw [rollUp_raises_iff hmade hpath, explode_raises_iff hnames hmade]
  have hmono : NestsMade lookup (MAX_RECIPE_DEPTH + 1) item →
      Nests lookup (MAX_RECIPE_DEPTH + 1) item := nests_of_nestsMade
  tauto

end

/-! ## The level they differ by -/

/-- What makes one unit from one unit of a component. -/
def oneOf (component : String) : Recipe where
  components := [⟨component, 1, none⟩]
  labor := []
  overhead := []
  outputQty := none

/-- A chain of products named by how far down they are: `depth` of them are made, each
    from the next, and those below are raw. -/
def chain (depth : ℕ) : ItemLookup := fun item =>
  some ⟨none, .costed 1 5 [] false, if item.toList.length ≤ depth then some (oneOf (item.push 'a'))
    else none⟩

theorem namesItems_chain (depth : ℕ) : NamesItems (chain depth) := by
  intro item comp hcomp
  cases hmade : made (chain depth item) with
  | none => simp [componentsOf_raw hmade] at hcomp
  | some recipe =>
    rw [componentsOf_made hmade] at hcomp
    have hrecipe : recipe = oneOf (item.push 'a') := by
      simp only [made, chain, Option.bind_some, Option.filter_eq_some_iff] at hmade
      split_ifs at hmade with hd
      · exact (Option.some.inj hmade.1).symm
      · simp at hmade
    subst hrecipe
    obtain rfl : comp = ⟨item.push 'a', 1, none⟩ := by simpa [oneOf] using hcomp
    simp

/-- A product of one raw component is costed and exploded alike. -/
theorem refusals_agree_chain :
    Raises (rollUpCost (.ofCurrency "USD") (chain 1) (MAX_RECIPE_DEPTH + 1) [] (oneOf "aa")) ↔
      Raises (explodeDemand (.ofCurrency "USD") (chain 1) [("a", 1)]) := by
  refine (refusals_agree_iff (.ofCurrency "USD") (chain 1) (namesItems_chain 1) "a" (oneOf "aa")
    (by decide +kernel) [] (by simp) 1).2 ?_
  rintro ⟨-, w, hw, -, w', hw', -⟩
  have hmade : madeFrom (chain 1) "a" = ["aa"] := by decide +kernel
  have hraw : madeFrom (chain 1) "aa" = [] := by decide +kernel
  obtain rfl : w = "aa" := by simpa [hmade] using hw
  simp [hraw] at hw'

/-- `MAX_RECIPE_DEPTH` levels of sub-assemblies below a product can be costed, but not
    exploded: the raw item they end in counts as one level more. -/
theorem chain_costed_not_exploded :
    NamesItems (chain (MAX_RECIPE_DEPTH + 1)) ∧
      Succeeds (rollUpCost (.ofCurrency "USD") (chain (MAX_RECIPE_DEPTH + 1)) (MAX_RECIPE_DEPTH + 1)
        [] (oneOf "aa")) ∧
      Raises (explodeDemand (.ofCurrency "USD") (chain (MAX_RECIPE_DEPTH + 1)) [("a", 1)]) :=
  ⟨namesItems_chain _, by decide +kernel, by decide +kernel⟩

end Celerp
