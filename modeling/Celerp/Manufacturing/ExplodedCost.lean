/-
  Explosion multiplies out the recipe costing reads.

  What a unit of an item is worth, given what each raw item is, is a function of its
  own (`worth`): the worth of its components over what a batch yields.

  * `rollUp_worth`: the unit cost of a roll-up is the worth at the raw items' unit
    costs;
  * `walk_worth`: whatever weighs the raw demand by item, the explosion of a quantity
    adds that many times the worth at those weights; read at the unit costs this is
    what the roll-up reports, read at a single item it makes the demand of each line
    independent of those before it.
-/
import Celerp.Manufacturing.RecipeAgreement
import Mathlib.Algebra.BigOperators.Ring.List

namespace Celerp

open Descent Outcome

/-- The rounding functions of exact arithmetic. -/
def Rounds.exact : Rounds where
  money := id
  rate := id
  quantity := id

/-! ## The worth of an item -/

section
variable (f : String → ℚ) (lookup : ItemLookup)

/-- What a unit of an item made within `n` levels is worth, a unit of a raw item `i`
    being worth `f i`. -/
def worth : ℕ → String → ℚ
  | 0, item => f item
  | n + 1, item =>
    match made (lookup item) with
    | none => f item
    | some recipe =>
      (recipe.components.map fun comp => comp.quantity * worth n comp.itemId).sum /
        recipe.outputQty.getD 1

/-- The unit cost of an item that is not made, if it is known. -/
def leafCost (item : String) : Option ℚ := (lookup item).bind leafUnitCost

/-- The item graphs that can be costed and exploded by materials alone. -/
structure Costable : Prop where
  named : lookup "" = none
  within : ∀ item, ¬Nests lookup (MAX_RECIPE_DEPTH + 1) item
  quantified : ∀ item, WellQuantified lookup item
  unburdened : ∀ item recipe, made (lookup item) = some recipe →
    recipe.labor = [] ∧ recipe.overhead = []
  known : ∀ item, ∀ comp ∈ componentsOf lookup item, Raw lookup comp.itemId →
    (leafCost lookup comp.itemId).isSome

end

section
variable {f : String → ℚ} {lookup : ItemLookup} {item : String} {recipe : Recipe} {n : ℕ}

theorem worth_raw (h : made (lookup item) = none) : worth f lookup n item = f item := by
  cases n with
  | zero => rfl
  | succ n => simp only [worth, h]

theorem worth_made (h : made (lookup item) = some recipe) : worth f lookup (n + 1) item =
    (recipe.components.map fun comp => comp.quantity * worth f lookup n comp.itemId).sum /
      recipe.outputQty.getD 1 := by
  simp only [worth, h]

theorem outputQuantity_eq {q : ℚ} (h : outputQuantity recipe = .ok q) :
    q = recipe.outputQty.getD 1 := by
  simp only [outputQuantity] at h
  split_ifs at h
  exact (Except.ok.inj h).symm

theorem componentQuantity_eq {comp : Component} {q : ℚ}
    (h : componentQuantity comp lookup = .ok q) : q = comp.quantity := by
  unfold componentQuantity at h
  split_ifs at h
  · exact (Except.ok.inj h).symm
  · cases hsku : (stated comp.sku).or (productName (lookup comp.itemId)) <;> simp [hsku] at h

theorem not_misquantified (hquantified : ∀ item, WellQuantified lookup item) (n : ℕ) (item : String) :
    ¬Misquantified lookup n item := by
  induction n generalizing item with
  | zero => exact id
  | succ n ih =>
    rintro ⟨-, hns | ⟨w, -, hw⟩⟩
    · exact hns (hquantified item)
    · exact ih w hw

/-- Within the depth limit, a graph of well quantified items rolls up. -/
theorem succeeds_rollUp_within {R : Rounds} (hwithin : ∀ item, ¬Nests lookup (MAX_RECIPE_DEPTH + 1) item)
    (hquantified : ∀ item, WellQuantified lookup item) (hmade : made (lookup item) = some recipe)
    {path : List String} (hpath : path ⊆ [item]) :
    Succeeds (rollUpCost R lookup (MAX_RECIPE_DEPTH + 1) path recipe) := by
  by_contra hno
  rcases (rollUp_raises_iff hmade hpath).1 ((raises_iff _).2 hno) with hdeep | hflaw
  · exact hwithin item (nests_of_nestsMade hdeep)
  · exact not_misquantified hquantified _ item hflaw

namespace Costable
variable (h : Costable lookup)
include h

/-- An item without an id is not there, so its cost could not be known. -/
theorem namesItems : NamesItems lookup := by
  intro item comp hcomp hid
  have hraw : Raw lookup comp.itemId := by simp [Raw, hid, h.named, made]
  have hknown := h.known item comp hcomp hraw
  simp [leafCost, hid, h.named] at hknown

theorem succeeds_walk (item : String) (qty : ℚ) (acc : Exploded) :
    Succeeds (walk lookup (MAX_RECIPE_DEPTH + 1) [item] item qty acc) := by
  have hleads : ∀ p ∈ [item],
      Relation.ReflTransGen (Leads (madeFrom lookup) fun _ => False) p item := by
    intro p hp
    obtain rfl := List.mem_singleton.1 hp
    exact Relation.ReflTransGen.refl
  rw [Celerp.succeeds_walk h.namesItems, accepts_iff id hleads, flawed_all_iff]
  exact ⟨h.within item, not_misquantified h.quantified _ item⟩

end Costable

/-! ## The roll-up -/

/-- A component line costs what its component is worth. -/
theorem costLine_worth {path : List String} {rollUp : Recipe → Except RecipeError RollUp}
    {comp : Component} {line : ℚ × Option ℚ} {w : ℚ}
    (hraw : Raw lookup comp.itemId → leafCost lookup comp.itemId = some w)
    (hmade : ∀ r rolled, made (lookup comp.itemId) = some r → rollUp r = .ok rolled →
      rolled.unitCost = some w)
    (hline : costLine lookup path rollUp comp = .ok line) : line = (comp.quantity, some w) := by
  unfold costLine at hline
  split_ifs at hline
  obtain ⟨cost, hcost, hline⟩ := bind_eq_ok.1 hline
  obtain ⟨qty, hqty, hline⟩ := bind_eq_ok.1 hline
  obtain rfl : (qty, cost) = line := by simpa [pure, Except.pure] using hline
  rw [componentQuantity_eq hqty]
  congr 1
  unfold unitCost at hcost
  cases hc : made (lookup comp.itemId) with
  | none =>
    rw [hc] at hcost
    rw [← Except.ok.inj hcost]
    exact hraw hc
  | some r =>
    rw [hc] at hcost
    cases hr : rollUp r with
    | error refusal =>
      simp only [hr] at hcost
      cases hcost
    | ok rolled =>
      simp only [hr] at hcost
      rw [← Except.ok.inj hcost]
      exact hmade r rolled hc hr

theorem mapM_lineCost {ι : Type} (q w : ι → ℚ) (l : List ι) :
    (l.map fun i => (q i, some (w i))).mapM lineCost = some (l.map fun i => q i * w i) := by
  induction l with
  | nil => rfl
  | cons i l ih => simp [List.mapM_cons, ih, lineCost]

/-- A roll-up whose components cost `w` is the breakdown of the recipe at these costs. -/
theorem rollUp_breakdown {R : Rounds} {left : ℕ} {path : List String} {rolled : RollUp} {w : Component → ℚ}
    (hraw : ∀ comp ∈ recipe.components, Raw lookup comp.itemId → leafCost lookup comp.itemId = some (w comp))
    (hmade : ∀ comp ∈ recipe.components, ∀ r rolled, made (lookup comp.itemId) = some r →
      rollUpCost R lookup left (comp.itemId :: path) r = .ok rolled → rolled.unitCost = some (w comp))
    (hroll : rollUpCost R lookup (left + 1) path recipe = .ok rolled) :
    rolled = breakdown R recipe (recipe.components.map fun comp => (comp.quantity, some (w comp)))
      (recipe.outputQty.getD 1) := by
  rw [rollUpCost, bind_eq_ok] at hroll
  obtain ⟨lines, hlines, hroll⟩ := hroll
  obtain ⟨outputQty, hout, hroll⟩ := bind_eq_ok.1 hroll
  obtain rfl : breakdown R recipe lines outputQty = rolled := by
    simpa [pure, Except.pure] using hroll
  have hline : ∀ comp ∈ recipe.components, ∀ line,
      costLine lookup path (rollUpCost R lookup left (comp.itemId :: path)) comp = .ok line →
        line = (comp.quantity, some (w comp)) := by
    intro comp hcomp line hline
    exact costLine_worth (hraw comp hcomp) (fun r rolled hr => hmade comp hcomp r rolled hr) hline
  rw [← outputQuantity_eq hout, ← map_of_mapM_eq_ok hline hlines, List.map_id']

/-- The unit cost of a recipe whose components cost `w`. -/
theorem breakdown_unitCost (R : Rounds) (recipe : Recipe) (w : Component → ℚ) (outputQty : ℚ) :
    (breakdown R recipe (recipe.components.map fun comp => (comp.quantity, some (w comp))) outputQty).unitCost =
      some (R.rate (((recipe.components.map fun comp => comp.quantity * w comp).sum +
        (recipe.labor.map laborLineCost).sum + recipe.overhead.sum) / outputQty)) := by
  unfold breakdown
  dsimp only
  rw [mapM_lineCost (fun comp : Component => comp.quantity) w]
  rfl

/-- **A roll-up reports the worth of the item** at the unit costs of the raw items. -/
theorem Costable.rollUp_worth (h : Costable lookup) (hf : ∀ i u, leafCost lookup i = some u → f i = u) :
    ∀ {left : ℕ} {path : List String} {item : String} {recipe : Recipe} {rolled : RollUp},
    made (lookup item) = some recipe → rollUpCost .exact lookup left path recipe = .ok rolled →
    rolled.unitCost = some (worth f lookup left item)
  | 0, _, _, _, _, _, hroll => by cases hroll
  | left + 1, path, item, recipe, rolled, hmade, hroll => by
    have hraw : ∀ comp ∈ recipe.components, Raw lookup comp.itemId →
        leafCost lookup comp.itemId = some (worth f lookup left comp.itemId) := by
      intro comp hcomp hraw
      rw [← componentsOf_made hmade] at hcomp
      obtain ⟨u, hu⟩ := Option.isSome_iff_exists.1 (h.known item comp hcomp hraw)
      rw [hu, worth_raw hraw, hf _ _ hu]
    obtain ⟨hlabor, hoverhead⟩ := h.unburdened item recipe hmade
    rw [rollUp_breakdown hraw
      (fun comp _ r rolled hr => h.rollUp_worth hf hr) hroll, breakdown_unitCost, worth_made hmade, hlabor,
      hoverhead, List.map_nil, List.sum_nil, add_zero, add_zero]
    rfl

/-! ## The explosion -/

/-- A reading of a demand that weighs each item by `f`. -/
structure Weighs (φ : Demand → ℚ) (f : String → ℚ) : Prop where
  nil : φ [] = 0
  add : ∀ item qty demand, φ (addDemand item qty demand) = φ demand + qty * f item

/-- What a demand holds of an item (`dict.get(item, 0)`). -/
def demandFor (item : String) (demand : Demand) : ℚ := (demand.lookup item).getD 0

/-- What a demand is worth, a unit of item `i` being worth `f i`. -/
def demandWorth (f : String → ℚ) (demand : Demand) : ℚ := (demand.map fun p => p.2 * f p.1).sum

theorem weighs_demandWorth : Weighs (demandWorth f) f where
  nil := rfl
  add item qty demand := by
    induction demand with
    | nil => simp [addDemand, demandWorth]
    | cons p rest ih =>
      obtain ⟨i, q⟩ := p
      unfold addDemand
      split_ifs with hi
      · subst hi
        simp only [demandWorth, List.map_cons, List.sum_cons]
        ring
      · simp only [demandWorth, List.map_cons, List.sum_cons] at ih ⊢
        rw [ih, add_assoc]

theorem demandFor_cons {i : String} {q : ℚ} {rest : Demand} :
    demandFor item ((i, q) :: rest) = if i = item then q else demandFor item rest := by
  unfold demandFor
  by_cases hi : i = item
  · subst hi
    simp
  · rw [List.lookup_cons, if_neg hi, beq_false_of_ne (Ne.symm hi)]

theorem weighs_demandFor (item : String) :
    Weighs (demandFor item) fun i => if i = item then 1 else 0 where
  nil := rfl
  add i qty demand := by
    induction demand with
    | nil =>
      rw [addDemand, demandFor_cons]
      split_ifs <;> simp [demandFor]
    | cons p rest ih =>
      obtain ⟨j, q⟩ := p
      unfold addDemand
      split_ifs with hj hi hi
      · rw [demandFor_cons, demandFor_cons, if_pos (hj.trans hi), if_pos (hj.trans hi), mul_one]
      · subst hj
        rw [demandFor_cons, demandFor_cons, if_neg hi, if_neg hi, mul_zero, add_zero]
      · rw [demandFor_cons, demandFor_cons, ih, if_neg fun h => hj (h.trans hi.symm), if_pos hi,
          if_neg fun h => hj (h.trans hi.symm)]
      · rw [demandFor_cons, demandFor_cons, ih, if_neg hi, mul_zero, add_zero, add_zero]

/-- **An explosion multiplies out the recipe**: it adds the worth of the quantity, at
    whatever weights the raw demand is read. -/
theorem walk_worth {φ : Demand → ℚ} (hφ : Weighs φ f) (hnames : NamesItems lookup) :
    ∀ {left : ℕ} {path : List String} {item : String} {qty : ℚ} {acc acc' : Exploded},
    walk lookup left path item qty acc = .ok acc' →
    φ acc'.rawMaterials = φ acc.rawMaterials + qty * worth f lookup left item
  | 0, _, _, _, _, _, h => by cases h
  | left + 1, path, item, qty, acc, acc', h => by
    unfold walk at h
    cases hmade : made (lookup item) with
    | none =>
      rw [hmade] at h
      rw [← Except.ok.inj h, worth_raw hmade]
      exact hφ.add item qty acc.rawMaterials
    | some recipe =>
      simp only [hmade] at h
      obtain ⟨outputQty, hout, h⟩ := bind_eq_ok.1 h
      have hline : ∀ comp ∈ recipe.components, ∀ a a',
          walkLine lookup path (qty / outputQty) (walk lookup left) a comp = .ok a' →
            φ a'.rawMaterials = φ a.rawMaterials +
              comp.quantity * (qty / outputQty) * worth f lookup left comp.itemId := by
        intro comp hcomp a a' hwalk
        rw [← componentsOf_made hmade] at hcomp
        rw [walkLine, if_neg (hnames item comp hcomp)] at hwalk
        split_ifs at hwalk
        obtain ⟨need, hneed, hwalk⟩ := bind_eq_ok.1 hwalk
        rw [walk_worth hφ hnames hwalk, componentQuantity_eq hneed]
      have hsum := add_of_foldlM_eq_ok (φ := fun a : Exploded => φ a.rawMaterials) hline h
      have hscale : ∀ comp : Component,
          comp.quantity * (qty / outputQty) * worth f lookup left comp.itemId =
            qty / outputQty * (comp.quantity * worth f lookup left comp.itemId) := by
        intro comp
        ring
      simp only [hscale, List.sum_map_mul_left] at hsum
      rw [hsum, worth_made hmade, ← outputQuantity_eq hout]
      ring

theorem forall_addDemand {P : String → Prop} {qty : ℚ} (hitem : P item) : ∀ {demand : Demand},
    (∀ p ∈ demand, P p.1) → ∀ p ∈ addDemand item qty demand, P p.1
  | [], _ => by simpa [addDemand] using hitem
  | (i, q) :: rest, h => by
    rw [List.forall_mem_cons] at h
    unfold addDemand
    split_ifs
    · exact List.forall_mem_cons.2 h
    · exact List.forall_mem_cons.2 ⟨h.1, forall_addDemand hitem h.2⟩

/-- An explosion reports raw items of known cost. -/
theorem Costable.walk_known (h : Costable lookup) :
    ∀ {left : ℕ} {path : List String} {item : String} {qty : ℚ} {acc acc' : Exploded},
    walk lookup left path item qty acc = .ok acc' →
    (Raw lookup item → (leafCost lookup item).isSome) →
    (∀ p ∈ acc.rawMaterials, (leafCost lookup p.1).isSome) →
    ∀ p ∈ acc'.rawMaterials, (leafCost lookup p.1).isSome
  | 0, _, _, _, _, _, hwalk, _, _ => by cases hwalk
  | left + 1, path, item, qty, acc, acc', hwalk, hitem, hacc => by
    unfold walk at hwalk
    cases hmade : made (lookup item) with
    | none =>
      rw [hmade] at hwalk
      rw [← Except.ok.inj hwalk]
      exact forall_addDemand (P := fun i => (leafCost lookup i).isSome) (hitem hmade) hacc
    | some recipe =>
      simp only [hmade] at hwalk
      obtain ⟨outputQty, -, hwalk⟩ := bind_eq_ok.1 hwalk
      refine keeps_of_foldlM_eq_ok
        (I := fun a : Exploded => ∀ p ∈ a.rawMaterials, (leafCost lookup p.1).isSome)
        (fun comp hcomp a a' hline ha => ?_) hwalk hacc
      rw [← componentsOf_made hmade] at hcomp
      rw [walkLine, if_neg (h.namesItems item comp hcomp)] at hline
      split_ifs at hline
      obtain ⟨need, -, hline⟩ := bind_eq_ok.1 hline
      exact h.walk_known hline (h.known item comp hcomp) ha

theorem explodeDemand_exact (lines : List (String × ℚ)) :
    explodeDemand .exact lookup lines = lines.foldlM (explodeLine lookup) ⟨[], []⟩ := by
  have hid : ∀ acc : Exploded, (⟨acc.subAssemblies.map fun p => (p.1, Rounds.exact.quantity p.2),
      acc.rawMaterials.map fun p => (p.1, Rounds.exact.quantity p.2)⟩ : Exploded) = acc := by
    intro acc
    show Exploded.mk (acc.subAssemblies.map id) (acc.rawMaterials.map id) = acc
    rw [List.map_id, List.map_id]
  simp only [explodeDemand, hid, bind_pure]

/-- What a demand line is worth: nothing where its item is not made. -/
def lineWorth (f : String → ℚ) (lookup : ItemLookup) (line : String × ℚ) : ℚ :=
  match made (lookup line.1) with
  | none => 0
  | some _ => line.2 * worth f lookup (MAX_RECIPE_DEPTH + 1) line.1

theorem explodeLine_worth {φ : Demand → ℚ} (hφ : Weighs φ f) (hnames : NamesItems lookup)
    {acc acc' : Exploded} {line : String × ℚ} (h : explodeLine lookup acc line = .ok acc') :
    φ acc'.rawMaterials = φ acc.rawMaterials + lineWorth f lookup line := by
  unfold explodeLine at h
  unfold lineWorth
  cases hmade : made (lookup line.1) with
  | none =>
    rw [hmade] at h
    rw [← Except.ok.inj h, add_zero]
  | some recipe =>
    simp only [hmade] at h ⊢
    split at h
    · next heq => rw [← Except.ok.inj h, walk_worth hφ hnames heq]
    · cases h

/-- The raw demand of a list of lines weighs what its lines are worth together. -/
theorem explodeDemand_worth {φ : Demand → ℚ} (hφ : Weighs φ f) (hnames : NamesItems lookup)
    {lines : List (String × ℚ)} {demand : Exploded}
    (h : explodeDemand .exact lookup lines = .ok demand) :
    φ demand.rawMaterials = (lines.map (lineWorth f lookup)).sum := by
  rw [explodeDemand_exact] at h
  rw [add_of_foldlM_eq_ok (φ := fun a : Exploded => φ a.rawMaterials) (f := explodeLine lookup)
    (fun line _ a a' => explodeLine_worth hφ hnames) h, hφ.nil, zero_add]

namespace Costable
variable (h : Costable lookup)
include h

theorem succeeds_explodeLine (acc : Exploded) (line : String × ℚ) :
    Succeeds (explodeLine lookup acc line) := by
  unfold explodeLine
  cases made (lookup line.1) with
  | none => exact succeeds_ok _
  | some recipe =>
    obtain ⟨acc', hacc'⟩ := h.succeeds_walk line.1 line.2 acc
    simp only [hacc', succeeds_ok]

theorem succeeds_explodeDemand (lines : List (String × ℚ)) :
    Succeeds (explodeDemand .exact lookup lines) := by
  rw [explodeDemand_exact]
  refine (succeeds_foldlM (P := fun _ => True) fun line _ acc => ?_).2 fun _ _ => trivial
  exact iff_of_true (h.succeeds_explodeLine acc line) trivial

theorem explodeDemand_known {lines : List (String × ℚ)} {demand : Exploded}
    (hdemand : explodeDemand .exact lookup lines = .ok demand) :
    ∀ p ∈ demand.rawMaterials, (leafCost lookup p.1).isSome := by
  rw [explodeDemand_exact] at hdemand
  refine keeps_of_foldlM_eq_ok
    (I := fun a : Exploded => ∀ p ∈ a.rawMaterials, (leafCost lookup p.1).isSome)
    (fun line _ a a' hline ha => ?_) hdemand (by simp)
  unfold explodeLine at hline
  cases hmade : made (lookup line.1) with
  | none =>
    rw [hmade] at hline
    rwa [← Except.ok.inj hline]
  | some recipe =>
    simp only [hmade] at hline
    split at hline
    · next heq =>
      rw [← Except.ok.inj hline]
      exact h.walk_known heq (fun hraw => by simp [Raw, hmade] at hraw) ha
    · cases hline

end Costable

/-- Where each line's item is of known cost, the lines cost what they are worth. -/
theorem mapM_lineCost_of_known : ∀ {demand : Demand},
    (∀ p ∈ demand, (leafCost lookup p.1).isSome) →
    (demand.mapM fun p => lineCost (p.2, leafCost lookup p.1)).map List.sum =
      some (demandWorth (fun i => (leafCost lookup i).getD 0) demand)
  | [], _ => rfl
  | p :: rest, h => by
    rw [List.forall_mem_cons] at h
    obtain ⟨u, hu⟩ := Option.isSome_iff_exists.1 h.1
    obtain ⟨costs, hcosts, hsum⟩ := Option.map_eq_some_iff.1 (mapM_lineCost_of_known h.2)
    have hp : lineCost (p.2, leafCost lookup p.1) = some (p.2 * u) := by simp [lineCost, hu]
    rw [List.mapM_cons, hp, hcosts]
    show some (List.sum (p.2 * u :: costs)) = _
    rw [List.sum_cons, hsum]
    simp [demandWorth, hu]

/-- **Explosion multiplies out the recipe costing reads.**  In exact arithmetic, a
    quantity of a made item at its rolled-up unit cost comes to the raw materials of
    its explosion at theirs; and the raw demand of a list of lines is, in whatever
    order they come, that of each line added up. -/
theorem exploded_cost (lookup : ItemLookup) (h : Costable lookup) :
    (∀ item recipe path qty, made (lookup item) = some recipe → path ⊆ [item] → 0 < qty →
      ∃ rolled unit demand,
        rollUpCost .exact lookup (MAX_RECIPE_DEPTH + 1) path recipe = .ok rolled ∧
        rolled.unitCost = some unit ∧
        explodeDemand .exact lookup [(item, qty)] = .ok demand ∧
        (demand.rawMaterials.mapM fun p => lineCost (p.2, leafCost lookup p.1)).map List.sum =
          some (qty * unit)) ∧
    ∃ single : String × ℚ → Exploded,
      (∀ line, explodeDemand .exact lookup [line] = .ok (single line)) ∧
      ∀ lines order : List (String × ℚ), order.Perm lines →
        ∃ demand, explodeDemand .exact lookup order = .ok demand ∧
          ∀ item, demandFor item demand.rawMaterials =
            (lines.map fun line => demandFor item (single line).rawMaterials).sum := by
  constructor
  · intro item recipe path qty hmade hpath _
    obtain ⟨rolled, hrolled⟩ := succeeds_rollUp_within (R := .exact) h.within h.quantified hmade hpath
    obtain ⟨demand, hdemand⟩ := h.succeeds_explodeDemand [(item, qty)]
    have hcost : ∀ i u, leafCost lookup i = some u → (leafCost lookup i).getD 0 = u := by
      intro i u hu
      simp [hu]
    refine ⟨rolled, _, demand, hrolled, h.rollUp_worth hcost hmade hrolled, hdemand, ?_⟩
    rw [mapM_lineCost_of_known (h.explodeDemand_known hdemand),
      explodeDemand_worth weighs_demandWorth h.namesItems hdemand]
    simp [lineWorth, hmade]
  · choose single hsingle using fun line => h.succeeds_explodeDemand [line]
    refine ⟨single, hsingle, fun lines order horder => ?_⟩
    obtain ⟨demand, hdemand⟩ := h.succeeds_explodeDemand order
    refine ⟨demand, hdemand, fun item => ?_⟩
    have hline : ∀ line, demandFor item (single line).rawMaterials =
        lineWorth (fun i => if i = item then 1 else 0) lookup line := by
      intro line
      rw [explodeDemand_worth (weighs_demandFor item) h.namesItems (hsingle line)]
      simp
    rw [explodeDemand_worth (weighs_demandFor item) h.namesItems hdemand, funext hline]
    exact (horder.map _).sum_eq

end

/-! ## A shared sub-assembly -/

/-- A recipe of components alone. -/
def ofComponents (components : List (String × ℚ)) (outputQty : ℚ) : Recipe where
  components := components.map fun p => ⟨p.1, p.2, none⟩
  labor := []
  overhead := []
  outputQty := some outputQty

/-- A lot of a raw item. -/
def rawProduct (quantity goods : ℚ) : Product := ⟨none, .costed quantity goods [] false, none⟩

def madeProduct (recipe : Recipe) : Product :=
  ⟨none, ⟨0, none, none, none, [], false⟩, some recipe⟩

def cake : Recipe := ofComponents [("cream", 2), ("base", 1)] 4

def cakeBase : Recipe := ofComponents [("sugar", 2), ("cream", 1)] 1

def cream : Recipe := ofComponents [("sugar", 1), ("milk", 3)] 2

/-- Cake, of cream and of a base that takes cream as well. -/
def bakery : ItemLookup
  | "cake" => some (madeProduct cake)
  | "base" => some (madeProduct cakeBase)
  | "cream" => some (madeProduct cream)
  | "sugar" => some (rawProduct 10 30)
  | "milk" => some (rawProduct 4 2)
  | _ => none

/-- How far up the bakery's graph an item is. -/
def bakeryRank : String → ℕ
  | "cake" => 3
  | "base" => 2
  | "cream" => 1
  | _ => 0

theorem made_bakery (h : made (bakery item) = some recipe) :
    (item, recipe) ∈ [("cake", cake), ("base", cakeBase), ("cream", cream)] := by
  unfold bakery at h
  split at h
  · obtain rfl : cake = recipe := Option.some.inj h
    simp
  · obtain rfl : cakeBase = recipe := Option.some.inj h
    simp
  · obtain rfl : cream = recipe := Option.some.inj h
    simp
  all_goals cases h

theorem bakery_components : ∀ p ∈ [("cake", cake), ("base", cakeBase), ("cream", cream)],
    0 < p.2.outputQty.getD 1 ∧ p.2.labor = [] ∧ p.2.overhead = [] ∧
      ∀ comp ∈ p.2.components, 0 < comp.quantity ∧ bakeryRank comp.itemId < bakeryRank p.1 ∧
        (made (bakery comp.itemId) = none → (leafCost bakery comp.itemId).isSome) := by
  decide +kernel

theorem costable_bakery : Costable bakery where
  named := by decide +kernel
  within item hdeep := by
    have hrank : ∀ v, ∀ w ∈ madeFrom bakery v, bakeryRank w < bakeryRank v := by
      intro v w hw
      obtain ⟨comp, hcomp, rfl⟩ := List.mem_map.1 hw
      cases hmade : made (bakery v) with
      | none => simp [componentsOf_raw hmade] at hcomp
      | some recipe =>
        rw [componentsOf_made hmade] at hcomp
        exact ((bakery_components _ (made_bakery hmade)).2.2.2 comp hcomp).2.1
    have hle := hdeep.le_rank hrank
    have hmax : bakeryRank item ≤ 3 := by
      unfold bakeryRank
      split <;> decide
    simp only [MAX_RECIPE_DEPTH] at hle
    omega
  quantified item recipe hmade := by
    obtain ⟨hout, -, -, hcomps⟩ := bakery_components _ (made_bakery hmade)
    exact ⟨hout, fun comp hcomp => (hcomps comp hcomp).1⟩
  unburdened item recipe hmade := by
    obtain ⟨-, hlabor, hoverhead, -⟩ := bakery_components _ (made_bakery hmade)
    exact ⟨hlabor, hoverhead⟩
  known item comp hcomp hraw := by
    cases hmade : made (bakery item) with
    | none => simp [componentsOf_raw hmade] at hcomp
    | some recipe =>
      rw [componentsOf_made hmade] at hcomp
      exact ((bakery_components _ (made_bakery hmade)).2.2.2 comp hcomp).2.2 hraw

/-- Twelve cakes, and the two creams of their recipe costed once each. -/
theorem exploded_cost_bakery :
    ∃ rolled unit demand,
      rollUpCost .exact bakery (MAX_RECIPE_DEPTH + 1) ["cake"] cake = .ok rolled ∧
      rolled.unitCost = some unit ∧
      explodeDemand .exact bakery [("cake", 12)] = .ok demand ∧
      (demand.rawMaterials.mapM fun p => lineCost (p.2, leafCost bakery p.1)).map List.sum =
        some (12 * unit) :=
  (exploded_cost bakery costable_bakery).1 "cake" cake ["cake"] 12 (by decide +kernel) (by simp)
    (by norm_num)

end Celerp
