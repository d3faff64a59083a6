/-
  The cost fields of an item agree.

  Whatever an event writes to the cost of an item, it either derives the rest with
  `recomputeCost` (`coherent_recomputeCost`) or leaves the cost fields alone
  (`costFields`).  So after any run of events an item with a goods cost states the
  landed pools' sum, the total of both, and no unit cost beside them
  (`cost_coherent`), unless a price was set under the name of one of these fields.
-/
import Celerp.Inventory.Item
import Celerp.Lib.Runs

namespace Celerp

namespace ItemState

/-- What a state with a goods cost says beside it. -/
def Coherent (round : ℚ → ℚ) (s : ItemState) : Prop :=
  ∀ base, s.costBase = some base →
    s.costLanded = some (round (landed s.landedCosts)) ∧
      s.costTotal = some (round (base + round (landed s.landedCosts))) ∧ s.costPrice = none

/-- The cost fields of a state. -/
def costFields (s : ItemState) : (Option ℚ × Option ℚ × Option ℚ × Option ℚ) × Pools × Pools :=
  ((s.costBase, s.costTotal, s.costPrice, s.costLanded), s.landedCosts, s.landedContributions)

variable {round : ℚ → ℚ} {s s' : ItemState}

theorem Coherent.congr (h : s.Coherent round) (heq : s'.costFields = s.costFields) :
    s'.Coherent round := by
  simp only [costFields, Prod.mk.injEq] at heq
  obtain ⟨⟨hbase, htotal, hprice, hlanded⟩, hpools, -⟩ := heq
  rw [Coherent, hbase, htotal, hprice, hlanded, hpools]
  exact h

theorem coherent_recomputeCost (s : ItemState) : (s.recomputeCost round).Coherent round := by
  intro base hbase
  unfold recomputeCost at hbase ⊢
  cases hrec : s.recomputedBase round with
  | none =>
    -- the state is left alone, and had no goods cost
    simp only [hrec] at hbase
    simp [recomputedBase, hbase] at hrec
  | some derived =>
    simp only [hrec] at hbase
    obtain rfl := Option.some.inj hbase
    simp only [and_self]

/-! ## Operations that leave the cost fields alone -/

@[simp] theorem stampStatusDoc_costFields (doc : StatusDoc) :
    (s.stampStatusDoc doc).costFields = s.costFields := by
  unfold stampStatusDoc
  split <;> rfl

@[simp] theorem setStatus_costFields (status : String) (doc : StatusDoc) :
    (s.setStatus status doc).costFields = s.costFields := by
  unfold setStatus
  rw [stampStatusDoc_costFields]
  rfl

/-! ## Amounts per unit -/

theorem landedContributions_of_costFields (h : s'.costFields = s.costFields) :
    s'.landedContributions = s.landedContributions := congrArg (·.2.2) h

/-- Without amounts per unit, an event finds the state as it is. -/
theorem landedPoolsFromUnits_of_nil (h : s.landedContributions = []) : s.landedPoolsFromUnits = s := by
  unfold landedPoolsFromUnits
  rw [h, List.foldl_nil]
  cases s
  subst h
  rfl

@[simp] theorem recomputeCost_landedContributions :
    (s.recomputeCost round).landedContributions = s.landedContributions := by
  unfold recomputeCost
  cases s.recomputedBase round <;> rfl

@[simp] theorem migrateSellBy_landedContributions :
    s.migrateSellBy.landedContributions = s.landedContributions := by
  unfold migrateSellBy
  split_ifs <;> rfl

/-! ## Operations that derive them -/

/-- The cost fields are those `recomputeCost` derives in some state, the amounts per
    unit being those of `s`. -/
def Derives (round : ℚ → ℚ) (s s' : ItemState) : Prop :=
  ∃ t : ItemState, t.landedContributions = s.landedContributions ∧
    s'.costFields = (t.recomputeCost round).costFields

theorem derives_recomputeCost {t : ItemState} (h : t.landedContributions = s.landedContributions) :
    Derives round s (t.recomputeCost round) := ⟨t, h, rfl⟩

theorem Derives.coherent (h : Derives round s s') : s'.Coherent round := by
  obtain ⟨t, -, heq⟩ := h
  exact (coherent_recomputeCost t).congr heq

theorem Derives.landedContributions (h : Derives round s s') :
    s'.landedContributions = s.landedContributions := by
  obtain ⟨t, ht, heq⟩ := h
  rw [landedContributions_of_costFields heq, recomputeCost_landedContributions, ht]

theorem derives_applyGoodsCost (field : GoodsField) (value : Option ℚ) (unknown : Bool) :
    Derives round s (s.applyGoodsCost round field value unknown) :=
  ⟨s.stateGoodsCost round field value, rfl, rfl⟩

theorem derives_setQuantity (newQty : ℚ) (costBase : Option ℚ) (landedCosts : Option Pools) :
    Derives round s (s.setQuantity round newQty costBase landedCosts) := by
  unfold setQuantity
  cases costBase with
  | some base => exact derives_recomputeCost rfl
  | none =>
    dsimp only
    split_ifs <;> exact derives_recomputeCost rfl

theorem edit_landedContributions (field : ItemField) :
    (s.edit field).landedContributions = s.landedContributions := by
  cases field with
  | status v => exact landedContributions_of_costFields (setStatus_costFields v {})
  | _ => rfl

theorem foldl_edit_landedContributions (fields : List ItemField) :
    (fields.foldl edit s).landedContributions = s.landedContributions := by
  induction fields generalizing s with
  | nil => rfl
  | cons field fields ih => rw [List.foldl_cons, ih, edit_landedContributions]

theorem foldl_applyGoodsCost_landedContributions (changes : List (GoodsField × Option ℚ))
    (unknown : Bool) :
    (changes.foldl (fun s change => s.applyGoodsCost round change.1 change.2 unknown)
      s).landedContributions = s.landedContributions := by
  induction changes generalizing s with
  | nil => rfl
  | cons change changes ih =>
    rw [List.foldl_cons, ih, (derives_applyGoodsCost change.1 change.2 unknown).landedContributions]

end ItemState

/-- The events that set a price under the name of a cost field `recomputeCost` writes. -/
def ItemEvent.PricesCostField : ItemEvent → Prop
  | .pricingSet priceType _ _ =>
    priceType = .costBase ∨ priceType = .costLanded ∨ priceType = .landedCosts
  | _ => False

namespace ItemState
variable {round : ℚ → ℚ} {s s' : ItemState} {e : ItemEvent}

theorem setPrice_cases {price : ℚ} {unknown : Bool} {priceType : PriceType}
    (h : s.setPrice round price unknown priceType = some s') :
    ((priceType = .costBase ∨ priceType = .costLanded ∨ priceType = .landedCosts) ∧
        s'.landedContributions = s.landedContributions) ∨
      Derives round s s' ∨ s'.costFields = s.costFields := by
  cases priceType with
  | goods field =>
    obtain rfl := Option.some.inj h
    exact Or.inr (Or.inl (derives_applyGoodsCost field (some price) unknown))
  | costBase =>
    obtain rfl := Option.some.inj h
    exact Or.inl ⟨Or.inl rfl, rfl⟩
  | costLanded =>
    obtain rfl := Option.some.inj h
    exact Or.inl ⟨Or.inr (Or.inl rfl), rfl⟩
  | landedCosts =>
    unfold setPrice at h
    split_ifs at h
    obtain rfl := Option.some.inj h
    exact Or.inl ⟨Or.inr (Or.inr rfl), rfl⟩
  | landedContributions =>
    unfold setPrice at h
    split_ifs at h
    obtain rfl := Option.some.inj h
    exact Or.inr (Or.inr rfl)
  | statusField field =>
    obtain rfl := Option.some.inj h
    cases field <;> exact Or.inr (Or.inr rfl)
  | _ =>
    obtain rfl := Option.some.inj h
    exact Or.inr (Or.inr rfl)

/-- **An event derives the cost fields, or leaves them alone**, unless it sets a price
    under the name of one. -/
theorem applyEvent_cases (hs : s.landedContributions = []) (h : s.applyEvent round e = some s') :
    (e.PricesCostField ∧ s'.landedContributions = s.landedContributions) ∨
      Derives round s s' ∨ s'.costFields = s.costFields := by
  cases e with
  | created data =>
    obtain rfl := Option.some.inj h
    refine Or.inr (Or.inl (derives_recomputeCost ?_))
    rw [migrateSellBy_landedContributions, hs]
    rfl
  | updated fieldsChanged unknown =>
    obtain rfl := Option.some.inj h
    refine Or.inr (Or.inl (derives_recomputeCost ?_))
    rw [foldl_applyGoodsCost_landedContributions, foldl_edit_landedContributions]
  | patched data =>
    obtain rfl := Option.some.inj h
    refine Or.inr (Or.inl (derives_recomputeCost ?_))
    rw [migrateSellBy_landedContributions, hs]
  | pricingSet priceType newPrice unknown => exact setPrice_cases h
  | quantityAdjusted newQty costBase landedCosts unknown consignedIn =>
    obtain rfl := Option.some.inj h
    obtain ⟨t, ht, heq⟩ : Derives round { s with consignedIn := consignedIn.getD s.consignedIn } _ :=
      derives_setQuantity newQty costBase landedCosts
    exact Or.inr (Or.inl ⟨t, ht, heq⟩)
  | consumed quantityConsumed costBase landedCosts =>
    obtain rfl := Option.some.inj h
    exact Or.inr (Or.inl (derives_setQuantity _ _ _))
  | mergeUndone =>
    obtain rfl := Option.some.inj h
    obtain ⟨t, ht, heq⟩ : Derives round s _ := derives_setQuantity 0 none none
    exact Or.inr (Or.inl ⟨t, ht, (setStatus_costFields _ _).trans heq⟩)
  | costAdjusted costTotal unknown =>
    obtain rfl := Option.some.inj h
    exact Or.inr (Or.inl ⟨{ s with costBase := some costTotal }, rfl, rfl⟩)
  | consignmentBought costTotal consignmentDocId account =>
    obtain rfl := Option.some.inj h
    refine Or.inr (Or.inl (derives_recomputeCost ?_))
    dsimp only
    split_ifs <;> rfl
  | landedCostAllocated sourceBillId kind amount =>
    obtain rfl := Option.some.inj h
    exact Or.inr (Or.inl (derives_recomputeCost rfl))
  | landedCostApplied sourceBillId kind unitAmount =>
    obtain rfl := Option.some.inj h
    exact Or.inr (Or.inl (derives_recomputeCost rfl))
  | fulfillmentReversed quantityRestored sourceDocId =>
    refine Or.inr (Or.inr ?_)
    simp only [applyEvent] at h
    split at h <;> obtain rfl := Option.some.inj h
    · exact setStatus_costFields (s := { s with quantity := quantityRestored }) "available" {}
    · exact setStatus_costFields (s := { s with quantity := quantityRestored }) "available" {}
  | _ =>
    obtain rfl := Option.some.inj h
    refine Or.inr (Or.inr ?_)
    first | rfl | exact setStatus_costFields _ _

/-- No event leaves amounts per unit. -/
theorem applyItemEvent_landedContributions (h : applyItemEvent round s e = some s') :
    s'.landedContributions = [] := by
  have hnil : s.landedPoolsFromUnits.landedContributions = [] := rfl
  rcases applyEvent_cases hnil h with ⟨-, heq⟩ | hderives | hsame
  · exact heq
  · exact hderives.landedContributions
  · exact landedContributions_of_costFields hsame

theorem applyItemEvent_coherent (he : ¬e.PricesCostField) (hnil : s.landedContributions = [])
    (hs : s.Coherent round) (h : applyItemEvent round s e = some s') : s'.Coherent round := by
  rw [applyItemEvent, landedPoolsFromUnits_of_nil hnil] at h
  rcases applyEvent_cases hnil h with ⟨hprices, -⟩ | hderives | hsame
  · exact absurd hprices he
  · exact hderives.coherent
  · exact hs.congr hsame

end ItemState

/-- **The cost fields of an item agree** after any run of events none of which sets a
    price under the name of one: an item with a goods cost states its landed pools'
    sum, the total of both, and no unit cost beside them. -/
theorem cost_coherent (events : List ItemEvent) (hprices : ∀ e ∈ events, ¬e.PricesCostField)
    (s : ItemState) (hrun : runItemEvents roundBasis .empty events = some s) :
    s.Coherent roundBasis := by
  have hempty : ItemState.empty.landedContributions = [] ∧ ItemState.empty.Coherent roundBasis :=
    ⟨rfl, fun _ hbase => nomatch hbase⟩
  refine (Runs.foldlM_of_step (Q := fun t => t.landedContributions = [] ∧ t.Coherent roundBasis)
    hempty (fun e he s s' hs h => ?_) hrun).2
  exact ⟨ItemState.applyItemEvent_landedContributions h,
    ItemState.applyItemEvent_coherent (hprices e he) hs.1 hs.2 h⟩

/-- A lot received at a unit cost, its freight, and part of it counted away. -/
def receivedEvents : List ItemEvent :=
  [.created [.quantity 0, .costPrice (some (5 / 2))], .quantityAdjusted 10 none none none none,
    .landedCostAllocated "bill:1" "freight" 4, .produced 2, .quantityAdjusted 3 none none none none]

/-- The state they leave. -/
def receivedState : ItemState := (runItemEvents roundBasis .empty receivedEvents).getD .empty

theorem cost_coherent_received : receivedState.Coherent roundBasis :=
  cost_coherent receivedEvents (by simp [receivedEvents, ItemEvent.PricesCostField]) receivedState
    (by decide +kernel)

end Celerp
