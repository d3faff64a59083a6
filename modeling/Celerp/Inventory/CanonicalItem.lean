/-
  Item state stays canonical: its keys are core keys and prices of price lists, and every
  other field is kept under `attributes`.

  * `ensures_normalizeAttributes`: normalizing leaves core keys only, whatever the data merged
    before it;
  * each event, of a canonical state, gives a canonical state (`canonical_step`), but for a
    price set under a key that is neither (`NamesPrice`);
  * so every state reached is canonical, and normalizing changes none
    (`state_stays_canonical`).
-/
import Celerp.Inventory.StoredEvents
import Celerp.Lib.Ensured

namespace Celerp

open Json Outcome

namespace StoredItem

/-- The keys at the top are core keys. -/
def Canonical (d : Dict) : Prop := Dicts.KeysIn (fun k => isCoreItemKey k = true) d

section
variable {T : Texts} {current data pools : Dict} {k field : String} {v value : Json}

/-- The keys that events set are core keys. -/
@[simp] theorem core_written :
    isCoreItemKey "attributes" ∧ isCoreItemKey "status" ∧ isCoreItemKey "inventory_type" ∧
    isCoreItemKey "quantity" ∧ isCoreItemKey "sell_by" ∧ isCoreItemKey "purchase_unit" ∧
    isCoreItemKey "purchase_conversion_factor" ∧ isCoreItemKey "expires_at" ∧ isCoreItemKey "landed_costs" ∧
    isCoreItemKey "cost_base" ∧ isCoreItemKey "cost_landed" ∧ isCoreItemKey "cost_total" ∧
    isCoreItemKey "cost_price" ∧ isCoreItemKey GOODS_COST_UNKNOWN ∧ isCoreItemKey "status_doc_id" ∧
    isCoreItemKey "status_doc_number" ∧ isCoreItemKey "status_line_entity_id" ∧
    isCoreItemKey "_catalog_sku_aliases" ∧ isCoreItemKey "location_id" ∧ isCoreItemKey "updated_at" ∧
    isCoreItemKey LOT_ACCOUNT_FIELD ∧ isCoreItemKey CONSIGNOR_PAYABLE_FIELD ∧ isCoreItemKey CONSIGNOR_FIELD ∧
    isCoreItemKey ON_BOOKS_FIELD ∧ isCoreItemKey "consignment_flag" ∧ isCoreItemKey "is_expired" ∧
    isCoreItemKey "children" ∧ isCoreItemKey "child_skus" ∧ isCoreItemKey "split_from" ∧
    isCoreItemKey "transformed_into" ∧ isCoreItemKey "transformed_from" ∧ isCoreItemKey "merged_into" ∧
    isCoreItemKey "recipe" ∧ isCoreItemKey "workflow" ∧ isCoreItemKey "reserved_quantity" ∧
    isCoreItemKey "quantity_fulfilled" ∧ isCoreItemKey "fulfilled_for_docs" ∧ isCoreItemKey "files" ∧
    isCoreItemKey "attachments" ∧ isCoreItemKey "preview_image_id" := by
  simp [isCoreItemKey, CORE_ITEM_KEYS]

@[simp] theorem canonical_set (hk : isCoreItemKey k = true) : Canonical (Dicts.set current k v) ↔ Canonical current :=
  Dicts.keysIn_set.trans (and_iff_right hk)

@[simp] theorem canonical_setDefault (hk : isCoreItemKey k = true) :
    Canonical (Dicts.setDefault current k v) ↔ Canonical current := Dicts.keysIn_setDefault hk

@[simp] theorem canonical_pop (h : Canonical current) : Canonical (Dicts.pop current k) := Dicts.KeysIn.pop h

theorem canonical_popAll (h : Canonical current) (ks : List String) : Canonical (ks.foldl Dicts.pop current) :=
  Dicts.KeysIn.popAll h ks

@[simp] theorem canonical_ite {p : Prop} [Decidable p] {d e : Dict} :
    Canonical (if p then d else e) ↔ if p then Canonical d else Canonical e := by
  split_ifs
  · exact Iff.rfl
  · exact Iff.rfl

/-! ## Normalizing -/

/-- A key at the top is core, or its field is moved. -/
theorem mem_movable {f : String × Json} (hf : f ∈ current) (hcore : ¬isCoreItemKey f.1 = true) :
    f ∈ current.filter fun f => f.1 ≠ "attributes" ∧ ¬isCoreItemKey f.1 := by
  have hattributes : f.1 ≠ "attributes" := by
    intro heq
    rw [heq] at hcore
    exact hcore core_written.1
  exact List.mem_filter.2 ⟨hf, decide_eq_true ⟨hattributes, hcore⟩⟩

/-- **Normalizing leaves core keys only.** -/
theorem ensures_normalizeAttributes (current : Dict) : Ensures (normalizeAttributes T current) Canonical := by
  unfold normalizeAttributes
  refine .ite (fun hnone => ?_) fun _ => .after fun attrs => ?_
  · rw [ensures_ok]
    intro k hk
    obtain ⟨f, hf, rfl⟩ := List.mem_map.1 hk
    by_contra hcore
    have hmem := mem_movable hf hcore
    rw [List.isEmpty_iff.1 hnone] at hmem
    exact absurd hmem List.not_mem_nil
  · rw [ensures_ok]
    refine (canonical_set core_written.1).2 fun k hk => ?_
    obtain ⟨hkept, hk⟩ := Dicts.mem_keys_popAll.1 hk
    obtain ⟨f, hf, rfl⟩ := List.mem_map.1 hk
    by_contra hcore
    exact hkept (List.mem_map_of_mem (mem_movable hf hcore))

/-- Normalizing changes nothing of a canonical state. -/
theorem normalizeAttributes_of_canonical (h : Canonical current) : normalizeAttributes T current = .ok current := by
  have hnone : (current.filter fun f => f.1 ≠ "attributes" ∧ ¬isCoreItemKey f.1) = [] := by
    rw [List.filter_eq_nil_iff]
    intro f hf
    simp [h f.1 (List.mem_map_of_mem hf)]
  unfold normalizeAttributes
  rw [hnone]
  rfl

/-! ## What keeps a state canonical -/

@[simp] theorem canonical_putPools (h : Canonical current) : Canonical (putPools current pools) := by
  simp [putPools, h]

@[simp] theorem canonical_setUnknown (h : Canonical current) : Canonical (setUnknown current data) := by
  unfold setUnknown
  cases Dicts.get? data GOODS_COST_UNKNOWN with
  | none => exact h
  | some v => simp [h]

@[simp] theorem canonical_setConsignment (h : Canonical current) : Canonical (setConsignment current data) := by
  unfold setConsignment
  cases Dicts.get? data "consignment_flag" with
  | none => exact h
  | some v => simp [h]

@[simp] theorem canonical_stampStatusDoc (h : Canonical current) : Canonical (stampStatusDoc current data) := by
  have hdoc : Canonical (if (get data "source_doc_id").truthy then
      Dicts.set (Dicts.set current "status_doc_id" (get data "source_doc_id")) "status_doc_number"
        ((get data "doc_number").orElse (.str ""))
      else Dicts.pop (Dicts.pop current "status_doc_id") "status_doc_number") := by
    simp [h]
  exact iteInduction (motive := Canonical) (fun _ => (canonical_set (by simp)).2 hdoc) fun _ => canonical_pop hdoc

@[simp] theorem canonical_setStatus (h : Canonical current) : Canonical (setStatus current v data) := by
  simp [setStatus, h]

theorem ensures_syncExpiry (h : Canonical current) : Ensures (syncExpiryFromAttributes T current) Canonical := by
  refine .after fun attrs => ?_
  split
  · exact ensures_ok.2 (by simp [h])
  · exact ensures_ok.2 h

theorem ensures_weighed (h : Canonical current) : Ensures (weighed T current v) Canonical := by
  refine .after fun qty => Ensures.bind (P := Canonical) ?_ fun state hstate => .after fun weight => ?_
  · exact .ite (fun _ => .after fun attrs => ensures_ok.2 (by simp [h])) fun _ => ensures_ok.2 h
  · exact ensures_ok.2 (by simp [hstate])

theorem ensures_migrateSellBy (h : Canonical current) : Ensures (migrateSellBy T current) Canonical := by
  refine .ite (fun _ => ensures_ok.2 h) fun _ => .after fun unit => ?_
  have hunit : Canonical (Dicts.set current "sell_by" unit) := by simp [h]
  refine Ensures.bind (P := Canonical) ?_ fun state hstate => ensures_ok.2 (by simp [hstate])
  exact .ite (fun _ => ensures_ok.2 hunit) fun _ => ensures_weighed hunit

theorem ensures_landedPoolsFromUnits (h : Canonical current) : Ensures (landedPoolsFromUnits T current) Canonical := by
  refine .ite (fun _ => ensures_ok.2 (by simp [h])) fun _ => ?_
  exact .after fun qty => .after fun held => .after fun units => .after fun pools => ensures_ok.2 (by simp [h])

theorem ensures_setLandedPools (h : Canonical current) : Ensures (setLandedPools T current pools) Canonical :=
  .after fun _ => ensures_ok.2 (by simp [h])

/-- A state as it was, or with a goods cost. -/
theorem ensures_withCostBase {qty : ℚ} (h : Canonical current) :
    Ensures (withCostBase T current value qty) fun based => ∀ d ∈ based, Canonical d := by
  have hsame : ∀ d ∈ some current, Canonical d := by simpa using h
  have hnone : ∀ d ∈ (none : Option Dict), Canonical d := by simp
  have hset : ∀ v, ∀ d ∈ some (Dicts.set current "cost_base" v), Canonical d := by
    intro v d hd
    obtain rfl := Option.mem_some.1 hd
    simp [h]
  refine .ite (fun _ => ensures_ok.2 hsame) fun _ => .ite (fun _ => ?_) fun _ => .ite (fun _ => ?_) fun _ => ?_
  · exact .after fun total => ensures_ok.2 (hset _)
  · exact .ite (fun _ => ensures_ok.2 hnone) fun _ => .after fun unit => ensures_ok.2 (hset _)
  · exact .ite (fun _ => ensures_ok.2 hnone) fun _ => ensures_ok.2 (hset _)

theorem ensures_recomputeCost (h : Canonical current) : Ensures (recomputeCost T current) Canonical := by
  refine .after fun qty => (ensures_withCostBase h).bind fun based hbased => ?_
  cases based with
  | none => exact ensures_ok.2 h
  | some d =>
    have hd : Canonical d := hbased d rfl
    exact .after fun base => .after fun fields => .after fun amounts => ensures_ok.2 (by simp [hd])

theorem ensures_withGoodsCost (h : Canonical current) : Ensures (withGoodsCost T current field value) Canonical := by
  refine .ite (fun _ => ensures_ok.2 h) fun _ => .ite (fun _ => ?_) fun _ => ?_
  · exact .after fun total => ensures_ok.2 (by simp [h])
  · exact .after fun unit => ensures_ok.2 (by simp [h])

theorem ensures_applyGoodsCost {unknown : Json} (h : Canonical current) :
    Ensures (applyGoodsCost T current field value unknown) Canonical := by
  refine (ensures_withGoodsCost (canonical_popAll h _)).bind fun costed hcosted => ?_
  exact (ensures_recomputeCost hcosted).bind fun d hd => ensures_ok.2 (by simp [hd])

theorem ensures_scaleCost {oldQty qty : ℚ} {named : Bool} {amounts : List (String × ℚ)} (h : Canonical current) :
    Ensures (scaleCost T current oldQty qty named amounts) fun scaled => Canonical scaled.1 := by
  refine .ite (fun _ => .ite (fun _ => ?_) fun _ => ?_) fun _ => ensures_ok.2 h
  · refine Ensures.bind (P := Canonical) ?_ fun d hd => ensures_ok.2 hd
    exact .ite (fun _ => ensures_ok.2 h) fun _ => .after fun basis => ensures_ok.2 (by simp [h])
  · exact .after fun basis => ensures_ok.2 ((canonical_set (by simp)).2 (canonical_popAll h _))

theorem ensures_setQuantity {newQty costBase landedCosts : Json} (h : Canonical current) :
    Ensures (setQuantity T current newQty costBase landedCosts) Canonical := by
  refine .after fun oldQty => .after fun qty => .after fun held => .after fun amounts => .after fun pools => ?_
  refine Ensures.bind (P := fun scaled : Dict × List (String × ℚ) => Canonical scaled.1) ?_ fun scaled hscaled => ?_
  · exact .ite (fun _ => ensures_scaleCost h) fun _ => .after fun base => ensures_ok.2 (by simp [h])
  · exact (ensures_setLandedPools hscaled).bind fun d hd => ensures_recomputeCost (by simp [hd])

/-! ## The events -/

/-- Creation merges any fields, and normalizes after. -/
theorem ensures_applyCreated (current data : Dict) : Ensures (applyCreated T current data) Canonical := by
  refine .after fun pooled => (ensures_normalizeAttributes pooled).bind fun d hd => ?_
  have hstocked : Canonical (Dicts.setDefault (Dicts.setDefault d "status" (.str DEFAULT_ITEM_STATUS))
      "inventory_type" (.str "stocked")) := by
    simp [hd]
  refine (ensures_migrateSellBy (by simp [hstocked])).bind fun d hd => ?_
  exact (ensures_syncExpiry hd).bind fun d hd => ensures_recomputeCost hd

/-- An upsert merges any fields, and normalizes after. -/
theorem ensures_applyPatched (current data : Dict) : Ensures (applyPatched T current data) Canonical := by
  refine (ensures_normalizeAttributes _).bind fun d hd => (ensures_migrateSellBy hd).bind fun d hd => ?_
  exact (ensures_syncExpiry hd).bind fun d hd => ensures_recomputeCost hd

theorem ensures_keepAlias (h : Canonical current) : Ensures (keepAlias T current value) Canonical := by
  refine .ite (fun _ => .after fun change => .ite (fun _ => ?_) fun _ => ensures_ok.2 h) fun _ => ensures_ok.2 h
  exact .after fun aliases => ensures_ok.2 (by simp [h])

theorem ensures_setAttribute {set : Option Json} (h : Canonical current) :
    Ensures (setAttribute T current field set) Canonical :=
  .after fun _ => ensures_ok.2 (by simp [h])

theorem Canonical.setCore (h : Canonical current) (hk : isCoreItemKey field = true) :
    Canonical (setCore current field value) := by
  have hset : Canonical (if value.isBlank then Dicts.pop current field else Dicts.set current field value) := by
    simp [h, hk]
  exact iteInduction (motive := Canonical) (fun _ => canonical_stampStatusDoc hset) fun _ => hset

/-- A field that is no core field goes under the attributes. -/
theorem ensures_changeField {changing : Dict × List (String × Json)} {f : String × Json} (h : Canonical changing.1) :
    Ensures (changeField T changing f) fun changed => Canonical changed.1 := by
  refine .after fun change => .ite (fun _ => ?_) fun _ => .ite (fun _ => ensures_ok.2 h) fun _ =>
    .ite (fun hcore => ensures_ok.2 (h.setCore hcore)) fun _ => ?_
  · exact (ensures_setAttribute h).bind fun d hd => ensures_ok.2 hd
  · exact (ensures_setAttribute h).bind fun d hd => ensures_ok.2 hd

theorem ensures_applyUpdated (h : Canonical current) : Ensures (applyUpdated T current data) Canonical := by
  refine .after fun changed => .after fun fields => (ensures_keepAlias h).bind fun d hd => ?_
  refine Ensures.bind (P := fun changing : Dict × List (String × Json) => Canonical changing.1) ?_ fun changing hc => ?_
  · exact Ensures.foldlM hd fun changing hc f _ => ensures_changeField hc
  refine Ensures.bind (P := Canonical) ?_ fun d hd => (ensures_syncExpiry hd).bind fun d hd => ensures_recomputeCost hd
  exact Ensures.foldlM hc fun d hd c _ => ensures_applyGoodsCost hd

/-- A price is set under a core key or a price list's. -/
def NamesPrice (data : Dict) : Prop :=
  ∀ v, Dicts.get? data "price_type" = some v → ∃ key, v = .str key ∧ isCoreItemKey key = true

theorem ensures_applyPricingSet (h : Canonical current) (hprice : NamesPrice data) :
    Ensures (applyPricingSet T current data) Canonical := by
  have hfield : Ensures (item data "price_type") fun v => ∃ key, v = .str key ∧ isCoreItemKey key = true := by
    unfold item
    cases htype : Dicts.get? data "price_type" with
    | none => exact ensures_error
    | some v => exact ensures_ok.2 (hprice v htype)
  refine hfield.bind fun v hv => ?_
  obtain ⟨key, rfl, hcore⟩ := hv
  refine .after fun price => .ite (fun _ => ensures_applyGoodsCost h) fun _ => ?_
  exact ensures_ok.2 ((canonical_set hcore).2 h)

theorem ensures_applyStatus {doc : Dict} (h : Canonical current) : Ensures (applyStatus current data k doc) Canonical :=
  .after fun _ => ensures_ok.2 (canonical_setStatus h)

theorem ensures_applyTransferred (h : Canonical current) : Ensures (applyTransferred current data) Canonical := by
  refine .after fun location => ensures_ok.2 ?_
  cases Dicts.get? data "updated_at" with
  | none => simp [h]
  | some v => simp [h]

theorem ensures_applyQuantityAdjusted (h : Canonical current) :
    Ensures (applyQuantityAdjusted T current data) Canonical :=
  .after fun _ => (ensures_setQuantity (canonical_setConsignment h)).bind fun _ hd =>
    ensures_ok.2 (canonical_setUnknown hd)

theorem ensures_applyCostAdjusted (h : Canonical current) : Ensures (applyCostAdjusted T current data) Canonical :=
  .after fun _ => .after fun _ => (ensures_recomputeCost (by simp [h])).bind fun _ hd =>
    ensures_ok.2 (canonical_setUnknown hd)

theorem ensures_applyConsignmentBought (h : Canonical current) :
    Ensures (applyConsignmentBought T current data) Canonical := by
  have hflag : Canonical (Dicts.set current "consignment_flag" .null) := by simp [h]
  refine .after fun docId => .after fun account => .after fun total => .after fun base => ?_
  have hdoc : Canonical
      (if same (get (Dicts.set current "consignment_flag" .null) "status_doc_id") docId then
        Dicts.pop (Dicts.pop (Dicts.set current "consignment_flag" .null) "status_doc_id") "status_doc_number"
      else Dicts.set current "consignment_flag" .null) :=
    iteInduction (motive := Canonical) (fun _ => canonical_pop (canonical_pop hflag)) fun _ => hflag
  refine ensures_recomputeCost (canonical_pop ?_)
  rw [canonical_set (by simp), canonical_set (by simp)]
  exact hdoc

theorem ensures_applyLandedCost {amount : ℚ} (h : Canonical current) :
    Ensures (applyLandedCost T current data amount) Canonical :=
  .after fun _ => .after fun _ => .after fun _ => (ensures_setLandedPools h).bind fun _ hd => ensures_recomputeCost hd

theorem ensures_addTo (h : Canonical current) (hk : isCoreItemKey field = true) :
    Ensures (addTo T current data field k) Canonical :=
  .after fun _ => .after fun _ => .after fun _ => ensures_ok.2 ((canonical_set hk).2 h)

theorem ensures_applyFulfilled (h : Canonical current) : Ensures (applyFulfilled T current data) Canonical := by
  refine .after fun qty => .after fun docId => .after fun docs => ensures_ok.2 ?_
  simp [h]

theorem ensures_applyFulfillmentReversed (h : Canonical current) :
    Ensures (applyFulfillmentReversed T current data) Canonical := by
  refine .after fun restored => .after fun qty => ?_
  have hstatus : Canonical (setStatus (Dicts.set current "quantity" (.num qty)) (.str "available") []) :=
    by simp [h]
  refine .ite (fun _ => .after fun held => .ite (fun _ => ?_) fun _ => ensures_ok.2 hstatus) fun _ => ensures_ok.2 hstatus
  exact .after fun docs => ensures_ok.2 (by simp [hstatus])

theorem ensures_changeFiles {change : Dict → Except Raised Dict} (h : Canonical current) :
    Ensures (changeFiles current change) Canonical := by
  unfold changeFiles
  cases Dicts.get? current "files" with
  | none => exact ensures_ok.2 h
  | some v => exact .after fun files => ensures_ok.2 (by simp [h])

theorem ensures_migrateStoredAttachments (h : Canonical current) :
    Ensures (migrateStoredAttachments current) Canonical := by
  refine .ite (fun _ => ensures_ok.2 h) fun _ => ?_
  exact .after fun old => .after fun migrated => ensures_ok.2 (by simp [h])

theorem ensures_applyFileAttached (h : Canonical current) : Ensures (applyFileAttached current data) Canonical := by
  refine (ensures_migrateStoredAttachments h).bind fun d hd => .after fun entry => ?_
  have hfiles : Canonical (Dicts.setDefault d "files" (.arr [])) := by simp [hd]
  refine Ensures.bind (P := Canonical) (.ite (fun _ => ?_) fun _ => ensures_ok.2 hfiles) fun d hd =>
    .after fun files => ensures_ok.2 (by simp [hd])
  exact (ensures_changeFiles hfiles).bind fun d hd => ensures_ok.2 (by simp [hd])

theorem ensures_applyFileDeleted (h : Canonical current) : Ensures (applyFileDeleted current data) Canonical := by
  refine .after fun id => .after fun items => .after fun files => .ite (fun _ => .after fun images => ?_) fun _ => ?_
  · split
    · exact .after fun preview => ensures_ok.2 (by simp [h])
    · exact ensures_ok.2 (by simp [h])
  · exact ensures_ok.2 (by simp [h])

theorem ensures_applyFileHeroSet (h : Canonical current) : Ensures (applyFileHeroSet current data) Canonical := by
  refine .after fun id => (ensures_changeFiles h).bind fun d hd => .after fun items => .after fun files => ?_
  split
  · exact .after fun preview => ensures_ok.2 (by simp [hd])
  · exact ensures_ok.2 (by simp [hd])

/-! ## The step and the run -/

/-- **An event of a canonical state gives a canonical state.** -/
theorem canonical_step {state : Dict} {e : Event} (h : Canonical state)
    (hprice : e.type = .pricingSet → NamesPrice e.data) : Ensures (applyEvent T state e) Canonical := by
  refine (ensures_landedPoolsFromUnits h).bind fun current h => ?_
  cases htype : e.type with
  | created => exact ensures_applyCreated current e.data
  | snapshot => exact ensures_applyCreated current e.data
  | updated => exact ensures_applyUpdated h
  | pricingSet => exact ensures_applyPricingSet h (hprice htype)
  | statusSet => exact ensures_applyStatus h
  | transferred => exact ensures_applyTransferred h
  | quantityAdjusted => exact ensures_applyQuantityAdjusted h
  | costAdjusted => exact ensures_applyCostAdjusted h
  | inventoryAccountRecorded => exact .after fun _ => ensures_ok.2 (by simp [h])
  | inventoryAccountMoved => exact .after fun _ => ensures_ok.2 (by simp [h])
  | consignorPayableRecorded => exact .after fun _ => .after fun _ => ensures_ok.2 (by simp [h])
  | consignmentBought => exact ensures_applyConsignmentBought h
  | inventoryOnBooksRecorded => exact ensures_ok.2 h
  | landedCostAllocated => exact .after fun _ => ensures_applyLandedCost h
  | landedCostApplied => exact .after fun _ => .after fun _ => ensures_applyLandedCost h
  | expired => exact ensures_ok.2 (by simp [applyExpired, h])
  | disposed => exact ensures_ok.2 (by simp [applyExpired, h])
  | writtenOff => exact ensures_ok.2 (canonical_setStatus h)
  | returnedToSupplier => exact ensures_ok.2 (canonical_setConsignment (canonical_setStatus h))
  | supplierReturnUndone => exact ensures_applyStatus h
  | split => exact ensures_ok.2 (by simp [applySplit, h])
  | splitFrom => exact ensures_ok.2 (by simp [h])
  | transform => exact ensures_ok.2 (by simp [h])
  | transformedFrom => exact ensures_ok.2 (by simp [h])
  | merged => exact ensures_ok.2 h
  | sourceDeactivated => exact .after fun _ => ensures_ok.2 (by simp [h])
  | unmerged => exact (ensures_applyStatus h).bind fun _ hd => ensures_ok.2 (canonical_pop hd)
  | mergeUndone => exact (ensures_setQuantity h).bind fun _ hd => ensures_ok.2 (canonical_setStatus hd)
  | consumed => exact .after fun _ => .after fun _ => .after fun _ => ensures_setQuantity h
  | produced => exact ensures_addTo h (by simp)
  | recipeSet => exact .after fun _ => ensures_ok.2 (by simp [h])
  | workflowSet => exact .after fun _ => ensures_ok.2 (by simp [h])
  | reserved => exact ensures_addTo h (by simp)
  | unreserved => exact .after fun _ => .after fun _ => .after fun _ => ensures_ok.2 (by simp [h])
  | fulfilled => exact ensures_applyFulfilled h
  | fulfillmentReversed => exact ensures_applyFulfillmentReversed h
  | patched => exact ensures_applyPatched current e.data
  | fileAttached => exact ensures_applyFileAttached h
  | fileTagged => exact ensures_changeFiles h
  | fileDescriptionUpdated => exact ensures_changeFiles h
  | fileDeleted => exact ensures_applyFileDeleted h
  | fileHeroSet => exact ensures_applyFileHeroSet h
  | unsupported eventType => exact ensures_error

theorem canonical_applyItemEvent {state : Dict} {e : Event} (h : Canonical state)
    (hprice : e.type = .pricingSet → NamesPrice e.data) : Ensures (applyItemEvent T state e) Canonical :=
  (canonical_step h hprice).bind fun _ hd => ensures_ok.2 (by simp [keepOnBooks, hd])

/-- **Item state stays canonical.**  Whatever events made a state of nothing, their prices set
    under core keys and those of price lists, its keys are core keys and normalizing does not
    change it. -/
theorem state_stays_canonical (T : Texts) {events : List Event}
    (hprices : ∀ e ∈ events, e.type = .pricingSet → NamesPrice e.data) {state : Dict}
    (h : runItemEvents T [] events = .ok state) :
    (∀ k ∈ Dicts.keys state, isCoreItemKey k = true) ∧ normalizeAttributes T state = .ok state := by
  have hrun : Ensures (runItemEvents T [] events) Canonical :=
    Ensures.foldlM (P := Canonical) Dicts.KeysIn.nil fun _ hd e he => canonical_applyItemEvent hd (hprices e he)
  exact ⟨hrun state h, normalizeAttributes_of_canonical (hrun state h)⟩

/-- Texts that stand for no number, in lower case already. -/
def plainTexts : Texts := ⟨fun _ => none, fun _ => "", id, id, id⟩

/-- A ring made with its colour, then priced. -/
def ringEvents : List Event :=
  [⟨.created, [("sku", .str "R1"), ("color", .str "red")]⟩,
   ⟨.pricingSet, [("price_type", .str "retail_price"), ("new_price", .num 30)]⟩]

/-- The ring: its colour is an attribute. -/
def ringState : Dict :=
  [("sku", .str "R1"), ("attributes", .obj [("color", .str "red")]), ("status", .str "available"),
   ("inventory_type", .str "stocked"), ("purchase_conversion_factor", .num 1), ("retail_price", .num 30)]

theorem ring_stays_canonical :
    runItemEvents plainTexts [] ringEvents = .ok ringState ∧
      (∀ k ∈ Dicts.keys ringState, isCoreItemKey k = true) ∧
        normalizeAttributes plainTexts ringState = .ok ringState := by
  have hrun : runItemEvents plainTexts [] ringEvents = .ok ringState := rfl
  have hprice : NamesPrice [("price_type", .str "retail_price"), ("new_price", .num 30)] := by
    intro v hv
    obtain rfl : Json.str "retail_price" = v := Option.some.inj hv
    exact ⟨"retail_price", rfl, by decide⟩
  refine ⟨hrun, state_stays_canonical plainTexts (fun e he htype => ?_) hrun⟩
  obtain rfl | rfl : e = _ ∨ e = _ := by simpa [ringEvents] using he
  · exact absurd htype (by decide)
  · exact hprice

end

end StoredItem

end Celerp
