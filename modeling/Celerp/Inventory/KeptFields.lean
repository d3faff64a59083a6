/-
  The fields an item's events leave alone.

  Most events set and take out fields of their own (`HANDLED_FIELDS`) and move what is no core
  field under `attributes`; what holds of a state whatever those are (`Unhandled`) they keep
  (`unhandled_applyTyped`).  The others write a field their data names: a creation and an
  upsert merge their data (`ensures_created_get?`, `ensures_patched_get?`), an edit sets the
  fields it changes (`ensures_updated_get?`), and a recorded account its own field.
-/
import Celerp.Inventory.StoredEvents
import Celerp.Lib.Ensured

namespace Celerp

open Json Outcome

namespace StoredItem

/-- The fields that events set or take out themselves. -/
def HANDLED_FIELDS : List String :=
  ["attributes", "status", "inventory_type", "quantity", "sell_by", "weight", "weight_unit", "purchase_unit",
   "purchase_conversion_factor", "expires_at", "landed_costs", "landed_contributions", "cost_base", "cost_landed",
   "cost_total", "cost_price", GOODS_COST_UNKNOWN, "status_doc_id", "status_doc_number", "status_line_entity_id",
   "_catalog_sku_aliases", "location_id", "updated_at", "consignment_flag", "is_expired", "children", "child_skus",
   "split_from", "transformed_into", "transformed_from", "merged_into", "recipe", "workflow", "reserved_quantity",
   "quantity_fulfilled", "fulfilled_for_docs", "files", "attachments", "preview_image_id", ON_BOOKS_FIELD]

/-- What holds of a state whatever its handled fields and its category attributes are. -/
structure Unhandled (C : Dict → Prop) : Prop where
  set : ∀ {d k v}, k ∈ HANDLED_FIELDS → C d → C (Dicts.set d k v)
  pop : ∀ {d k}, k ∈ HANDLED_FIELDS → C d → C (Dicts.pop d k)
  move : ∀ {d k}, isCoreItemKey k = false → C d → C (Dicts.pop d k)

/-- The value of a core field that no event handles. -/
theorem unhandled_get? {field : String} (hcore : isCoreItemKey field = true) (hfield : field ∉ HANDLED_FIELDS)
    (v : Option Json) : Unhandled fun d => Dicts.get? d field = v where
  set hk h := by
    rw [Dicts.get?_set, if_neg (by rintro rfl; exact hfield hk)]
    exact h
  pop hk h := by
    rw [Dicts.get?_pop, if_neg (by rintro rfl; exact hfield hk)]
    exact h
  move hk h := by
    rw [Dicts.get?_pop, if_neg (by rintro rfl; rw [hk] at hcore; cases hcore)]
    exact h

section
variable {T : Texts} {C : Dict → Prop} (hC : Unhandled C) {current data pools : Dict} {field : String}
  {value : Json}
include hC

theorem Unhandled.setDefault {k : String} {v : Json} (hk : k ∈ HANDLED_FIELDS) (h : C current) :
    C (Dicts.setDefault current k v) := by
  unfold Dicts.setDefault
  split_ifs
  · exact h
  · exact hC.set hk h

theorem Unhandled.popAll {ks : List String} (hks : ∀ k ∈ ks, k ∈ HANDLED_FIELDS) (h : C current) :
    C (ks.foldl Dicts.pop current) := by
  induction ks generalizing current with
  | nil => exact h
  | cons k ks ih =>
    rw [List.forall_mem_cons] at hks
    exact ih hks.2 (hC.pop hks.1 h)

theorem Unhandled.moveAll {ks : List String} (hks : ∀ k ∈ ks, isCoreItemKey k = false) (h : C current) :
    C (ks.foldl Dicts.pop current) := by
  induction ks generalizing current with
  | nil => exact h
  | cons k ks ih =>
    rw [List.forall_mem_cons] at hks
    exact ih hks.2 (hC.move hks.1 h)

/-! ## Attributes and units -/

theorem Unhandled.normalizeAttributes (h : C current) : Ensures (normalizeAttributes T current) C := by
  refine .ite (fun _ => ensures_ok.2 h) fun _ => .after fun attrs => ensures_ok.2 (hC.set (by decide) ?_)
  refine hC.moveAll (fun k hk => ?_) h
  obtain ⟨f, hf, rfl⟩ := List.mem_map.1 hk
  rw [List.mem_filter, decide_eq_true_iff] at hf
  simpa using hf.2.2

theorem Unhandled.syncExpiry (h : C current) : Ensures (syncExpiryFromAttributes T current) C := by
  refine .after fun attrs => ?_
  split
  · refine ensures_ok.2 ?_
    split_ifs
    · exact hC.set (by decide) h
    · exact h
  · exact ensures_ok.2 h

theorem Unhandled.weighed (h : C current) : Ensures (weighed T current value) C := by
  refine .after fun qty => Ensures.bind (P := C) ?_ fun state hstate =>
    .after fun weight => ensures_ok.2 (hC.set (by decide) hstate)
  exact .ite (fun _ => .after fun attrs => ensures_ok.2 (hC.set (by decide) h)) fun _ => ensures_ok.2 h

theorem Unhandled.migrateSellBy (h : C current) : Ensures (migrateSellBy T current) C := by
  refine .ite (fun _ => ensures_ok.2 h) fun _ => .after fun unit => ?_
  have hunit : C (Dicts.set current "sell_by" unit) := hC.set (by decide) h
  refine Ensures.bind (P := C) ?_ fun state hstate =>
    ensures_ok.2 (hC.pop (by decide) (hC.pop (by decide) hstate))
  exact .ite (fun _ => ensures_ok.2 hunit) fun _ => hC.weighed hunit

/-! ## Costs and quantities -/

theorem Unhandled.putPools (h : C current) : C (putPools current pools) := by
  unfold StoredItem.putPools
  split_ifs
  · exact hC.pop (by decide) h
  · exact hC.set (by decide) h

theorem Unhandled.landedPoolsFromUnits (h : C current) : Ensures (landedPoolsFromUnits T current) C := by
  have hpop : C (Dicts.pop current "landed_contributions") := hC.pop (by decide) h
  refine .ite (fun _ => ensures_ok.2 hpop) fun _ => ?_
  exact .after fun qty => .after fun held => .after fun units => .after fun pools => ensures_ok.2 (hC.putPools hpop)

theorem Unhandled.setLandedPools (h : C current) : Ensures (setLandedPools T current pools) C :=
  .after fun _ => ensures_ok.2 (hC.putPools h)

theorem Unhandled.withCostBase {qty : ℚ} (h : C current) :
    Ensures (withCostBase T current value qty) fun based => ∀ d ∈ based, C d := by
  have hsame : ∀ d ∈ some current, C d := by simpa using h
  have hnone : ∀ d ∈ (none : Option Dict), C d := by simp
  have hset : ∀ v, ∀ d ∈ some (Dicts.set current "cost_base" v), C d := by
    intro v d hd
    obtain rfl := Option.mem_some.1 hd
    exact hC.set (by decide) h
  refine .ite (fun _ => ensures_ok.2 hsame) fun _ => .ite (fun _ => ?_) fun _ => .ite (fun _ => ?_) fun _ => ?_
  · exact .after fun total => ensures_ok.2 (hset _)
  · exact .ite (fun _ => ensures_ok.2 hnone) fun _ => .after fun unit => ensures_ok.2 (hset _)
  · exact .ite (fun _ => ensures_ok.2 hnone) fun _ => ensures_ok.2 (hset _)

theorem Unhandled.recomputeCost (h : C current) : Ensures (recomputeCost T current) C := by
  refine .after fun qty => (hC.withCostBase h).bind fun based hbased => ?_
  cases based with
  | none => exact ensures_ok.2 h
  | some d =>
    have hd : C d := hbased d rfl
    refine .after fun base => .after fun fields => .after fun amounts => ensures_ok.2 ?_
    exact hC.pop (by decide) (hC.set (by decide) (hC.set (by decide) hd))

theorem Unhandled.withGoodsCost (h : C current) : Ensures (withGoodsCost T current field value) C := by
  refine .ite (fun _ => ensures_ok.2 h) fun _ => .ite (fun _ => ?_) fun _ => ?_
  · exact .after fun total => ensures_ok.2 (hC.set (by decide) h)
  · exact .after fun unit => ensures_ok.2 (hC.set (by decide) h)

theorem Unhandled.applyGoodsCost {unknown : Json} (h : C current) :
    Ensures (applyGoodsCost T current field value unknown) C := by
  refine (hC.withGoodsCost (hC.popAll (by decide) h)).bind fun costed hcosted => ?_
  refine (hC.recomputeCost hcosted).bind fun d hd => ensures_ok.2 ?_
  split_ifs
  · exact hC.set (by decide) hd
  · exact hd

theorem Unhandled.setUnknown (h : C current) : C (setUnknown current data) := by
  unfold StoredItem.setUnknown
  split
  · split_ifs
    · exact hC.set (by decide) h
    · exact hC.pop (by decide) h
  · exact h

theorem Unhandled.scaleCost {oldQty qty : ℚ} {named : Bool} {amounts : List (String × ℚ)} (h : C current) :
    Ensures (scaleCost T current oldQty qty named amounts) fun scaled => C scaled.1 := by
  refine .ite (fun _ => .ite (fun _ => ?_) fun _ => ?_) fun _ => ensures_ok.2 h
  · refine Ensures.bind (P := C) ?_ fun d hd => ensures_ok.2 hd
    exact .ite (fun _ => ensures_ok.2 h) fun _ => .after fun basis => ensures_ok.2 (hC.set (by decide) h)
  · exact .after fun basis => ensures_ok.2 (hC.set (by decide) (hC.popAll (by decide) h))

theorem Unhandled.setQuantity {newQty costBase landedCosts : Json} (h : C current) :
    Ensures (setQuantity T current newQty costBase landedCosts) C := by
  refine .after fun oldQty => .after fun qty => .after fun held => .after fun amounts => .after fun pools => ?_
  refine Ensures.bind (P := fun scaled : Dict × List (String × ℚ) => C scaled.1) ?_ fun scaled hscaled => ?_
  · refine .ite (fun _ => hC.scaleCost h) fun _ => .after fun base => ensures_ok.2 ?_
    exact hC.pop (by decide) (hC.set (by decide) h)
  · exact (hC.setLandedPools hscaled).bind fun d hd => hC.recomputeCost (hC.set (by decide) hd)

/-! ## Status and consignment -/

theorem Unhandled.stampStatusDoc (h : C current) : C (stampStatusDoc current data) := by
  have hdoc : C (if (get data "source_doc_id").truthy then
      Dicts.set (Dicts.set current "status_doc_id" (get data "source_doc_id")) "status_doc_number"
        ((get data "doc_number").orElse (.str ""))
      else Dicts.pop (Dicts.pop current "status_doc_id") "status_doc_number") := by
    split_ifs
    · exact hC.set (by decide) (hC.set (by decide) h)
    · exact hC.pop (by decide) (hC.pop (by decide) h)
  exact iteInduction (motive := C) (fun _ => hC.set (by decide) hdoc) fun _ => hC.pop (by decide) hdoc

theorem Unhandled.setStatus (h : C current) : C (setStatus current value data) :=
  hC.stampStatusDoc (hC.set (by decide) h)

theorem Unhandled.setConsignment (h : C current) : C (setConsignment current data) := by
  unfold StoredItem.setConsignment
  split
  · exact hC.set (by decide) h
  · exact h

theorem Unhandled.applyStatus {doc : Dict} (h : C current) : Ensures (applyStatus current data field doc) C :=
  .after fun _ => ensures_ok.2 (hC.setStatus h)

/-! ## Edits -/

theorem Unhandled.keepAlias (h : C current) : Ensures (keepAlias T current value) C := by
  refine .ite (fun _ => .after fun change => .ite (fun _ => ?_) fun _ => ensures_ok.2 h) fun _ => ensures_ok.2 h
  refine .after fun aliases => ensures_ok.2 ?_
  exact iteInduction (motive := C) (fun _ => hC.set (by decide) h) fun _ => h

theorem Unhandled.setAttribute {set : Option Json} (hfield : isCoreItemKey field = false) (h : C current) :
    Ensures (setAttribute T current field set) C :=
  .after fun _ => ensures_ok.2 (hC.move hfield (hC.set (by decide) h))

/-! ## Files -/

theorem Unhandled.changeFiles {change : Dict → Except Raised Dict} (h : C current) :
    Ensures (changeFiles current change) C := by
  unfold StoredItem.changeFiles
  cases Dicts.get? current "files" with
  | none => exact ensures_ok.2 h
  | some v => exact .after fun files => ensures_ok.2 (hC.set (by decide) h)

theorem Unhandled.migrateStoredAttachments (h : C current) : Ensures (migrateStoredAttachments current) C := by
  refine .ite (fun _ => ensures_ok.2 h) fun _ => .after fun old => .after fun migrated => ensures_ok.2 ?_
  exact hC.set (by decide) (hC.set (by decide) h)

theorem Unhandled.fileAttached (h : C current) : Ensures (applyFileAttached current data) C := by
  refine (hC.migrateStoredAttachments h).bind fun d hd => .after fun entry => ?_
  have hfiles : C (Dicts.setDefault d "files" (.arr [])) := hC.setDefault (by decide) hd
  refine Ensures.bind (P := C) (.ite (fun _ => ?_) fun _ => ensures_ok.2 hfiles) fun d hd =>
    .after fun files => ensures_ok.2 (hC.set (by decide) hd)
  exact (hC.changeFiles hfiles).bind fun d hd => ensures_ok.2 (hC.set (by decide) hd)

theorem Unhandled.fileDeleted (h : C current) : Ensures (applyFileDeleted current data) C := by
  refine .after fun id => .after fun items => .after fun files => .ite (fun _ => .after fun images => ?_) fun _ => ?_
  · have hpromoted := hC.set (v := .arr ((promoteFirst (files.filter fun f => !same (get f "id") id) images).map .obj))
      (k := "files") (by decide) h
    split
    · exact .after fun preview => ensures_ok.2 (hC.set (by decide) hpromoted)
    · exact ensures_ok.2 (hC.set (by decide) hpromoted)
  · exact ensures_ok.2 (hC.set (by decide) h)

theorem Unhandled.fileHeroSet (h : C current) : Ensures (applyFileHeroSet current data) C := by
  refine .after fun id => (hC.changeFiles h).bind fun d hd => .after fun items => .after fun files => ?_
  split
  · exact .after fun preview => ensures_ok.2 (hC.set (by decide) hd)
  · exact ensures_ok.2 (hC.set (by decide) hd)

/-! ## The other events -/

theorem Unhandled.landedCost {amount : ℚ} (h : C current) : Ensures (applyLandedCost T current data amount) C :=
  .after fun _ => .after fun _ => .after fun _ =>
    (hC.setLandedPools h).bind fun _ hd => hC.recomputeCost hd

theorem Unhandled.addTo {key : String} (hfield : field ∈ HANDLED_FIELDS) (h : C current) :
    Ensures (addTo T current data field key) C :=
  .after fun _ => .after fun _ => .after fun _ => ensures_ok.2 (hC.set hfield h)

theorem Unhandled.fulfilled (h : C current) : Ensures (applyFulfilled T current data) C := by
  refine .after fun qty => .after fun docId => .after fun docs => ensures_ok.2 (hC.set (by decide) ?_)
  exact hC.setDefault (by decide) (hC.setStatus (hC.set (by decide) (hC.set (by decide) h)))

theorem Unhandled.fulfillmentReversed (h : C current) : Ensures (applyFulfillmentReversed T current data) C := by
  refine .after fun restored => .after fun qty => ?_
  have hstatus : C (StoredItem.setStatus (Dicts.set current "quantity" (.num qty)) (.str "available") []) :=
    hC.setStatus (hC.set (by decide) h)
  refine .ite (fun _ => .after fun held => .ite (fun _ => ?_) fun _ => ensures_ok.2 hstatus) fun _ =>
    ensures_ok.2 hstatus
  exact .after fun docs => ensures_ok.2 (hC.set (by decide) hstatus)

theorem Unhandled.transferred (h : C current) : Ensures (applyTransferred current data) C := by
  refine .after fun location => ensures_ok.2 ?_
  have hset : C (Dicts.set current "location_id" location) := hC.set (by decide) h
  cases Dicts.get? data "updated_at" with
  | none => exact hset
  | some v => exact hC.set (by decide) hset

/-- Events whose data names no other field: the ones that are not creations, edits, prices or
    records of accounts. -/
def EventType.Handled : EventType → Prop
  | .created | .snapshot | .updated | .patched | .pricingSet | .inventoryAccountRecorded | .inventoryAccountMoved
  | .consignorPayableRecorded | .consignmentBought => False
  | _ => True

/-- **An event that names no other field keeps what holds whatever the handled fields are.** -/
theorem Unhandled.applyTyped {type : EventType} (htype : type.Handled) (h : C current) :
    Ensures (applyTyped T current data type) C := by
  cases type with
  | created => exact htype.elim
  | snapshot => exact htype.elim
  | updated => exact htype.elim
  | pricingSet => exact htype.elim
  | inventoryAccountRecorded => exact htype.elim
  | inventoryAccountMoved => exact htype.elim
  | consignorPayableRecorded => exact htype.elim
  | consignmentBought => exact htype.elim
  | patched => exact htype.elim
  | statusSet => exact hC.applyStatus h
  | transferred => exact hC.transferred h
  | quantityAdjusted =>
    exact .after fun _ => (hC.setQuantity (hC.setConsignment h)).bind fun _ hd => ensures_ok.2 (hC.setUnknown hd)
  | costAdjusted =>
    exact .after fun _ => .after fun _ => (hC.recomputeCost (hC.set (by decide) h)).bind fun _ hd =>
      ensures_ok.2 (hC.setUnknown hd)
  | inventoryOnBooksRecorded => exact ensures_ok.2 h
  | landedCostAllocated => exact .after fun _ => hC.landedCost h
  | landedCostApplied => exact .after fun _ => .after fun _ => hC.landedCost h
  | expired => exact ensures_ok.2 (hC.setStatus (hC.set (by decide) h))
  | disposed => exact ensures_ok.2 (hC.setStatus (hC.set (by decide) h))
  | writtenOff => exact ensures_ok.2 (hC.setStatus h)
  | returnedToSupplier => exact ensures_ok.2 (hC.setConsignment (hC.setStatus h))
  | supplierReturnUndone => exact hC.applyStatus h
  | split => exact ensures_ok.2 (hC.set (by decide) (hC.set (by decide) h))
  | splitFrom => exact ensures_ok.2 (hC.set (by decide) h)
  | transform => exact ensures_ok.2 (hC.set (by decide) h)
  | transformedFrom => exact ensures_ok.2 (hC.set (by decide) h)
  | merged => exact ensures_ok.2 h
  | sourceDeactivated =>
    exact .after fun _ => ensures_ok.2 (hC.set (by decide) (hC.setStatus (hC.set (by decide) h)))
  | unmerged => exact (hC.applyStatus h).bind fun _ hd => ensures_ok.2 (hC.pop (by decide) hd)
  | mergeUndone => exact (hC.setQuantity h).bind fun _ hd => ensures_ok.2 (hC.setStatus hd)
  | consumed => exact .after fun _ => .after fun _ => .after fun _ => hC.setQuantity h
  | produced => exact hC.addTo (by decide) h
  | recipeSet => exact .after fun _ => ensures_ok.2 (hC.set (by decide) h)
  | workflowSet => exact .after fun _ => ensures_ok.2 (hC.set (by decide) h)
  | reserved => exact hC.addTo (by decide) h
  | unreserved => exact .after fun _ => .after fun _ => .after fun _ => ensures_ok.2 (hC.set (by decide) h)
  | fulfilled => exact hC.fulfilled h
  | fulfillmentReversed => exact hC.fulfillmentReversed h
  | fileAttached => exact hC.fileAttached h
  | fileTagged => exact hC.changeFiles h
  | fileDescriptionUpdated => exact hC.changeFiles h
  | fileDeleted => exact hC.fileDeleted h
  | fileHeroSet => exact hC.fileHeroSet h
  | unsupported eventType => exact ensures_error

end

/-! ## The fields data names -/

section
variable {T : Texts} {current data : Dict} {field : String}

/-- A field that only what names it writes: a core field, none of the handled ones. -/
structure NamedField (field : String) : Prop where
  core : isCoreItemKey field = true
  unhandled : field ∉ HANDLED_FIELDS

theorem NamedField.get? (hf : NamedField field) (v : Option Json) :
    Unhandled fun d => Dicts.get? d field = v := unhandled_get? hf.core hf.unhandled v

theorem NamedField.ne (hf : NamedField field) {k : String} (hk : k ∈ HANDLED_FIELDS) : field ≠ k := by
  rintro rfl
  exact hf.unhandled hk

/-- A creation merges its data. -/
theorem ensures_created_get? (hf : NamedField field) (hdata : (Dicts.keys data).Nodup) :
    Ensures (applyCreated T current data) fun d =>
      Dicts.get? d field = (Dicts.get? data field).or (Dicts.get? current field) := by
  have hC := hf.get? ((Dicts.get? data field).or (Dicts.get? current field))
  refine (hC.landedPoolsFromUnits (Dicts.get?_update hdata)).bind fun d hd => (hC.normalizeAttributes hd).bind fun d hd => ?_
  have hstocked := hC.setDefault (k := "inventory_type") (v := .str "stocked") (by decide)
    (hC.setDefault (k := "status") (v := .str DEFAULT_ITEM_STATUS) (by decide) hd)
  refine (hC.migrateSellBy (hC.setDefault (by decide) ?_)).bind fun d hd =>
    (hC.syncExpiry hd).bind fun d hd => hC.recomputeCost hd
  exact iteInduction (motive := fun d => Dicts.get? d field = _) (fun _ => hC.setDefault (by decide) hstocked)
    fun _ => hstocked

/-- An upsert merges its data. -/
theorem ensures_patched_get? (hf : NamedField field) (hdata : (Dicts.keys data).Nodup) :
    Ensures (applyPatched T current data) fun d =>
      Dicts.get? d field = (Dicts.get? data field).or (Dicts.get? current field) := by
  have hC := hf.get? ((Dicts.get? data field).or (Dicts.get? current field))
  have hupdate : Dicts.get? (Dicts.update current data) field = _ := Dicts.get?_update hdata
  refine (hC.normalizeAttributes ?_).bind fun d hd => (hC.migrateSellBy hd).bind fun d hd =>
    (hC.syncExpiry hd).bind fun d hd => hC.recomputeCost hd
  exact iteInduction (motive := fun d => Dicts.get? d field = _) (fun _ => hC.stampStatusDoc hupdate) fun _ => hupdate

/-- The value a change of a field leaves, none where it leaves it blank. -/
def changedTo (change : Dict) : Option Json := if (get change "new").isBlank then none else some (get change "new")

/-- What a change of a field leaves of it. -/
def LeavesChanged (field : String) (change : Option Json) (before after : Dict) : Prop :=
  match change with
  | some change => ∃ c, change = .obj c ∧ Dicts.get? after field = changedTo c
  | none => Dicts.get? after field = Dicts.get? before field

/-- A field's change is an object. -/
theorem ensures_fieldsOf {v : Json} : Ensures (fieldsOf v) fun fields => v = .obj fields := by
  cases v with
  | obj fields => exact ensures_ok.2 rfl
  | _ => exact ensures_error

/-- One field's change: the field's own value, and no other's. -/
theorem ensures_changeField_get? (hf : NamedField field) {changing : Dict × List (String × Json)} {f : String × Json} :
    Ensures (changeField T changing f) fun changed =>
      LeavesChanged field (if f.1 = field then some f.2 else none) changing.1 changed.1 := by
  have hpieces : isCoreItemKey "pieces" = false := by decide
  have hC := hf.get? (Dicts.get? changing.1 field)
  have hother : f.1 ≠ field → ∀ d, Dicts.get? d field = Dicts.get? changing.1 field →
      LeavesChanged field (if f.1 = field then some f.2 else none) changing.1 d := by
    intro hne d hd
    rwa [if_neg hne]
  refine ensures_fieldsOf.bind fun change hchange => .ite (fun hp => ?_) fun _ => .ite (fun hcost => ensures_ok.2 ?_)
    fun _ => .ite (fun _ => ensures_ok.2 ?_) fun hcore => ?_
  · -- the pieces go under the attributes
    refine (hC.setAttribute hpieces rfl).bind fun d hd => ensures_ok.2 (hother ?_ d hd)
    rintro rfl
    have hcore := hf.core
    rw [hp, hpieces] at hcore
    cases hcore
  · -- a goods cost waits for the other fields
    refine hother ?_ _ rfl
    rintro rfl
    rcases hcost with hcost | hcost
    · exact hf.ne (k := "cost_price") (by decide) hcost
    · exact hf.ne (k := "cost_total") (by decide) hcost
  · by_cases hk : f.1 = field
    · subst hk
      rw [if_pos rfl]
      refine ⟨change, hchange, ?_⟩
      have hset : Dicts.get? (if (get change "new").isBlank then Dicts.pop changing.1 f.1
          else Dicts.set changing.1 f.1 (get change "new")) f.1 = changedTo change := by
        unfold changedTo
        split_ifs
        · rw [Dicts.get?_pop, if_pos rfl]
        · rw [Dicts.get?_set, if_pos rfl]
      exact iteInduction (motive := fun d => Dicts.get? d f.1 = _)
        (fun _ => (hf.get? _).stampStatusDoc hset) fun _ => hset
    · have hne : field ≠ f.1 := fun h => hk h.symm
      refine hother hk _ ?_
      have hset : Dicts.get? (if (get change "new").isBlank then Dicts.pop changing.1 f.1
          else Dicts.set changing.1 f.1 (get change "new")) field = Dicts.get? changing.1 field := by
        split_ifs
        · rw [Dicts.get?_pop, if_neg hne]
        · rw [Dicts.get?_set, if_neg hne]
      exact iteInduction (motive := fun d => Dicts.get? d field = _)
        (fun _ => (hf.get? _).stampStatusDoc hset) fun _ => hset
  · -- a category attribute
    refine (hC.setAttribute (by simpa using hcore) rfl).bind fun d hd => ensures_ok.2 (hother ?_ d hd)
    rintro rfl
    exact hcore hf.core

/-- The changes of an edit: a field's own, where it has one. -/
theorem ensures_changes_get? (hf : NamedField field) {fields : Dict} (hfields : (Dicts.keys fields).Nodup)
    {changing : Dict × List (String × Json)} :
    Ensures (fields.foldlM (changeField T) changing) fun changed =>
      LeavesChanged field (Dicts.get? fields field) changing.1 changed.1 := by
  induction fields generalizing changing with
  | nil => exact ensures_pure.2 rfl
  | cons f fields ih =>
    rw [Dicts.keys, List.map_cons, List.nodup_cons] at hfields
    rw [List.foldlM_cons]
    refine (ensures_changeField_get? hf).bind fun changed hchanged => (ih hfields.2).mono fun last hlast => ?_
    rw [Dicts.get?_cons]
    by_cases hk : f.1 = field
    · subst hk
      rw [Dicts.get?_eq_none.2 hfields.1] at hlast
      rw [if_pos rfl] at hchanged ⊢
      obtain ⟨c, hc, hset⟩ := hchanged
      exact ⟨c, hc, Eq.trans hlast hset⟩
    · rw [if_neg hk] at hchanged
      rw [if_neg fun h => hk h.symm]
      have hchanged : Dicts.get? changed.1 field = Dicts.get? changing.1 field := hchanged
      unfold LeavesChanged at hlast ⊢
      rwa [hchanged] at hlast

/-- An edit sets the fields it changes. -/
theorem ensures_updated_get? (hf : NamedField field) {fields : Dict}
    (hchanged : Dicts.get? data "fields_changed" = some (.obj fields)) (hfields : (Dicts.keys fields).Nodup) :
    Ensures (applyUpdated T current data) (LeavesChanged field (Dicts.get? fields field) current) := by
  have hitem : item data "fields_changed" = .ok (.obj fields) := by rw [item, hchanged]
  refine ensures_bind.2 ?_
  rw [hitem]
  refine ensures_ok.2 (ensures_fieldsOf.bind fun fields' hsame => ?_)
  obtain rfl : fields = fields' := Json.obj.inj hsame
  refine ((hf.get? (Dicts.get? current field)).keepAlias rfl).bind fun aliased haliased =>
    (ensures_changes_get? hf hfields).bind fun changing hchanging => ?_
  -- the goods costs and the cost recomputed keep what the changes left of the field
  have hleft : LeavesChanged field (Dicts.get? fields field) current changing.1 := by
    unfold LeavesChanged at hchanging ⊢
    rwa [haliased] at hchanging
  have hC := hf.get? (Dicts.get? changing.1 field)
  refine Ensures.bind (P := fun d => Dicts.get? d field = Dicts.get? changing.1 field) ?_ fun costed hcosted =>
    (hC.syncExpiry hcosted).bind fun synced hsynced => (hC.recomputeCost hsynced).mono fun d hd => ?_
  · exact Ensures.foldlM (P := fun d => Dicts.get? d field = _) rfl fun d hd c _ => hC.applyGoodsCost hd
  · unfold LeavesChanged at hleft ⊢
    rwa [hd]

/-- A price of another name. -/
theorem ensures_pricing_get? (hf : NamedField field) (hprice : ∃ key, Dicts.get? data "price_type" = some (.str key) ∧
    key ≠ field) :
    Ensures (applyPricingSet T current data) fun d => Dicts.get? d field = Dicts.get? current field := by
  obtain ⟨key, hkey, hne⟩ := hprice
  intro d h
  obtain ⟨type, htype, h⟩ := bind_eq_ok.1 h
  obtain rfl : .str key = type := by
    rw [item, hkey] at htype
    exact Except.ok.inj htype
  obtain ⟨price, -, h⟩ := bind_eq_ok.1 h
  obtain ⟨name, hname, h⟩ := bind_eq_ok.1 h
  cases hname
  split_ifs at h
  · exact (hf.get? _).applyGoodsCost rfl d h
  · cases h
    rw [Dicts.get?_set, if_neg fun h => hne h.symm]

end

end StoredItem

end Celerp
