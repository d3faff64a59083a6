/-
  What a void remembers, against the void the document stands under.

  `doc.voided` sets down the status and the fulfillment its data carries, and
  `doc.unvoided` takes back the status alone.  No other event looks at either.

  * `TrackedDocument` is a document with the void it stands under (`standing`);
  * `EndsVoid`: the events that take a void document out of its void
    (`applyDocumentsEvent_void_iff`);
  * `KeepsMemory`: the events after which a document remembers what it should
    (`remembers_step_iff`);
  * `void_memory_iff`: a run leaves every document it reaches remembering its own void and
    no other exactly where all its events do.
-/
import Celerp.Docs.DocumentEvents
import Celerp.Docs.Unissued

namespace Celerp

open Runs

/-! ## The void a document stands under -/

namespace VoidData
variable (data : VoidData)

/-- The status a void carried, where it carried one. -/
def carriedStatus : Option DocStatus := data.preVoidStatus.filter (· ≠ .other "")

/-- The fulfillment status a void carried, where it carried one. -/
def carriedFulfillment : Option String := nonblank data.preVoidFulfillment

end VoidData

/-- A document with the void it stands under. -/
structure TrackedDocument where
  doc : DocumentState
  standing : Option VoidData
  deriving DecidableEq

namespace TrackedDocument

/-- A document as it is created: it stands under no void. -/
def opened (data : DocumentFields) : TrackedDocument where
  doc := applyDocumentsEvent .empty (.created data)
  standing := none

/-- An event on a document.  A void of a document not void is the one it stands under from
    then on, until its status is void no more. -/
def step (t : TrackedDocument) (e : DocumentEvent) : TrackedDocument where
  doc := applyDocumentsEvent t.doc e
  standing :=
    match e with
    | .voided data => if t.doc.status = some .void then t.standing else some data
    | e => if (applyDocumentsEvent t.doc e).status = some .void then t.standing else none

/-- What the document remembers is there only while it is void, and is what the void it
    stands under carried. -/
structure Remembers (t : TrackedDocument) : Prop where
  only_void : t.doc.status ≠ some .void → t.doc.preVoidStatus = none ∧ t.doc.preVoidFulfillment = none
  status_eq : t.doc.status = some .void → t.doc.preVoidStatus = t.standing.bind VoidData.carriedStatus
  fulfillment_eq :
    t.doc.status = some .void → t.doc.preVoidFulfillment = t.standing.bind VoidData.carriedFulfillment

/-- A void carries the status of the document, and its fulfillment status where it has one. -/
def Carries (t : TrackedDocument) : DocumentEvent → Prop
  | .voided data => data.preVoidStatus = t.doc.status ∧ data.preVoidFulfillment = t.doc.fulfillmentStatus
  | _ => True

end TrackedDocument

/-! ## What an event does to it -/

/-- The fields an event's data names. -/
def DocumentEvent.fields : DocumentEvent → DocumentFields
  | .created data | .updated data | .renumbered data | .sharedImport data | .patched data => data
  | _ => {}

/-- The data leaves a document a status other than void. -/
def DocumentFields.NamesOther (data : DocumentFields) : Prop := ∃ v, data.status = some v ∧ v ≠ .void

/-- What went back, with the items of one more return. -/
def DocumentState.returnedWith (s : DocumentState) (items : List ReturnEntry) : ℚ :=
  s.totalReturned + (items.map (·.quantityReturned)).sum

/-- The events that take a void document out of its void. -/
def EndsVoid (s : DocumentState) : DocumentEvent → Prop
  | .created data | .renumbered data | .patched data => data.NamesOther
  | .updated data => s.writesStatus data ∧ data.NamesOther
  | .unvoided restoredStatus | .reopened restoredStatus => restoredStatus ≠ some .void
  | .payment e => ¬LeavesUnissued s.toDocument e
  | .itemsReturned data =>
    data.allReturned.isSome ∨ 0 < s.returnedWith data.items ∨
      (0 < s.totalReceived ∧ s.totalReceived ≤ s.returnedWith data.items + 1 / 10 ^ 9)
  | .sent | .finalized _ | .convertedToBill _ | .revertedToDraft _ | .closed | .converted | .received _ _
  | .supplierReturnUndone _ _ _ | .receiveUndone | .sharedImport _ => True
  | .voided _ | .fulfilled | .partiallyFulfilled | .partiallyReverted | .fulfillmentReversed | .noted _ => False

/-- An event names what a void remembers only as the document remembers it. -/
def NamesHeld (s : DocumentState) (e : DocumentEvent) : Prop :=
  (∀ v, e.fields.preVoidStatus = some v → s.preVoidStatus = some v) ∧
    ∀ v, e.fields.preVoidFulfillment = some v → s.preVoidFulfillment = some v

/-- What an event on a void document needs it to remember: an unvoid, which takes back the
    status, no fulfillment, and one that keeps it void no status; another event that ends
    the void, neither. -/
def Forgotten (s : DocumentState) : DocumentEvent → Prop
  | .unvoided restoredStatus =>
    if restoredStatus = some .void then s.preVoidStatus = none else s.preVoidFulfillment = none
  | e => EndsVoid s e → s.preVoidStatus = none ∧ s.preVoidFulfillment = none

/-- The events after which a document remembers what it should. -/
def KeepsMemory (t : TrackedDocument) (e : DocumentEvent) : Prop :=
  NamesHeld t.doc e ∧ (t.doc.status = some .void → Forgotten t.doc e)

section
variable {s : DocumentState} {e : DocumentEvent}

/-! ## The status -/

theorem statusPaid_ne_void : s.statusPaid ≠ .void := by
  intro h
  have hissued : s.statusPaid ∉ UNISSUED_STATUSES := paymentStatus_issued s.toDocument _ _
  rw [h] at hissued
  exact hissued (by decide)

theorem statusWithoutReceipts_ne_void : s.statusWithoutReceipts ≠ .void := by
  unfold DocumentState.statusWithoutReceipts
  split_ifs
  · decide
  · decide
  · exact statusPaid_ne_void

theorem receiptStatus_ne_void : s.receiptStatus ≠ .void := by
  unfold DocumentState.receiptStatus
  dsimp only
  split_ifs
  · decide
  · decide
  · exact statusWithoutReceipts_ne_void

theorem readReceipts_status_ne_void : s.readReceipts.status ≠ some .void := by
  intro h
  exact receiptStatus_ne_void (Option.some.inj h)

theorem clearReceipts_status : s.clearReceipts.status = s.status := by
  unfold DocumentState.clearReceipts
  dsimp only
  split_ifs <;> rfl

theorem revertToDraft_status_ne_void (docType : Option DocType) : (s.revertToDraft docType).status ≠ some .void := by
  unfold DocumentState.revertToDraft
  dsimp only
  split_ifs
  · rw [clearReceipts_status]
    simp
  · simp
  · exact readReceipts_status_ne_void
  · simp

theorem undoSupplierReturn_status_ne_void (returnKey : Option String) (payable supplier : ℚ) :
    (s.undoSupplierReturn returnKey payable supplier).status ≠ some .void := by
  unfold DocumentState.undoSupplierReturn
  dsimp only
  split_ifs
  · simp
  · simpa using statusPaid_ne_void
  · exact readReceipts_status_ne_void

/-- Data leaves a void document void unless it names another status. -/
theorem or_eq_void_iff {status : Option DocStatus} {data : DocumentFields} (h : status = some .void) :
    data.status.or status = some .void ↔ ¬data.NamesOther := by
  rw [DocumentFields.NamesOther, h]
  cases hdata : data.status with
  | none => simp
  | some v => simp

theorem create_status (data : DocumentFields) : (s.create data).status = (data.status.or s.status).or (some .draft) := by
  unfold DocumentState.create
  dsimp only
  split_ifs <;> rfl

/-- An edit leaves a void document void unless it may write the status, and names another. -/
theorem edit_void_iff (h : s.status = some .void) (data : DocumentFields) :
    (s.edit data).status = some .void ↔ ¬(s.writesStatus data ∧ data.NamesOther) := by
  have hwritten : (s.update (s.changes data)).status = some .void ↔ ¬(s.writesStatus data ∧ data.NamesOther) := by
    by_cases hwrites : s.writesStatus data
    · rw [DocumentState.changes, if_pos hwrites, DocumentState.update, or_eq_void_iff h]
      simp [hwrites]
    · rw [DocumentState.changes, if_neg hwrites]
      simp [DocumentState.update, hwrites, h]
  rw [← hwritten]
  unfold DocumentState.edit
  dsimp only
  split_ifs with hmoney hcredited hpaid
  · rfl
  · obtain ⟨status, hmem, hstatus⟩ := hpaid
    rw [hstatus]
    simp only [Option.some.injEq, statusPaid_ne_void, false_iff]
    rintro rfl
    exact absurd hmem (by decide)
  · rfl
  · rfl

theorem takeReturn_status (data : ReturnData) : (s.takeReturn data).status = s.status := by
  unfold DocumentState.takeReturn
  dsimp only
  split_ifs <;> rfl

theorem takeReturn_totalReceived (data : ReturnData) : (s.takeReturn data).totalReceived = s.totalReceived := by
  unfold DocumentState.takeReturn
  dsimp only
  split_ifs <;> rfl

theorem takeReturn_totalReturned (data : ReturnData) :
    (s.takeReturn data).totalReturned = s.returnedWith data.items := by
  have hitems : (s.takeReturn data).returnedItems = s.returnedItems ++ data.items := by
    unfold DocumentState.takeReturn
    dsimp only
    split_ifs <;> rfl
  rw [DocumentState.totalReturned, hitems, List.map_append, List.sum_append]
  rfl

theorem returnItems_void_iff (h : s.status = some .void) (data : ReturnData) :
    (s.returnItems data).status = some .void ↔
      ¬(data.allReturned.isSome ∨ 0 < s.returnedWith data.items ∨
        (0 < s.totalReceived ∧ s.totalReceived ≤ s.returnedWith data.items + 1 / 10 ^ 9)) := by
  unfold DocumentState.returnItems
  dsimp only
  rw [takeReturn_totalReceived, takeReturn_totalReturned]
  cases data.allReturned with
  | some all => cases all <;> simp
  | none =>
    dsimp only
    split_ifs with hall hsome
    · simp only [Option.some.injEq, reduceCtorEq, false_iff, not_not]
      exact .inr (.inr hall)
    · simp only [Option.some.injEq, reduceCtorEq, false_iff, not_not]
      exact .inr (.inl hsome)
    · rw [takeReturn_status, h]
      simp only [Option.isSome_none, Bool.false_eq_true, false_or, true_iff]
      rintro (hreturned | hreturned)
      · exact hsome hreturned
      · exact hall hreturned

/-- **The events that end a void.** -/
theorem applyDocumentsEvent_void_iff (h : s.status = some .void) (e : DocumentEvent) :
    (applyDocumentsEvent s e).status = some .void ↔ ¬EndsVoid s e := by
  cases e with
  | created data =>
    rw [applyDocumentsEvent, create_status, EndsVoid, ← or_eq_void_iff h, h]
    cases data.status <;> simp
  | updated data => exact edit_void_iff h data
  | renumbered data => exact or_eq_void_iff h
  | patched data => exact or_eq_void_iff h
  | sharedImport data => simp [applyDocumentsEvent, DocumentState.importShared, EndsVoid]
  | voided data => simp [applyDocumentsEvent, DocumentState.markVoid, EndsVoid, h]
  | unvoided restoredStatus =>
    cases restoredStatus <;> simp [applyDocumentsEvent, DocumentState.unvoid, EndsVoid]
  | reopened restoredStatus =>
    cases restoredStatus with
    | none => simp [applyDocumentsEvent, EndsVoid]
    | some v =>
      by_cases hv : v = .other "" <;> simp [applyDocumentsEvent, EndsVoid, Option.filter, hv]
  | payment e =>
    rw [EndsVoid, not_not, ← applyPayment_status_iff ⟨.void, by decide, h⟩, h]
    rfl
  | received items ids =>
    simpa only [applyDocumentsEvent, DocumentState.receiveItems, EndsVoid, not_true_eq_false, iff_false] using
      readReceipts_status_ne_void
  | itemsReturned data => exact returnItems_void_iff h data
  | supplierReturnUndone returnKey payable supplier =>
    simpa only [applyDocumentsEvent, EndsVoid, not_true_eq_false, iff_false] using
      undoSupplierReturn_status_ne_void returnKey payable supplier
  | receiveUndone =>
    simpa [applyDocumentsEvent, DocumentState.undoReceive, EndsVoid] using statusWithoutReceipts_ne_void
  | revertedToDraft docType =>
    simpa only [applyDocumentsEvent, EndsVoid, not_true_eq_false, iff_false] using revertToDraft_status_ne_void docType
  | finalized skipReceiving => cases skipReceiving <;> simp [applyDocumentsEvent, EndsVoid]
  | sent | convertedToBill | closed | converted => simp [applyDocumentsEvent, EndsVoid]
  | fulfilled | partiallyFulfilled | partiallyReverted | fulfillmentReversed | noted =>
    simp [applyDocumentsEvent, EndsVoid, h]

/-! ## The memory -/

/-- What a document remembers of its void. -/
def DocumentState.memory (s : DocumentState) : Option DocStatus × Option String :=
  (s.preVoidStatus, s.preVoidFulfillment)

/-- Data written over what a document remembers. -/
def DocumentFields.overMemory (data : DocumentFields) (s : DocumentState) : Option DocStatus × Option String :=
  (data.preVoidStatus.or s.preVoidStatus, data.preVoidFulfillment.or s.preVoidFulfillment)

theorem create_memory (data : DocumentFields) : (s.create data).memory = data.overMemory s := by
  unfold DocumentState.create
  dsimp only
  split_ifs <;> rfl

theorem edit_memory (data : DocumentFields) : (s.edit data).memory = data.overMemory s := by
  have hchanges : (s.changes data).overMemory s = data.overMemory s := by
    unfold DocumentState.changes
    split_ifs <;> rfl
  rw [← hchanges]
  unfold DocumentState.edit
  dsimp only
  split_ifs <;> rfl

theorem revertToDraft_memory (docType : Option DocType) : (s.revertToDraft docType).memory = s.memory := by
  unfold DocumentState.revertToDraft DocumentState.clearReceipts
  dsimp only
  split_ifs <;> rfl

theorem takeReturn_memory (data : ReturnData) : (s.takeReturn data).memory = s.memory := by
  unfold DocumentState.takeReturn
  dsimp only
  split_ifs <;> rfl

theorem returnItems_memory (data : ReturnData) : (s.returnItems data).memory = s.memory := by
  have htake : (s.returnItems data).memory = (s.takeReturn data).memory := by
    unfold DocumentState.returnItems
    dsimp only
    split
    · rfl
    · rfl
    · split_ifs <;> rfl
  rw [htake, takeReturn_memory]

theorem undoSupplierReturn_memory (returnKey : Option String) (payable supplier : ℚ) :
    (s.undoSupplierReturn returnKey payable supplier).memory = s.memory := by
  unfold DocumentState.undoSupplierReturn
  dsimp only
  split_ifs <;> rfl

/-- **Only a void and an unvoid look at what a document remembers**; another event writes
    over it what its data names. -/
theorem applyDocumentsEvent_memory (hvoid : ∀ data, e ≠ .voided data) (hunvoid : ∀ restored, e ≠ .unvoided restored) :
    (applyDocumentsEvent s e).memory = e.fields.overMemory s := by
  cases e with
  | voided data => exact absurd rfl (hvoid data)
  | unvoided restored => exact absurd rfl (hunvoid restored)
  | created data => exact create_memory data
  | updated data => exact edit_memory data
  | revertedToDraft docType => exact revertToDraft_memory docType
  | itemsReturned data => exact returnItems_memory data
  | supplierReturnUndone returnKey payable supplier => exact undoSupplierReturn_memory returnKey payable supplier
  | _ => rfl

end

/-! ## One event -/

namespace TrackedDocument

/-- A document not void stands under no void. -/
def Tracks (t : TrackedDocument) : Prop := t.doc.status ≠ some .void → t.standing = none

section
variable {t : TrackedDocument} {e : DocumentEvent}

theorem remembers_iff_of_void (h : t.doc.status = some .void) : t.Remembers ↔
    t.doc.preVoidStatus = t.standing.bind VoidData.carriedStatus ∧
      t.doc.preVoidFulfillment = t.standing.bind VoidData.carriedFulfillment := by
  constructor
  · intro hr
    exact ⟨hr.status_eq h, hr.fulfillment_eq h⟩
  · rintro ⟨hstatus, hfulfillment⟩
    exact ⟨fun hne => absurd h hne, fun _ => hstatus, fun _ => hfulfillment⟩

theorem remembers_iff_of_not_void (h : t.doc.status ≠ some .void) :
    t.Remembers ↔ t.doc.preVoidStatus = none ∧ t.doc.preVoidFulfillment = none := by
  constructor
  · intro hr
    exact hr.only_void h
  · intro hnone
    exact ⟨fun _ => hnone, fun hv => absurd hv h, fun hv => absurd hv h⟩

theorem step_doc (t : TrackedDocument) (e : DocumentEvent) : (t.step e).doc = applyDocumentsEvent t.doc e := rfl

/-- Only a void is what a document stands under from then on. -/
theorem step_standing (hvoid : ∀ data, e ≠ .voided data) :
    (t.step e).standing = if (t.step e).doc.status = some .void then t.standing else none := by
  cases e with
  | voided data => exact absurd rfl (hvoid data)
  | _ => rfl

theorem tracks_step (t : TrackedDocument) (e : DocumentEvent) : (t.step e).Tracks := by
  intro hne
  by_cases hvoid : ∀ data, e ≠ .voided data
  · rw [step_standing hvoid, if_neg hne]
  · push Not at hvoid
    obtain ⟨data, rfl⟩ := hvoid
    refine absurd ?_ hne
    rw [step_doc, applyDocumentsEvent, DocumentState.markVoid]
    split_ifs with hv
    · exact hv
    · rfl

/-- Writing over a value leaves it as it is where what is written is that value. -/
theorem or_eq_self_iff {α : Type} {v w : Option α} : v.or w = w ↔ ∀ x, v = some x → w = some x := by
  cases v with
  | none => simp
  | some x =>
    constructor
    · intro h y hy
      obtain rfl : x = y := Option.some.inj hy
      exact h.symm
    · intro h
      exact (h x rfl).symm

theorem remembers_voided (h : t.Remembers) (data : VoidData) : (t.step (.voided data)).Remembers := by
  by_cases hv : t.doc.status = some .void
  · have hsame : t.step (.voided data) = t := by
      simp only [step, applyDocumentsEvent, DocumentState.markVoid, if_pos hv]
    rwa [hsame]
  · obtain ⟨hstatus, hfulfillment⟩ := (remembers_iff_of_not_void hv).1 h
    rw [remembers_iff_of_void] <;>
      simp [step, applyDocumentsEvent, DocumentState.markVoid, hv, hstatus, hfulfillment, VoidData.carriedStatus,
        VoidData.carriedFulfillment]

theorem remembers_unvoided_iff (ht : t.Tracks) (h : t.Remembers) (restored : Option DocStatus) :
    (t.step (.unvoided restored)).Remembers ↔ (t.doc.status = some .void → Forgotten t.doc (.unvoided restored)) := by
  have hafter : (t.step (.unvoided restored)).doc.status = some .void ↔ restored = some .void := by
    cases restored <;> simp [step, applyDocumentsEvent, DocumentState.unvoid]
  have hstatus : (t.step (.unvoided restored)).doc.preVoidStatus = none := rfl
  have hfulfillment : (t.step (.unvoided restored)).doc.preVoidFulfillment = t.doc.preVoidFulfillment := rfl
  by_cases hr : restored = some .void
  · have hstanding : (t.step (.unvoided restored)).standing = t.standing := if_pos (hafter.2 hr)
    rw [remembers_iff_of_void (hafter.2 hr), hstatus, hfulfillment, hstanding]
    by_cases hv : t.doc.status = some .void
    · rw [← h.status_eq hv, ← h.fulfillment_eq hv]
      simp [hv, Forgotten, hr, eq_comm]
    · simp [hv, ht hv, (h.only_void hv).2]
  · rw [remembers_iff_of_not_void (mt hafter.1 hr), hstatus, hfulfillment]
    by_cases hv : t.doc.status = some .void
    · simp [hv, Forgotten, hr]
    · simp [hv, (h.only_void hv).2]

theorem remembers_other_iff (hvoid : ∀ data, e ≠ .voided data) (hunvoid : ∀ restored, e ≠ .unvoided restored)
    (ht : t.Tracks) (h : t.Remembers) : (t.step e).Remembers ↔ KeepsMemory t e := by
  have hmemory := applyDocumentsEvent_memory (s := t.doc) hvoid hunvoid
  have hstatus : (t.step e).doc.preVoidStatus = e.fields.preVoidStatus.or t.doc.preVoidStatus :=
    congrArg Prod.fst hmemory
  have hfulfillment :
      (t.step e).doc.preVoidFulfillment = e.fields.preVoidFulfillment.or t.doc.preVoidFulfillment :=
    congrArg Prod.snd hmemory
  have hstanding := step_standing (t := t) hvoid
  have hforgotten : Forgotten t.doc e ↔
      (EndsVoid t.doc e → t.doc.preVoidStatus = none ∧ t.doc.preVoidFulfillment = none) := by
    cases e with
    | unvoided restored => exact absurd rfl (hunvoid restored)
    | _ => rfl
  rw [KeepsMemory, NamesHeld, ← or_eq_self_iff, ← or_eq_self_iff, hforgotten]
  by_cases hv : t.doc.status = some .void
  · have hafter : (t.step e).doc.status = some .void ↔ ¬EndsVoid t.doc e := applyDocumentsEvent_void_iff hv e
    by_cases hend : EndsVoid t.doc e
    · rw [remembers_iff_of_not_void (fun hstill => hafter.1 hstill hend), hstatus, hfulfillment]
      simp only [hv, hend, true_imp_iff, Option.or_eq_none_iff]
      constructor
      · rintro ⟨⟨hp, hP⟩, hf, hF⟩
        simp [hp, hP, hf, hF]
      · rintro ⟨⟨hp, hf⟩, hP, hF⟩
        rw [hP, Option.or_none] at hp
        rw [hF, Option.or_none] at hf
        exact ⟨⟨hp, hP⟩, hf, hF⟩
    · rw [remembers_iff_of_void (hafter.2 hend), hstatus, hfulfillment, hstanding, if_pos (hafter.2 hend),
        ← h.status_eq hv, ← h.fulfillment_eq hv]
      simp [hend]
  · obtain ⟨hP, hF⟩ := h.only_void hv
    have hnone : (t.step e).standing = none := by
      rw [hstanding, ht hv, ite_self]
    by_cases hafter : (t.step e).doc.status = some .void
    · rw [remembers_iff_of_void hafter, hstatus, hfulfillment, hnone, hP, hF]
      simp [hv]
    · rw [remembers_iff_of_not_void hafter, hstatus, hfulfillment, hP, hF]
      simp [hv]

/-- **An event leaves a document remembering what it should exactly where it is one that
    keeps its memory.** -/
theorem remembers_step_iff (ht : t.Tracks) (h : t.Remembers) (e : DocumentEvent) :
    (t.step e).Remembers ↔ KeepsMemory t e := by
  by_cases hvoid : ∃ data, e = .voided data
  · obtain ⟨data, rfl⟩ := hvoid
    refine iff_of_true (remembers_voided h data) ⟨⟨nofun, nofun⟩, ?_⟩
    exact fun _ hend => hend.elim
  by_cases hunvoid : ∃ restored, e = .unvoided restored
  · obtain ⟨restored, rfl⟩ := hunvoid
    rw [remembers_unvoided_iff ht h]
    exact (and_iff_right ⟨nofun, nofun⟩).symm
  · exact remembers_other_iff (not_exists.1 hvoid) (not_exists.1 hunvoid) ht h

end

end TrackedDocument

/-! ## The claim -/

/-- A document created without what a void remembers remembers what it should. -/
theorem opened_remembers {data : DocumentFields}
    (hnew : data.preVoidStatus = none ∧ data.preVoidFulfillment = none) :
    (TrackedDocument.opened data).Remembers := by
  have hmemory : (TrackedDocument.opened data).doc.memory = (none, none) := by
    refine (create_memory data).trans ?_
    simp [DocumentFields.overMemory, hnew, DocumentState.empty]
  have hstatus : (TrackedDocument.opened data).doc.preVoidStatus = none := congrArg Prod.fst hmemory
  have hfulfillment : (TrackedDocument.opened data).doc.preVoidFulfillment = none := congrArg Prod.snd hmemory
  exact ⟨fun _ => ⟨hstatus, hfulfillment⟩, fun _ => hstatus, fun _ => hfulfillment⟩

/-- **What a void remembers belongs to that void** in every state of a run exactly where
    each of its events keeps the memory. -/
theorem void_memory_iff (data : DocumentFields) (hnew : data.preVoidStatus = none ∧ data.preVoidFulfillment = none)
    (es : List DocumentEvent) :
    (TrackedDocument.opened data).Remembers ∧
        EveryAfter TrackedDocument.step TrackedDocument.Remembers (TrackedDocument.opened data) es ↔
      EveryStep TrackedDocument.step KeepsMemory (TrackedDocument.opened data) es := by
  rw [and_iff_right (opened_remembers hnew)]
  refine everyAfter_iff (P := fun _ _ => True) (I := fun t => t.Tracks ∧ t.Remembers) ?_ ?_
    ⟨fun _ => rfl, opened_remembers hnew⟩ (everyStep_of_forall fun _ _ => trivial)
  · rintro t e ⟨ht, h⟩ -
    exact TrackedDocument.remembers_step_iff ht h e
  · rintro t e ⟨ht, h⟩ - hkeeps
    exact ⟨t.tracks_step e, (TrackedDocument.remembers_step_iff ht h e).2 hkeeps⟩

/-- An invoice over 100. -/
def goodsInvoice : DocumentFields where
  docType := some .invoice
  currency := some "USD"
  total := some 100

/-- Issued, voided and brought back before its goods are shipped, the invoice remembers its own
    void all along. -/
theorem void_memory_unshipped :
    (TrackedDocument.opened goodsInvoice).Remembers ∧
      EveryAfter TrackedDocument.step TrackedDocument.Remembers (TrackedDocument.opened goodsInvoice)
        [.finalized false, .voided { preVoidStatus := some .final }, .unvoided (some .final), .fulfilled] := by
  refine (void_memory_iff goodsInvoice ⟨rfl, rfl⟩ _).2 ⟨⟨⟨nofun, nofun⟩, nofun⟩, ⟨⟨nofun, nofun⟩, nofun⟩,
    ⟨⟨nofun, nofun⟩, fun _ => rfl⟩, ⟨⟨nofun, nofun⟩, nofun⟩, trivial⟩

/-- The invoice shipped, voided and brought back, its goods taken back, and voided again. -/
def voidedAgain : List DocumentEvent :=
  [.finalized false, .fulfilled,
    .voided { preVoidStatus := some .final, preVoidFulfillment := some "fulfilled" }, .unvoided (some .final),
    .fulfillmentReversed, .voided { preVoidStatus := some .final }]

/-- Each void carries what the invoice holds, the second no fulfillment; yet under the second
    the invoice remembers the first one's. -/
theorem second_void_remembers_first :
    EveryStep TrackedDocument.step TrackedDocument.Carries (TrackedDocument.opened goodsInvoice) voidedAgain ∧
      (voidedAgain.foldl TrackedDocument.step (TrackedDocument.opened goodsInvoice)).standing =
        some { preVoidStatus := some .final } ∧
      (voidedAgain.foldl TrackedDocument.step (TrackedDocument.opened goodsInvoice)).doc.preVoidFulfillment =
        some "fulfilled" ∧
      ¬EveryAfter TrackedDocument.step TrackedDocument.Remembers (TrackedDocument.opened goodsInvoice) voidedAgain := by
  refine ⟨⟨trivial, trivial, ⟨rfl, rfl⟩, trivial, trivial, ⟨rfl, rfl⟩, trivial⟩, rfl, rfl, ?_⟩
  rintro ⟨-, -, -, -, -, hlast, -⟩
  have hcarried := hlast.fulfillment_eq rfl
  cases hcarried

end Celerp
