/-
  An invoice is created in Xero once.

  `InvoicePush.Sound` is the invariant: what a create made is what the row says was sent, until the
  invoice is linked to it.  Each step keeps it (`InvoicePush.Sound.step`).

  `invoice_created_once`: over every run that Xero keeps its promises to (`InvoicePush.promised`),
  creates make at most one invoice; the row keeps the create that made it until the invoice is linked,
  and it is linked to that one.
-/
import Celerp.Connectors.XeroPush
import Celerp.Lib.Runs

namespace Celerp

/-- The create the row keeps. -/
def InvoicePush.saved (w : InvoicePush) : Option CreateState := w.row.bind (·.payload)

/-- An id that Xero has, of the invoice that was created if one was. -/
def InvoicePush.Names (w : InvoicePush) (id : ℕ) : Prop :=
  id ∈ w.invoices.map RemoteInvoice.id ∧ ∀ x ∈ w.created, id = x.id

/-- What a create says of itself. -/
structure CreateState.Fits (now : ℕ) (names : ℕ → Prop) (st : CreateState) : Prop where
  type : st.request.type = "ACCREC"
  number : st.request.invoiceNumber = some st.invoiceNumber
  begun : st.attemptedAt ≤ now
  remote : ∀ id, st.remoteId = some id → names id

/-- A create made an invoice, and Xero remembers it. -/
structure CreateState.Made (st : CreateState) (keys : List (ℕ × KeyEntry)) (x : RemoteInvoice) : Prop where
  tenant : x.tenant = st.tenantId
  type : x.type = "ACCREC"
  number : x.number = some st.invoiceNumber
  key : ∃ e, Dicts.get? keys st.idempotencyKey = some e ∧ e.id = x.id ∧ st.attemptedAt ≤ e.first

/-- The creates that may still reach Xero. -/
def InvoicePush.flying (w : InvoicePush) : List CreateCall := w.call.toList ++ w.late

/-- How far an attempt may have come. -/
def Attempt.Sound (call : Option CreateCall) (late : List CreateCall) (pushedId : Option ℕ)
    (saved : Option CreateState) : Attempt → Prop
  | .idle => call = none
  | .looking _ st => call = none ∧ late = [] ∧ pushedId = none ∧ saved = some st ∧ st.remoteId = none
  | .sending _ st => late = [] ∧ saved = some st
  | .settling _ st id => call = none ∧ late = [] ∧ saved = some st ∧ st.remoteId = some id
  | .settled _ _ => call = none ∧ late = [] ∧ pushedId ≠ none

/-- A create in flight is the one the row keeps. -/
structure CreateCall.Sound (st : CreateState) (c : CreateCall) : Prop where
  key : st.idempotencyKey = c.key
  tenant : st.tenantId = c.tenant
  request : st.request = c.request
  unknown : st.remoteId = none
  decided : c.decidedAt < st.attemptedAt + KEY_WINDOW

/-- An answer is about what was created. -/
def XeroAnswer.Sound (created : List RemoteInvoice) : XeroAnswer → Prop
  | .created id => ∃ x ∈ created, x.id = id
  | .rejected _ => created = []

/-- What a create made is kept track of. -/
structure InvoicePush.Kept (w : InvoicePush) : Prop where
  once : w.created.length ≤ 1
  kept : ∀ x ∈ w.created, ∃ i ∈ w.invoices, i.tenant = x.tenant ∧ i.id = x.id ∧ i.type = x.type ∧ i.number = x.number
  linked : ∀ id, w.pushedId = some id → w.Names id
  fits : ∀ st, w.saved = some st → st.Fits w.now w.Names
  made : ∀ x ∈ w.created, w.pushedId = none → ∃ st, w.saved = some st ∧ st.Made w.keys x
  keys : ∀ k e, Dicts.get? w.keys k = some e → ∃ x ∈ w.created, x.id = e.id
  reported : w.outcome = some .created → w.pushedId ≠ none
  attempt : w.attempt.Sound w.call w.late w.pushedId w.saved
  calls : ∀ c ∈ w.flying, w.pushedId = none ∧ ∃ st, w.saved = some st ∧ c.Sound st

structure InvoicePush.Sound (w : InvoicePush) : Prop extends w.Kept where
  answer : ∀ c, w.call = some c → ∀ a, c.answer = some a → a.Sound w.created

section
variable {T : XeroTiming} {w : InvoicePush} {doc : PushInvoice} {st : CreateState} {id : ℕ} {row : QueueRow}
  {c : CreateCall}

theorem InvoicePush.sound_fresh {storeHandle : Option String} {doc : Option PushInvoice}
    {invoices : List RemoteInvoice} : (InvoicePush.fresh storeHandle doc invoices).Sound where
  once := Nat.zero_le _
  kept := fun x hx => absurd hx List.not_mem_nil
  linked := fun id h => by cases h
  fits := fun st h => by cases h
  made := fun x hx => absurd hx List.not_mem_nil
  keys := fun k e h => by cases h
  reported := fun h => by cases h
  attempt := rfl
  calls := fun c h => absurd h List.not_mem_nil
  answer := fun c h => by cases h

/-! ### What was created so far -/

/-- Nothing was created where no create is kept and no invoice is linked. -/
theorem InvoicePush.Kept.created_nil (hw : w.Kept) (hpushed : w.pushedId = none) (hsaved : w.saved = none) :
    w.created = [] := by
  refine List.eq_nil_iff_forall_not_mem.2 fun x hx => ?_
  obtain ⟨st, hst, -⟩ := hw.made x hx hpushed
  rw [hsaved] at hst
  cases hst

theorem InvoicePush.Kept.created_eq (hw : w.Kept) {x y : RemoteInvoice} (hx : x ∈ w.created) (hy : y ∈ w.created) :
    x = y := by
  obtain ⟨z, hz⟩ := List.length_eq_one_iff.1 (Nat.le_antisymm hw.once (List.length_pos_of_mem hx))
  rw [hz, List.mem_singleton] at hx hy
  rw [hx, hy]

theorem InvoicePush.Kept.made_saved (hw : w.Kept) (hpushed : w.pushedId = none) (hsaved : w.saved = some st)
    {x : RemoteInvoice} (hx : x ∈ w.created) : st.Made w.keys x := by
  obtain ⟨st', hst', hmade⟩ := hw.made x hx hpushed
  obtain rfl := Option.some.inj (hsaved.symm.trans hst')
  exact hmade

/-- What a create made is found under the number it was sent under. -/
theorem InvoicePush.Kept.found_of_created (hw : w.Kept) (hpushed : w.pushedId = none) (hsaved : w.saved = some st)
    {x : RemoteInvoice} (hx : x ∈ w.created) : ∃ i ∈ w.found st.tenantId st.invoiceNumber, i.id = x.id := by
  have hmade := hw.made_saved hpushed hsaved hx
  obtain ⟨i, hi, htenant, hid, htype, hnumber⟩ := hw.kept x hx
  refine ⟨i, List.mem_filter.2 ⟨hi, ?_⟩, hid⟩
  simp [htenant, htype, hnumber, hmade.tenant, hmade.type, hmade.number]

/-! ### The row -/

/-- Where no create may reach Xero, there is nothing to say of one. -/
theorem forall_flying {p : CreateCall → Prop} (hcall : w.call = none) (hlate : w.late = []) : ∀ c ∈ w.flying, p c := by
  intro c hc
  rw [InvoicePush.flying, hcall, hlate] at hc
  cases hc

theorem forall_call {p : CreateCall → Prop} (hcall : w.call = none) : ∀ c, w.call = some c → p c :=
  fun c hc => absurd (hcall.symm.trans hc) (Option.some_ne_none c).symm

/-- The row keeps its create. -/
theorem InvoicePush.Sound.sameSaved (hw : w.Sound) {row : Option QueueRow} (hrow : row.bind (·.payload) = w.saved) :
    { w with row := row }.Sound where
  once := hw.once
  kept := hw.kept
  linked := hw.linked
  fits := fun st hst => hw.fits st (hrow.symm.trans hst)
  made := fun x hx hpushed => by
    obtain ⟨st, hst, hmade⟩ := hw.made x hx hpushed
    exact ⟨st, hrow.trans hst, hmade⟩
  keys := hw.keys
  reported := hw.reported
  attempt := by
    have hsame : { w with row := row }.saved = w.saved := hrow
    rw [hsame]
    exact hw.attempt
  calls := fun c hc => by
    obtain ⟨hpushed, st, hst, hcall⟩ := hw.calls c hc
    exact ⟨hpushed, st, hrow.trans hst, hcall⟩
  answer := hw.answer

/-- The attempt is over: its create may still reach Xero. -/
theorem InvoicePush.Sound.ended (hw : w.Sound) : w.ended.Sound :=
  { hw with attempt := rfl, answer := forall_call (w := w.ended) rfl }

/-- The attempt stops, and the row keeps its create. -/
theorem InvoicePush.Sound.stop (hw : w.Sound) {row : Option QueueRow} {outcome : Option PushOutcome}
    (hrow : row.bind (·.payload) = w.saved) (hreported : outcome = some .created → w.pushedId ≠ none) :
    { w.ended with row := row, outcome := outcome }.Sound :=
  { hw.ended.sameSaved hrow with reported := hreported }

theorem InvoicePush.Sound.park (hw : w.Sound) {message : String} : (w.park message).Sound := by
  refine hw.stop ?_ fun h => by cases h
  cases h : w.row <;> simp [InvoicePush.saved, h]

theorem InvoicePush.Sound.retry (hw : w.Sound) {message : String} : (w.retry message).Sound := by
  refine hw.stop ?_ fun h => by cases h
  cases h : w.row <;> simp [InvoicePush.saved, h]

/-- **The row is removed** only once nothing is in flight, and what was created is linked. -/
theorem InvoicePush.Sound.clear (hw : w.Sound) (hcall : w.call = none) (hlate : w.late = [])
    (hlinked : w.pushedId = none → w.created = []) {outcome : PushOutcome}
    (hreported : outcome = .created → w.pushedId ≠ none) : (w.clear outcome).Sound where
  once := hw.once
  kept := hw.kept
  linked := hw.linked
  fits := fun st hst => by cases hst
  made := fun x hx hpushed => by
    have hnil : w.created = [] := hlinked hpushed
    have hx' : x ∈ w.created := hx
    rw [hnil] at hx'
    cases hx'
  keys := hw.keys
  reported := fun h => hreported (Option.some.inj h)
  attempt := rfl
  calls := forall_flying (w := w) hcall hlate
  answer := fun c hc => by cases hc

/-- A create is kept that made what was created, if anything was. -/
theorem InvoicePush.Sound.keep (hw : w.Sound) (hcall : w.call = none) (hlate : w.late = [])
    (hfits : st.Fits w.now w.Names) (hmade : ∀ x ∈ w.created, w.pushedId = none → st.Made w.keys x) (row : QueueRow) :
    { w with row := some { row with payload := some st }, attempt := .idle }.Sound where
  once := hw.once
  kept := hw.kept
  linked := hw.linked
  fits := fun st' hst' => by
    obtain rfl : st = st' := Option.some.inj hst'
    exact hfits
  made := fun x hx hpushed => ⟨st, rfl, hmade x hx hpushed⟩
  keys := hw.keys
  reported := hw.reported
  attempt := hcall
  calls := forall_flying (w := w) hcall hlate
  answer := forall_call hcall

/-- The row takes Xero's id. -/
theorem InvoicePush.Sound.settle (hw : w.Sound) (hcall : w.call = none) (hlate : w.late = [])
    (hsaved : w.saved = some st) (hnames : w.Names id)
    (hmade : ∀ x ∈ w.created, w.pushedId = none → st.Made w.keys x) (row : QueueRow) :
    { w with
      row := some { row with payload := some { st with remoteId := some id } }
      attempt := .settling doc { st with remoteId := some id } id }.Sound := by
  have hfits := hw.fits st hsaved
  have hfits' : CreateState.Fits w.now w.Names { st with remoteId := some id } :=
    ⟨hfits.type, hfits.number, hfits.begun, fun id' hid => Option.some.inj hid ▸ hnames⟩
  have hkept := hw.keep hcall hlate hfits' (fun x hx hpushed => { hmade x hx hpushed with }) row
  exact { hkept with attempt := ⟨hcall, hlate, rfl, rfl⟩ }

/-! ### Attempts -/

/-- **A create is sent** while it is kept, under a key Xero remembers. -/
theorem InvoicePush.Sound.send (hw : w.Sound) (hlate : w.late = []) (hsaved : w.saved = some st)
    (hpushed : w.pushedId = none) (hremote : st.remoteId = none) (hwindow : w.now < st.attemptedAt + KEY_WINDOW) :
    (w.send doc st).Sound := by
  refine { hw with attempt := ⟨hlate, hsaved⟩, calls := fun c hc => ?_, answer := fun c hc a ha => ?_ }
  · simp only [InvoicePush.flying, InvoicePush.send, hlate, Option.toList_some, List.append_nil,
      List.mem_singleton] at hc
    subst hc
    exact ⟨hpushed, st, hsaved, rfl, rfl, rfl, hremote, hwindow⟩
  · obtain rfl := Option.some.inj hc
    cases ha

/-- **A new attempt** is made only where nothing was created. -/
theorem InvoicePush.Sound.sendAnew (hw : w.Sound) (hcall : w.call = none) (hlate : w.late = [])
    (hrow : w.row = some row) (hpushed : w.pushedId = none) (hcreated : w.created = [])
    (htype : st.request.type = "ACCREC") (hnumber : st.request.invoiceNumber = some st.invoiceNumber) (hremote : st.remoteId = none) :
    (w.sendAnew doc st).Sound := by
  have hnone : ∀ id, st.remoteId ≠ some id := by simp [hremote]
  have hkey : 0 < KEY_WINDOW := by decide
  have hfits : CreateState.Fits w.now w.Names (newAttempt w.nextKey w.now st) :=
    ⟨htype, hnumber, Nat.le_refl _, fun id hid => absurd hid (hnone id)⟩
  have hmade : ∀ x ∈ w.created, w.pushedId = none → (newAttempt w.nextKey w.now st).Made w.keys x := by
    intro x hx
    rw [hcreated] at hx
    cases hx
  have hkept : { w with
      nextKey := w.nextKey + 1
      row := some { row with payload := some (newAttempt w.nextKey w.now st) }
      attempt := .idle }.Sound := { hw.keep hcall hlate hfits hmade row with }
  simp only [InvoicePush.sendAnew, InvoicePush.saving, InvoicePush.save, hrow, Option.map_some, Option.getD_some]
  exact hkept.send hlate rfl hpushed hremote (Nat.lt_add_of_pos_right hkey)

theorem InvoicePush.Sound.firstAttempt (hw : w.Sound) (hcall : w.call = none) (hlate : w.late = [])
    (hrow : w.row = some row) (hpayload : row.payload = none) {handle : String} : (w.firstAttempt handle).Sound := by
  have hsaved : w.saved = none := by rw [InvoicePush.saved, hrow, Option.bind_some, hpayload]
  have hnil : w.pushedId = none → w.created = [] := fun hpushed => hw.created_nil hpushed hsaved
  unfold InvoicePush.firstAttempt
  split
  · exact hw.clear hcall hlate hnil fun h => by cases h
  · split_ifs with hskip
    · exact hw.clear hcall hlate hnil fun h => by cases h
    · have hpushed : w.pushedId = none := by simpa using (not_or.1 hskip).1
      split
      · exact hw.clear hcall hlate hnil fun h => by cases h
      · rename_i number hnumber
        refine hw.sendAnew hcall hlate hrow hpushed (hnil hpushed) rfl ?_ rfl
        exact (Option.filter_eq_some_iff.1 hnumber).1

theorem InvoicePush.Sound.nextAttempt (hw : w.Sound) (hcall : w.call = none) (hlate : w.late = [])
    (hsaved : w.saved = some st) {handle : String} : (w.nextAttempt handle st).Sound := by
  unfold InvoicePush.nextAttempt
  simp only
  by_cases htenant : st.tenantId ≠ handle
  · rw [if_pos htenant]
    exact hw.park
  · rw [if_neg htenant]
    split
    · exact hw.park
    · split
      · rename_i id hremote
        exact { hw with attempt := ⟨hcall, hlate, hsaved, hremote⟩ }
      · rename_i hremote
        split_ifs with hpushed hold
        · exact hw.clear hcall hlate (fun hnone => by simp [hnone] at hpushed) fun h => by cases h
        · exact { hw with attempt := ⟨hcall, hlate, by simpa using hpushed, hsaved, hremote⟩ }
        · exact hw.send hlate hsaved (by simpa using hpushed) hremote (not_le.1 (not_or.1 hold).2)

theorem InvoicePush.Sound.begin (hw : w.Sound) (hlate : w.late = []) {parked : Bool} : (w.begin parked).Sound := by
  have hattempt := hw.attempt
  unfold InvoicePush.begin
  split
  · rename_i row hidle hrow
    rw [hidle] at hattempt
    have hcall : w.call = none := hattempt
    split_ifs
    · exact hw
    · split
      · exact hw.retry
      · rename_i hpayload
        exact hw.firstAttempt hcall hlate hrow hpayload
      · rename_i state _ hpayload
        refine hw.nextAttempt hcall hlate ?_
        rw [InvoicePush.saved, hrow, Option.bind_some, hpayload]
  · exact hw

/-! ### Xero's answers -/

theorem fits_asItIsNow (doc : PushInvoice) (htype : st.request.type = "ACCREC")
    (hnumber : st.request.invoiceNumber = some st.invoiceNumber) :
    (InvoicePush.asItIsNow doc st).request.type = "ACCREC" ∧
      (InvoicePush.asItIsNow doc st).request.invoiceNumber = some (InvoicePush.asItIsNow doc st).invoiceNumber ∧
      (InvoicePush.asItIsNow doc st).remoteId = st.remoteId := by
  unfold InvoicePush.asItIsNow
  split
  · rename_i number hrefId
    split_ifs
    · exact ⟨rfl, (Option.filter_eq_some_iff.1 hrefId).1, rfl⟩
    · exact ⟨htype, hnumber, rfl⟩
  · exact ⟨htype, hnumber, rfl⟩

theorem InvoicePush.Sound.lookup (hw : w.Sound) : w.lookup.Sound := by
  have hattempt := hw.attempt
  unfold InvoicePush.lookup
  split
  · rename_i doc st hlooking
    rw [hlooking] at hattempt
    obtain ⟨hcall, hlate, hpushed, hsaved, hremote⟩ := hattempt
    have hfits := hw.fits st hsaved
    obtain ⟨row, hrow, -⟩ := Option.bind_eq_some_iff.1 hsaved
    simp only
    split
    · rename_i hfound
      split_ifs
      · exact hw.park
      · -- nothing was found under the number, so nothing was created
        have hnil : w.created = [] := by
          refine List.eq_nil_iff_forall_not_mem.2 fun x hx => ?_
          obtain ⟨i, hi, -⟩ := hw.found_of_created hpushed hsaved hx
          rw [hfound] at hi
          cases hi
        obtain ⟨htype, hnumber, hnow⟩ := fits_asItIsNow doc hfits.type hfits.number
        exact hw.sendAnew hcall hlate hrow hpushed hnil htype hnumber (hnow.trans hremote)
    · rename_i i rest hfound
      split_ifs with hone
      · have hrest : rest = [] := by simpa using (Bool.and_eq_true_iff.1 hone).1
        have hi : i ∈ w.found st.tenantId st.invoiceNumber := hfound ▸ List.mem_cons_self
        have hnames : w.Names i.id := by
          refine ⟨List.mem_map_of_mem (List.mem_filter.1 hi).1, fun x hx => ?_⟩
          obtain ⟨i', hi', hid⟩ := hw.found_of_created hpushed hsaved hx
          rw [hfound, hrest, List.mem_singleton] at hi'
          rw [← hid, hi']
        simp only [InvoicePush.saving, InvoicePush.save, hrow, Option.map_some, Option.getD_some]
        exact hw.settle hcall hlate hsaved hnames (fun x hx _ => hw.made_saved hpushed hsaved hx) row
      · simp only [InvoicePush.saving, InvoicePush.save, hrow, Option.map_some, Option.getD_some]
        have hheld : CreateState.Fits w.now w.Names { st with held := true } := { hfits with }
        have hkept := hw.keep hcall hlate hheld (fun x hx _ => { hw.made_saved hpushed hsaved hx with }) row
        exact hkept.park
  · exact hw

/-- Xero's answer has come. -/
theorem InvoicePush.Sound.callEnds (hw : w.Sound) (hlate : w.late = []) :
    { w with attempt := .idle, call := none }.Sound :=
  { hw with
    attempt := rfl
    calls := forall_flying (w := { w with attempt := .idle, call := none }) rfl hlate
    answer := forall_call (w := { w with attempt := .idle, call := none }) rfl }

/-- **A create that reaches Xero** makes an invoice only where none was made, and the answer is about
    that one. -/
theorem InvoicePush.Kept.reach (hw : w.Kept) (hc : c ∈ w.flying) (hnow : w.now ≤ c.decidedAt + T.call) (id : Option ℕ)
    (message : String) : (w.reach T c id message).1.Kept ∧
      (w.reach T c id message).2.Sound (w.reach T c id message).1.created := by
  obtain ⟨hpushed, st, hsaved, hcall⟩ := hw.calls c hc
  have hfits := hw.fits st hsaved
  unfold InvoicePush.reach
  split
  · rename_i e he
    obtain ⟨hget, -⟩ := Option.filter_eq_some_iff.1 he
    exact ⟨hw, hw.keys c.key e hget⟩
  · rename_i hforgotten
    -- had an invoice been made, Xero would remember the key
    have hnil : w.created = [] := by
      refine List.eq_nil_iff_forall_not_mem.2 fun x hx => ?_
      obtain ⟨e, hget, -, hfirst⟩ := (hw.made_saved hpushed hsaved hx).key
      rw [hcall.key] at hget
      have hlate := Option.filter_eq_none_iff.1 hforgotten e hget
      have hfitsT := T.fits
      have hdecided := hcall.decided
      simp only [decide_eq_true_eq] at hlate
      omega
    split
    · rename_i id
      have hnone : ∀ id, st.remoteId ≠ some id := by simp [hcall.unknown]
      refine ⟨⟨?_, fun x hx => ?_, fun id hid => ?_, fun st' hst' => ?_, fun x hx _ => ?_, fun k e hget => ?_,
        hw.reported, hw.attempt, hw.calls⟩, _, List.mem_cons_self, rfl⟩
      · simp [hnil]
      · rw [hnil] at hx
        obtain rfl := List.mem_singleton.1 hx
        exact ⟨_, List.mem_cons_self, rfl, rfl, rfl, rfl⟩
      · rw [hpushed] at hid
        cases hid
      · obtain rfl := Option.some.inj (hsaved.symm.trans hst')
        exact ⟨hfits.type, hfits.number, hfits.begun, fun id hid => absurd hid (hnone id)⟩
      · rw [hnil] at hx
        obtain rfl := List.mem_singleton.1 hx
        refine ⟨st, hsaved, hcall.tenant.symm, ?_, ?_, ⟨⟨w.now, id⟩, ?_, rfl, hfits.begun⟩⟩
        · exact hcall.request ▸ hfits.type
        · exact hcall.request ▸ hfits.number
        · rw [hcall.key, Dicts.get?_set, if_pos rfl]
      · rw [Dicts.get?_set] at hget
        split_ifs at hget
        · obtain rfl := Option.some.inj hget
          exact ⟨_, List.mem_cons_self, rfl⟩
        · obtain ⟨x, hx, -⟩ := hw.keys k e hget
          rw [hnil] at hx
          cases hx
    · exact ⟨hw, hnil⟩

/-- An attempt that waits for a create is sending it. -/
theorem Attempt.Sound.sending {attempt : Attempt} {late : List CreateCall} {pushedId : Option ℕ}
    {saved : Option CreateState} (h : attempt.Sound (some c) late pushedId saved) :
    ∃ doc st, attempt = .sending doc st ∧ late = [] ∧ saved = some st := by
  cases attempt with
  | sending doc st => exact ⟨doc, st, rfl, h⟩
  | idle => cases h
  | _ => cases h.1

/-- The create the attempt waits for is answered. -/
theorem InvoicePush.Kept.answer (hw : w.Kept) (hc : w.call = some c) (a : XeroAnswer) :
    { w with call := some { c with answer := some a } }.Kept := by
  refine { hw with attempt := ?_, calls := fun c' hc' => ?_ }
  · obtain ⟨doc, st, hsending, hlate, hsaved⟩ := Attempt.Sound.sending (hc ▸ hw.attempt)
    simp only [hsending]
    exact ⟨hlate, hsaved⟩
  · rcases List.mem_append.1 hc' with hown | hlate
    · obtain rfl := Option.some.inj (Option.mem_toList.1 hown)
      obtain ⟨hpushed, st, hsaved, hsound⟩ := hw.calls c (List.mem_append_left _ (Option.mem_toList.2 hc))
      exact ⟨hpushed, st, hsaved, { hsound with }⟩
    · exact hw.calls c' (List.mem_append_right _ hlate)

theorem reach_call {id : Option ℕ} {message : String} : (w.reach T c id message).1.call = w.call := by
  unfold InvoicePush.reach
  split
  · rfl
  · split
    · rfl
    · rfl

theorem InvoicePush.Sound.arrive (hw : w.Sound) {id : Option ℕ} {message : String}
    (hnow : w.promised T (.arrive id message) = true) : (w.arrive T id message).Sound := by
  simp only [InvoicePush.promised] at hnow
  unfold InvoicePush.arrive
  split
  · rename_i c hc
    rw [hc, Option.all_some, decide_eq_true_eq] at hnow
    have hmem : c ∈ w.flying := List.mem_append_left _ (Option.mem_toList.2 hc)
    have hreached := hw.reach hmem hnow id message
    refine { hreached.1.answer (reach_call.trans hc) _ with answer := fun c' hc' a ha => ?_ }
    obtain rfl := Option.some.inj hc'
    obtain rfl := Option.some.inj ha
    exact hreached.2
  · exact hw

theorem InvoicePush.Sound.arriveLate (hw : w.Sound) {i : ℕ} {id : Option ℕ} {message : String}
    (hnow : w.promised T (.arriveLate i id message) = true) : (w.arriveLate T i id message).Sound := by
  simp only [InvoicePush.promised] at hnow
  unfold InvoicePush.arriveLate
  split
  · rename_i c hc
    rw [hc, Option.all_some, decide_eq_true_eq] at hnow
    have hmem : c ∈ w.late := List.mem_of_getElem? hc
    have hreached := hw.reach (List.mem_append_right _ hmem) hnow id message
    refine { hreached.1 with answer := fun c' hc' => ?_ }
    -- the attempt waits for no create, as one of an attempt that is over is late
    have hattempt := hw.attempt
    rw [reach_call.symm.trans hc'] at hattempt
    obtain ⟨-, -, -, hlate, -⟩ := hattempt.sending
    rw [hlate] at hmem
    cases hmem
  · exact hw

/-- **An answer** is about the invoice that was created. -/
theorem InvoicePush.Sound.answered (hw : w.Sound) : w.answered.Sound := by
  have hattempt := hw.attempt
  unfold InvoicePush.answered
  split
  · rename_i doc st id hsending hanswer
    rw [hsending] at hattempt
    obtain ⟨hlate, hsaved⟩ := hattempt
    obtain ⟨c, hc, hid⟩ := Option.bind_eq_some_iff.1 hanswer
    obtain ⟨hpushed, -⟩ := hw.calls c (List.mem_append_left _ (Option.mem_toList.2 hc))
    obtain ⟨x, hx, rfl⟩ := hw.answer c hc _ hid
    obtain ⟨row, hrow, -⟩ := Option.bind_eq_some_iff.1 hsaved
    have hnames : w.Names x.id := by
      obtain ⟨i, hi, -, hid, -⟩ := hw.kept x hx
      refine ⟨List.mem_map.2 ⟨i, hi, hid⟩, fun y hy => ?_⟩
      rw [hw.created_eq hx hy]
    have hended := hw.callEnds hlate
    simp only [InvoicePush.saving, InvoicePush.save, hrow, Option.map_some, Option.getD_some]
    exact hended.settle rfl hlate hsaved hnames (fun x hx _ => hw.made_saved hpushed hsaved hx) row
  · rename_i doc st message hsending hanswer
    rw [hsending] at hattempt
    obtain ⟨c, hc, hmessage⟩ := Option.bind_eq_some_iff.1 hanswer
    exact (hw.callEnds hattempt.1).clear rfl hattempt.1 (fun _ => hw.answer c hc _ hmessage) fun h => by cases h
  · exact hw

theorem InvoicePush.Sound.link (hw : w.Sound) (hfree : w.promised T .link = true) : w.link.Sound := by
  have hattempt := hw.attempt
  simp only [InvoicePush.promised] at hfree
  unfold InvoicePush.link
  split
  · rename_i doc st id hsettling
    rw [hsettling] at hattempt hfree
    obtain ⟨hcall, hlate, hsaved, hremote⟩ := hattempt
    rw [if_neg (by simpa using hfree)]
    refine { hw with
      linked := fun id' hid => ?_
      made := fun x _ hpushed => (by cases hpushed)
      reported := fun _ => Option.some_ne_none id
      attempt := ⟨hcall, hlate, Option.some_ne_none id⟩
      calls := forall_flying (w := w) hcall hlate }
    exact Option.some.inj hid ▸ (hw.fits st hsaved).remote id hremote
  · exact hw

theorem InvoicePush.Sound.finish (hw : w.Sound) : w.finish.Sound := by
  have hattempt := hw.attempt
  unfold InvoicePush.finish
  split
  · rename_i doc st hsettled
    rw [hsettled] at hattempt
    obtain ⟨hcall, hlate, hpushed⟩ := hattempt
    simp only
    split_ifs
    · exact hw.park
    · exact hw.clear hcall hlate (fun hnone => absurd hnone hpushed) fun _ => hpushed
  · exact hw

theorem InvoicePush.Sound.fail (hw : w.Sound) {message : String} : (w.fail message).Sound := by
  unfold InvoicePush.fail
  split
  · exact hw
  · exact hw.retry

/-! ### What else happens -/

/-- A create that may still reach Xero does not. -/
theorem Attempt.Sound.lateEnds {attempt : Attempt} {call : Option CreateCall} {late : List CreateCall}
    {pushedId : Option ℕ} {saved : Option CreateState} (h : attempt.Sound call late pushedId saved) (i : ℕ) :
    attempt.Sound call (late.eraseIdx i) pushedId saved := by
  have hends (hlate : late = []) : late.eraseIdx i = [] := by rw [hlate, List.eraseIdx_nil]
  cases attempt with
  | idle => exact h
  | sending doc st => exact ⟨hends h.1, h.2⟩
  | _ => exact ⟨h.1, hends h.2.1, h.2.2⟩

theorem InvoicePush.Sound.lateEnds (hw : w.Sound) (i : ℕ) : { w with late := w.late.eraseIdx i }.Sound := by
  refine { hw with attempt := hw.attempt.lateEnds i, calls := fun c hc => hw.calls c ?_ }
  exact (List.Sublist.append_left (List.eraseIdx_sublist _ _) _).subset hc

/-- Xero has more invoices, or others under the same numbers. -/
theorem InvoicePush.Sound.remote (hw : w.Sound) {invoices : List RemoteInvoice}
    (hsame : ∀ i ∈ w.invoices, ∃ i' ∈ invoices, i'.tenant = i.tenant ∧ i'.id = i.id ∧ i'.type = i.type ∧
      i'.number = i.number) : { w with invoices := invoices }.Sound := by
  have hnames : ∀ id, w.Names id → { w with invoices := invoices }.Names id := by
    rintro id ⟨hid, hcreated⟩
    obtain ⟨i, hi, rfl⟩ := List.mem_map.1 hid
    obtain ⟨i', hi', -, hid', -⟩ := hsame i hi
    exact ⟨List.mem_map.2 ⟨i', hi', hid'⟩, hcreated⟩
  refine { hw with
    kept := fun x hx => ?_
    linked := fun id hid => hnames id (hw.linked id hid)
    fits := fun st hst => ?_ }
  · obtain ⟨i, hi, htenant, hid, htype, hnumber⟩ := hw.kept x hx
    obtain ⟨i', hi', htenant', hid', htype', hnumber'⟩ := hsame i hi
    exact ⟨i', hi', htenant'.trans htenant, hid'.trans hid, htype'.trans htype, hnumber'.trans hnumber⟩
  · have hfits := hw.fits st hst
    exact { hfits with remote := fun id hid => hnames id (hfits.remote id hid) }

/-- **One step**, of a run that Xero keeps its promises to. -/
theorem InvoicePush.Sound.step (hw : w.Sound) (s : PushStep) (hs : w.promised T s = true) : (w.step T s).Sound := by
  cases s with
  | enqueue =>
    refine hw.sameSaved ?_
    cases h : w.row <;> simp [InvoicePush.saved, h]
  | begin parked => exact hw.begin (List.isEmpty_iff.1 hs)
  | lookup => exact hw.lookup
  | arrive id message => exact hw.arrive hs
  | arriveLate i id message => exact hw.arriveLate hs
  | answered => exact hw.answered
  | link => exact hw.link hs
  | finish => exact hw.finish
  | fails message => exact hw.fail
  | crash => exact hw.ended
  | lateEnds i => exact hw.lateEnds i
  | release message =>
    refine hw.sameSaved ?_
    cases h : w.row with
    | none => simp [InvoicePush.saved, h]
    | some row => cases hp : row.payload <;> simp [InvoicePush.saved, h, hp, Option.filter]
  | connect handle => exact { hw with }
  | linkOther id =>
    simp only [InvoicePush.step, InvoicePush.linkOther]
    split_ifs
    · exact hw
    · exact { hw with }
  | edit doc => exact { hw with }
  | remoteAdd invoice => exact hw.remote fun i hi => ⟨i, List.mem_cons_of_mem _ hi, rfl, rfl, rfl, rfl⟩
  | remoteEdit id contactId lineItems =>
    refine hw.remote fun i hi => ⟨_, List.mem_map_of_mem hi, ?_⟩
    split_ifs
    · exact ⟨rfl, rfl, rfl, rfl⟩
    · exact ⟨rfl, rfl, rfl, rfl⟩
  | tick d =>
    refine { hw with fits := fun st hst => ?_ }
    have hfits := hw.fits st hst
    exact { hfits with begun := hfits.begun.trans (Nat.le_add_right _ _) }

theorem InvoicePush.sound_run {storeHandle : Option String} {doc : Option PushInvoice} {invoices : List RemoteInvoice}
    {steps : List PushStep} (hsteps : Runs.EveryStep (InvoicePush.step T) (fun w s => w.promised T s = true)
      (InvoicePush.fresh storeHandle doc invoices) steps) :
    ((InvoicePush.fresh storeHandle doc invoices).run T steps).Sound :=
  Runs.foldl_of_step (fun _ s hw hs => hw.step s hs) InvoicePush.sound_fresh hsteps

/-- **An invoice is created in Xero once.**  Over every run that Xero keeps its promises to, creates
    make at most one invoice; until the invoice is linked the row keeps the create that made it, and
    it is linked to that one.  It is only ever linked to an invoice Xero has, and is once it is
    reported created. -/
theorem invoice_created_once (T : XeroTiming) (storeHandle : Option String) (doc : Option PushInvoice)
    (invoices : List RemoteInvoice) (steps : List PushStep)
    (hsteps : Runs.EveryStep (InvoicePush.step T) (fun w s => w.promised T s = true)
      (InvoicePush.fresh storeHandle doc invoices) steps) :
    let w := (InvoicePush.fresh storeHandle doc invoices).run T steps
    w.created.length ≤ 1 ∧
      (∀ x ∈ w.created, w.pushedId = some x.id ∨ w.pushedId = none ∧ ∃ row st, w.row = some row ∧
        row.payload = some st ∧ st.tenantId = x.tenant ∧ x.number = some st.invoiceNumber) ∧
      (∀ id, w.pushedId = some id → id ∈ w.invoices.map RemoteInvoice.id) ∧
      (w.outcome = some .created → w.pushedId ≠ none) := by
  intro w
  have hw : w.Sound := InvoicePush.sound_run hsteps
  refine ⟨hw.once, fun x hx => ?_, fun id hid => (hw.linked id hid).1, hw.reported⟩
  cases hpushed : w.pushedId with
  | some id => exact .inl (congrArg some ((hw.linked id hpushed).2 x hx))
  | none =>
    obtain ⟨st, hsaved, hmade⟩ := hw.made x hx hpushed
    obtain ⟨row, hrow, hpayload⟩ := Option.bind_eq_some_iff.1 hsaved
    exact .inr ⟨rfl, row, st, hrow, hpayload, hmade.tenant.symm, hmade.number⟩

end

def oneInvoice : PushInvoice := ⟨some "INV-1", none, none, [], false⟩

/-- The answer to a create is lost, and the process stops; the create reaches Xero late, is sent again
    under its key, and Xero answers as it did. -/
def sentTwice : List PushStep :=
  [.enqueue, .begin false, .tick SECOND, .crash, .arriveLate 0 (some 7) "", .lateEnds 0, .begin false,
    .arrive (some 8) "", .answered, .link, .finish]

theorem invoice_created_sentTwice :
    let w := (InvoicePush.fresh (some "t") (some oneInvoice) []).run
      ⟨MARGIN, KEY_WINDOW + MARGIN, Nat.le_refl _⟩ sentTwice
    w.created.length ≤ 1 ∧ w.created.map RemoteInvoice.id = [7] ∧ w.pushedId = some 7 ∧ w.outcome = some .created := by
  intro w
  have honce := invoice_created_once ⟨MARGIN, KEY_WINDOW + MARGIN, Nat.le_refl _⟩ (some "t") (some oneInvoice) []
    sentTwice (by decide)
  exact ⟨honce.1, by decide, by decide, by decide⟩

end Celerp
