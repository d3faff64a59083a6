/-
  A rebuild gives the live projections back.

  * `Writes`: what one accepted write does to the tables, everything it was held to included,
    and `emit_of_writes`: what holds from store to store across each write, and across none,
    holds across `emit`, whatever it books;
  * `Store.Sound`: the projections are kept by the ledger (`EventLog.Play.Kept`), whose ids rise
    up to the sequence and whose keys are written once; every step keeps it (`sound_ledgerStep`);
  * `Build.Under`: a build of some of the modules of another, which replays what it can as the
    other does (`replayHandler_of_under`) where the other's prefixes are settled.

  `rebuild_live`: after any run of writes, erasures, deletions, rebuilds and starts with other
  modules, a rebuild is refused exactly when the companies' ledger holds an event of a module
  that is not loaded, and otherwise gives every projection back as it is.
-/
import Celerp.Events.Emit
import Celerp.Inventory.CanonicalItem
import Celerp.Lib.Runs

namespace Celerp

open Json StoredItem EventLog Outcome

/-! ## Builds -/

/-- `projection_prefixes_overlap` -/
def projectionPrefixesOverlap (a b : String) : Bool := startsWith a b || startsWith b a

/-- Each event type has one handler: no two prefixes overlap, and none takes a merged event. -/
structure Build.Settled (U : Build) : Prop where
  apart : ∀ f ∈ U.handlers, ∀ g ∈ U.handlers, projectionPrefixesOverlap f.1 g.1 = true → f = g
  merges : ∀ f ∈ U.handlers, ∀ t ∈ MERGE_EVENTS, startsWith t f.1 = false

/-- A build of some of the modules of another. -/
def Build.Under (B U : Build) : Prop := ∀ f ∈ B.handlers, f ∈ U.handlers

section
variable {B U : Build} {eventType : String} {h : Handler}

theorem startsWith_iff {s p : String} : startsWith s p = true ↔ p.toList <+: s.toList := List.isPrefixOf_iff_prefix

/-- Two prefixes of one text overlap. -/
theorem overlap_of_startsWith {s p q : String} (hp : startsWith s p = true) (hq : startsWith s q = true) :
    projectionPrefixesOverlap p q = true := by
  rw [startsWith_iff] at hp hq
  rw [projectionPrefixesOverlap, Bool.or_eq_true, startsWith_iff, startsWith_iff]
  exact (List.prefix_or_prefix_of_prefix hp hq).symm

/-- **A build replays what it can as the build it is under does.** -/
theorem replayHandler_of_under (hU : U.Settled) (hB : B.Under U) (hh : B.replayHandler eventType = some h) :
    U.replayHandler eventType = some h := by
  unfold Build.replayHandler at hh ⊢
  cases hr : Dicts.get? RETIRED_EVENTS eventType with
  | some h' =>
    rw [hr] at hh
    exact hh
  | none =>
    rw [hr] at hh
    simp only at hh ⊢
    by_cases hk : startsWith eventType KERNEL_PREFIX = true
    · rwa [if_pos hk] at hh ⊢
    rw [if_neg hk] at hh ⊢
    cases hf : B.handlers.find? fun f => startsWith eventType f.1 with
    | some f =>
      -- the module's handler: the other build's first of the prefix is the same one
      rw [hf] at hh
      have hfs : startsWith eventType f.1 = true := by simpa using List.find?_some hf
      have hfU := hB f (List.mem_of_find?_eq_some hf)
      cases hg : U.handlers.find? fun f => startsWith eventType f.1 with
      | some g =>
        have hgs : startsWith eventType g.1 = true := by simpa using List.find?_some hg
        obtain rfl := hU.apart f hfU g (List.mem_of_find?_eq_some hg) (overlap_of_startsWith hfs hgs)
        exact hh
      | none => exact absurd hfs (by simpa using List.find?_eq_none.1 hg f hfU)
    | none =>
      -- no module's: a merged event, which no module of the other build takes either
      rw [hf] at hh
      simp only at hh
      split_ifs at hh with hm
      have hg : U.handlers.find? (fun f => startsWith eventType f.1) = none :=
        List.find?_eq_none.2 fun g hg => by simpa using hU.merges g hg eventType hm
      rw [hg]
      simp only [if_pos hm]
      exact hh

theorem apply_of_under (hU : U.Settled) (hB : B.Under U) {state data : Dict} (hr : B.replayable eventType = true) :
    B.apply state eventType data = U.apply state eventType data := by
  obtain ⟨h, hh⟩ := Option.isSome_iff_exists.1 hr
  rw [Build.apply, Build.apply, hh, replayHandler_of_under hU hB hh]

/-- What is applied can be replayed. -/
theorem replayable_of_apply {state data next : Dict} (h : B.apply state eventType data = .ok next) :
    B.replayable eventType = true := by
  unfold Build.apply at h
  unfold Build.replayable
  cases hh : B.replayHandler eventType with
  | some h' => rfl
  | none =>
    rw [hh] at h
    cases h

end

/-! ## Rows written -/

section
variable {R : ColumnReadings} {B U : Build} {p : Option Projection} {e : LedgerEntry} {row : Projection}

theorem writeRow_congr (h : ∀ state data, B.apply state e.eventType data = U.apply state e.eventType data) :
    writeRow R B p e = writeRow R U p e := by
  simp only [writeRow, h]

theorem apply_of_writeRow (h : writeRow R B p e = .ok row) :
    B.apply (stateBefore p) e.eventType e.data = .ok row.state := by
  obtain ⟨next, hnext, hrow⟩ := bind_eq_ok.1 h
  cases hrow
  exact hnext

theorem entityType_of_writeRow (h : writeRow R B p e = .ok row) :
    row.entityType = recordType e p := by
  obtain ⟨next, -, hrow⟩ := bind_eq_ok.1 h
  cases hrow
  rfl

theorem writeRow_of_under (hU : U.Settled) (hB : B.Under U) (h : writeRow R B p e = .ok row) :
    writeRow R U p e = .ok row := by
  have hr := replayable_of_apply (apply_of_writeRow h)
  rw [← writeRow_congr fun state data => apply_of_under hU hB hr]
  exact h

end

/-! ## One write -/

/-- What an accepted write was held to, and the tables as it leaves them: `before` and after
    (`after`), with what it did to its record (`transition`). -/
structure Writes (T : Texts) (R : ColumnReadings) (B : Build) (O : Surroundings) (before : Store) (r : Request)
    (e : LedgerEntry) (transition : Transition) (after : Store) : Prop where
  guarded : ∃ data, O.prepare before r = .ok data ∧
    (if r.entityType = "item" then guardItem T O before r data else .ok data) = .ok e.data
  unwritten : before.findEvent r.companyId r.idempotencyKey = none
  entry : e = ⟨before.seq + 1, r.companyId, r.entityId, r.entityType, r.eventType, e.data, r.source,
    r.idempotencyKey, r.metadata⟩
  kind : ∀ p, before.projection? r.companyId r.entityId = some p → p.entityType = r.entityType
  row : ∃ row, writeRow R B (before.projection? r.companyId r.entityId) e = .ok row ∧
    transition = ⟨(before.projection? r.companyId r.entityId).map (·.state), row.state⟩ ∧
    after = { before with
      ledger := before.ledger ++ [e], seq := before.seq + 1, projections := Dicts.set before.projections e.key row }
  applied : r.entityType = "item" → itemApplied T O after e transition r.heldLotCarve = .ok ()

section
variable {T : Texts} {R : ColumnReadings} {B : Build} {O : Surroundings}

theorem mapError_bind_eq_ok {α β ε ε' : Type} {x : Except ε α} {f : ε → ε'} {k : α → Except ε' β} {b : β} :
    x.mapError f >>= k = .ok b ↔ ∃ a, x = .ok a ∧ k a = .ok b := by
  cases x with
  | error e => exact ⟨nofun, nofun⟩
  | ok a => simp [Except.mapError, bind, Except.bind]

/-- An event written on its record's projection. -/
theorem applyNew_eq_ok {s s' : Store} {e : LedgerEntry} {t : Transition} (h : s.applyNew R B e = .ok (s', t)) :
    (∀ p, s.projection? e.companyId e.entityId = some p → p.entityType = e.entityType) ∧
      ∃ row, writeRow R B (s.projection? e.companyId e.entityId) e = .ok row ∧
        t = ⟨(s.projection? e.companyId e.entityId).map (·.state), row.state⟩ ∧
        s' = { s with projections := Dicts.set s.projections e.key row } := by
  unfold Store.applyNew at h
  simp only at h
  split_ifs at h with hkind
  obtain ⟨row, hrow, h⟩ := mapError_bind_eq_ok.1 h
  cases h
  refine ⟨fun p hp => ?_, row, hrow, rfl, rfl⟩
  rw [hp] at hkind
  simpa using hkind

/-- **What `emit` comes to**: the entry that has the key, or a write and what it books. -/
theorem emit_eq_ok {depth : ℕ} {s : Store} {r : Request} {w : Emitted} (h : emit T R B O (depth + 1) s r = .ok w) :
    (∃ original, s.findEvent r.companyId r.idempotencyKey = some original ∧ w = ⟨s, original, true⟩) ∨
      ∃ e t s₁, Writes T R B O s r e t s₁ ∧ w.entry = e ∧ w.wasDeduped = false ∧
        (w.store = s₁ ∨ ∃ bookings : List Request, bookings.foldlM (fun s b => do
          let w ← emit T R B O depth s b
          .ok w.store) s₁ = .ok w.store) := by
  rw [emit] at h
  obtain ⟨data, hdata, h⟩ := bind_eq_ok.1 h
  obtain ⟨data', hdata', h⟩ := bind_eq_ok.1 h
  cases hfind : s.findEvent r.companyId r.idempotencyKey with
  | some original =>
    rw [hfind] at h
    cases h
    exact .inl ⟨original, rfl, rfl⟩
  | none =>
    rw [hfind] at h
    obtain ⟨⟨s₁, t⟩, happ, h⟩ := bind_eq_ok.1 h
    obtain ⟨hkind, row, hrow, ht, hs₁⟩ := applyNew_eq_ok happ
    have hwrites (happlied : r.entityType = "item" → itemApplied T O s₁ (s.insert r data').2 t r.heldLotCarve = .ok ()) :
        Writes T R B O s r (s.insert r data').2 t s₁ :=
      ⟨⟨data, hdata, hdata'⟩, hfind, rfl, hkind, ⟨row, hrow, ht, hs₁⟩, happlied⟩
    right
    by_cases hitem : r.entityType = "item"
    · rw [if_pos hitem] at h
      obtain ⟨⟨⟩, happlied, h⟩ := bind_eq_ok.1 h
      obtain ⟨bookings, -, h⟩ := bind_eq_ok.1 h
      obtain ⟨booked, hbooked, h⟩ := bind_eq_ok.1 h
      cases h
      exact ⟨_, t, s₁, hwrites fun _ => happlied, rfl, rfl, .inr ⟨bookings, hbooked⟩⟩
    · rw [if_neg hitem] at h
      cases h
      exact ⟨_, t, s₁, hwrites fun hi => absurd hi hitem, rfl, rfl, .inl rfl⟩

/-- **What holds across each write, and across none, holds across `emit`.** -/
theorem emit_of_writes {Q : Store → Store → Prop} (hrefl : ∀ s, Q s s) (htrans : ∀ {s t u}, Q s t → Q t u → Q s u)
    (hwrite : ∀ {s r e t s₁}, Writes T R B O s r e t s₁ → Q s s₁) :
    ∀ {depth : ℕ} {s : Store} {r : Request} {w : Emitted}, emit T R B O depth s r = .ok w → Q s w.store
  | 0, s, r, w, h => nomatch h
  | depth + 1, s, r, w, h => by
    rcases emit_eq_ok h with ⟨original, -, rfl⟩ | ⟨e, t, s₁, hw, -, -, hstore | ⟨bookings, hbooked⟩⟩
    · exact hrefl s
    · rw [hstore]
      exact hwrite hw
    · -- each booking is an event of its own, written one level down
      refine keeps_of_foldlM_eq_ok (I := fun u => Q s u) (fun b _ u u' hstep hu => ?_) hbooked (hwrite hw)
      obtain ⟨w', hw', hu'⟩ := bind_eq_ok.1 hstep
      cases hu'
      exact htrans hu (emit_of_writes hrefl htrans hwrite hw')

end

/-! ## What every step keeps -/

/-- The tables as the writes leave them: the projections are what the ledger makes of its
    records, its ids rise up to the sequence, and each key of a company is written once. -/
structure Store.Sound (R : ColumnReadings) (U : Build) (s : Store) : Prop where
  kept : (replayPlay R U).Kept s.projections s.ledger
  rising : s.ledger.Pairwise (·.id < ·.id)
  numbered : ∀ e ∈ s.ledger, 0 < e.id ∧ e.id ≤ s.seq
  once : (s.ledger.map fun e => (e.companyId, e.idempotencyKey)).Nodup

section
variable {T : Texts} {R : ColumnReadings} {B U : Build} {O : Surroundings} {V : Removals} {s s' : Store}

theorem sound_empty : Store.Sound R U {} := ⟨EventLog.Play.kept_nil, .nil, nofun, .nil⟩

/-- An item's change finds the item. -/
theorem Writes.not_skips {r : Request} {e : LedgerEntry} {t : Transition} (h : Writes T R B O s r e t s') :
    changesMissingItem (s.projection? r.companyId r.entityId) e = false := by
  by_contra hskip
  rw [Bool.not_eq_false, changesMissingItem, Bool.and_eq_true, Bool.and_eq_true, decide_eq_true_iff,
    decide_eq_true_iff] at hskip
  obtain ⟨⟨hnone, hitem⟩, hchange⟩ := hskip
  have hentry := h.entry
  obtain ⟨row, -, ht, -⟩ := h.row
  have hr : r.entityType = "item" := by
    rw [hentry] at hitem
    exact hitem
  have happ := h.applied hr
  rw [Option.isNone_iff_eq_none.1 hnone] at ht
  rw [itemApplied, if_pos ⟨by rw [ht]; rfl, hchange⟩] at happ
  cases happ

theorem Store.findEvent_eq_none {companyId key : String} :
    s.findEvent companyId key = none ↔ (companyId, key) ∉ s.ledger.map fun e => (e.companyId, e.idempotencyKey) := by
  simp [Store.findEvent, List.find?_eq_none]

/-- **A write keeps the tables sound.** -/
theorem Writes.sound {r : Request} {e : LedgerEntry} {t : Transition} (hU : U.Settled) (hB : B.Under U)
    (hs : s.Sound R U) (h : Writes T R B O s r e t s') : s'.Sound R U := by
  have hentry := h.entry
  have hkey : e.key = (r.companyId, r.entityId) := by rw [hentry]; rfl
  have hid : e.id = s.seq + 1 := by rw [hentry]
  have hidem : (e.companyId, e.idempotencyKey) = (r.companyId, r.idempotencyKey) := by rw [hentry]
  have hskip := h.not_skips
  obtain ⟨row, hrow, -, rfl⟩ := h.row
  refine ⟨?_, ?_, ?_, ?_⟩
  · refine hs.kept.write ?_ ?_
    · change changesMissingItem (Dicts.get? s.projections e.key) e = false
      rw [hkey]
      exact hskip
    · change writeRow R U (Dicts.get? s.projections e.key) e = .ok row
      rw [hkey]
      exact writeRow_of_under hU hB hrow
  · refine List.pairwise_append.2 ⟨hs.rising, List.pairwise_singleton _ _, fun a ha b hb => ?_⟩
    rw [List.mem_singleton.1 hb, hid]
    have := (hs.numbered a ha).2
    omega
  · intro a ha
    rcases List.mem_append.1 ha with ha | ha
    · have := hs.numbered a ha
      exact ⟨this.1, Nat.le_succ_of_le this.2⟩
    · rw [List.mem_singleton.1 ha, hid]
      exact ⟨Nat.succ_pos _, le_refl _⟩
  · change ((s.ledger ++ [e]).map fun e => (e.companyId, e.idempotencyKey)).Nodup
    rw [List.map_append, List.nodup_append]
    refine ⟨hs.once, List.nodup_singleton _, fun a ha b hb => ?_⟩
    rw [List.map_singleton, List.mem_singleton] at hb
    rintro rfl
    rw [hb, hidem] at ha
    exact Store.findEvent_eq_none.1 h.unwritten ha

theorem sound_emit (hU : U.Settled) (hB : B.Under U) (hs : s.Sound R U) {depth : ℕ} {r : Request} {w : Emitted}
    (h : emit T R B O depth s r = .ok w) : w.store.Sound R U :=
  emit_of_writes (Q := fun s s' => s.Sound R U → s'.Sound R U) (fun _ => id) (fun h₁ h₂ => h₂ ∘ h₁)
    (fun hw hs => hw.sound hU hB hs) h hs

/-- **Records taken out with their entries** leave the tables sound. -/
theorem Store.Sound.drop (hs : s.Sound R U) (gone : RecordKey → Bool) : (s.drop gone).Sound R U where
  kept := hs.kept.drop gone
  rising := hs.rising.sublist List.filter_sublist
  numbered := fun e he => hs.numbered e (List.mem_of_mem_filter he)
  once := hs.once.sublist (List.filter_sublist.map _)

theorem sound_eraseItems (hs : s.Sound R U) {companyId : String} {entityIds : List String}
    (h : s.eraseItems V companyId entityIds = some s') : s'.Sound R U := by
  unfold Store.eraseItems at h
  simp only at h
  split_ifs at h
  cases h
  have hd := hs.drop fun k => k.1 = companyId && k.2 ∈ entityIds
  exact ⟨hd.kept, hd.rising, hd.numbered, hd.once⟩

theorem sound_deleteDraft (hs : s.Sound R U) {companyId entityId : String}
    (h : s.deleteDraft V companyId entityId = some s') : s'.Sound R U := by
  unfold Store.deleteDraft at h
  split at h
  · split_ifs at h
    cases h
    exact hs.drop _
  · cases h

/-- Sorting the entries of a sound ledger leaves them as they are. -/
theorem Store.Sound.insertionSort_filter (hs : s.Sound R U) (p : LedgerEntry → Bool) :
    (s.ledger.filter p).insertionSort (·.id ≤ ·.id) = s.ledger.filter p :=
  List.Pairwise.insertionSort_eq ((hs.rising.sublist List.filter_sublist).imp fun h => le_of_lt h)

/-- **A rebuild of a sound ledger whose events can be replayed gives the projections back.** -/
theorem rebuild_ok (hU : U.Settled) (hB : B.Under U) (hs : s.Sound R U) {companies : List String}
    (hall : ∀ e ∈ s.ledger, e.companyId ∈ companies → B.replayable e.eventType = true) :
    ∃ projections, s.rebuild R B companies = .ok { s with projections } ∧
      ∀ k, Dicts.get? projections k = Dicts.get? s.projections k := by
  have hnone : s.unreplayable B companies = [] := by
    refine List.eq_nil_iff_forall_not_mem.2 fun t ht => ?_
    rw [Store.unreplayable, List.mem_insertionSort, List.mem_filter, List.mem_dedup, List.mem_map] at ht
    obtain ⟨⟨e, he, rfl⟩, hrep⟩ := ht
    rw [List.mem_filter, decide_eq_true_iff] at he
    rw [hall e he.1 he.2] at hrep
    cases hrep
  obtain ⟨projections, hplay, hget⟩ := hs.kept.replayOf fun k => k.1 ∈ companies
  refine ⟨projections, ?_, hget⟩
  rw [Store.rebuild, hnone]
  simp only [hs.insertionSort_filter]
  have hsame : (replayPlay R B).playAll (s.projections.filter fun f => f.1.1 ∉ companies)
      (s.ledger.filter fun e => e.companyId ∈ companies) = .ok projections := by
    rw [← hplay]
    have hrows : (s.projections.filter fun f => f.1.1 ∉ companies) =
        s.projections.filter fun f => !decide (f.1.1 ∈ companies) :=
      List.filter_congr fun f _ => by simp
    rw [hrows]
    refine EventLog.Play.playAll_congr fun e he => ⟨rfl, fun p => ?_⟩
    rw [List.mem_filter, decide_eq_true_iff] at he
    have hwrite : (replayPlay R B).write p e = (replayPlay R U).write p e :=
      writeRow_congr fun state data => apply_of_under hU hB (hall e he.1 he.2)
    rw [EventLog.Play.row, EventLog.Play.row, hwrite]
    rfl
  rw [hsame]
  rfl

/-- A rebuild gives nothing where an event cannot be replayed. -/
theorem replayable_of_rebuild {companies : List String} (h : s.rebuild R B companies = .ok s') :
    ∀ e ∈ s.ledger, e.companyId ∈ companies → B.replayable e.eventType = true := by
  intro e he hc
  by_contra hrep
  have hmem : e.eventType ∈ s.unreplayable B companies := by
    rw [Store.unreplayable, List.mem_insertionSort, List.mem_filter, List.mem_dedup, List.mem_map]
    exact ⟨⟨e, List.mem_filter.2 ⟨he, decide_eq_true hc⟩, rfl⟩, by simpa using hrep⟩
  unfold Store.rebuild at h
  split at h
  · rename_i heq
    rw [heq] at hmem
    cases hmem
  · cases h

theorem sound_rebuild (hU : U.Settled) (hB : B.Under U) (hs : s.Sound R U) {companies : List String}
    (h : s.rebuild R B companies = .ok s') :
    s'.Sound R U ∧ s'.ledger = s.ledger ∧ ∀ k, Dicts.get? s'.projections k = Dicts.get? s.projections k := by
  obtain ⟨projections, hok, hget⟩ := rebuild_ok hU hB hs (replayable_of_rebuild h)
  rw [hok] at h
  cases h
  refine ⟨⟨fun k => ?_, hs.rising, hs.numbered, hs.once⟩, rfl, hget⟩
  rw [hget k]
  exact hs.kept k

/-- The modules of an instance and of the starts of a run are among those of `U`. -/
def LedgerOp.Under (U : Build) : LedgerOp → Prop
  | .load build => build.Under U
  | _ => True

/-- **Every step keeps the tables sound.** -/
theorem sound_ledgerStep (hU : U.Settled) {w : Instance} (hw : w.store.Sound R U ∧ w.build.Under U) {op : LedgerOp}
    (hop : op.Under U) :
    (w.step T R O V op).store.Sound R U ∧ (w.step T R O V op).build.Under U := by
  obtain ⟨hs, hB⟩ := hw
  cases op with
  | emit depth r =>
    unfold Instance.step
    simp only
    split
    · exact ⟨sound_emit hU hB hs ‹_›, hB⟩
    · exact ⟨hs, hB⟩
  | erase companyId entityIds =>
    cases h : w.store.eraseItems V companyId entityIds with
    | some s' => exact ⟨by simpa [Instance.step, h] using sound_eraseItems hs h, hB⟩
    | none => exact ⟨by simpa [Instance.step, h] using hs, hB⟩
  | deleteDraft companyId entityId =>
    cases h : w.store.deleteDraft V companyId entityId with
    | some s' => exact ⟨by simpa [Instance.step, h] using sound_deleteDraft hs h, hB⟩
    | none => exact ⟨by simpa [Instance.step, h] using hs, hB⟩
  | rebuild companies =>
    unfold Instance.step
    simp only
    split
    · exact ⟨(sound_rebuild hU hB hs ‹_›).1, hB⟩
    · exact ⟨hs, hB⟩
  | load build => exact ⟨hs, hop⟩
  | burn values =>
    exact ⟨⟨hs.kept, hs.rising, fun e he => ⟨(hs.numbered e he).1, le_add_right (hs.numbered e he).2⟩, hs.once⟩, hB⟩

/-- Every run leaves the tables sound. -/
theorem sound_ledgerRun (hU : U.Settled) {build : Build} (hB : build.Under U) {ops : List LedgerOp}
    (hops : ∀ op ∈ ops, op.Under U) :
    (ops.foldl (Instance.step T R O V) ⟨{}, build⟩).store.Sound R U ∧
      (ops.foldl (Instance.step T R O V) ⟨{}, build⟩).build.Under U :=
  Runs.foldl_of_step (Q := fun w : Instance => w.store.Sound R U ∧ w.build.Under U) (P := fun _ op => op.Under U)
    (fun _ _ hw hop => sound_ledgerStep hU hw hop) ⟨sound_empty, hB⟩ (Runs.everyStep_of_mem fun op hop _ => hops op hop)

/-- **A rebuild gives the live projections back**: it is refused, and nothing is lost, exactly
    when the ledger of the companies holds an event that no loaded module applies. -/
theorem rebuild_live (hU : U.Settled) {build : Build} (hB : build.Under U) {ops : List LedgerOp}
    (hops : ∀ op ∈ ops, op.Under U) (companies : List String) :
    let w := ops.foldl (Instance.step T R O V) ⟨{}, build⟩
    (Succeeds (w.store.rebuild R w.build companies) ↔
        ∀ e ∈ w.store.ledger, e.companyId ∈ companies → w.build.replayable e.eventType = true) ∧
      ∀ s', w.store.rebuild R w.build companies = .ok s' → s'.ledger = w.store.ledger ∧
        ∀ companyId entityId, s'.projection? companyId entityId = w.store.projection? companyId entityId := by
  intro w
  obtain ⟨hs, hBw⟩ := sound_ledgerRun (T := T) (R := R) (O := O) (V := V) hU hB hops
  refine ⟨⟨fun ⟨s', h⟩ => replayable_of_rebuild h, fun hall => ?_⟩, fun s' h => ?_⟩
  · obtain ⟨projections, hok, -⟩ := rebuild_ok hU hBw hs hall
    exact ⟨_, hok⟩
  · obtain ⟨-, hledger, hget⟩ := sound_rebuild hU hBw hs h
    exact ⟨hledger, fun companyId entityId => hget (companyId, entityId)⟩

/-- The modules of items. -/
def itemBuild : Build := ⟨[("item.", itemHandler plainTexts), ("shop.sync.", applyShopSyncEvent)]⟩

theorem itemBuild_settled : itemBuild.Settled where
  apart := fun f hf g hg hoverlap => by
    obtain rfl | rfl : f = ("item.", itemHandler plainTexts) ∨ f = ("shop.sync.", applyShopSyncEvent) := by
      simpa [itemBuild] using hf
    · obtain rfl | rfl : g = ("item.", itemHandler plainTexts) ∨ g = ("shop.sync.", applyShopSyncEvent) := by
        simpa [itemBuild] using hg
      · rfl
      · exact absurd hoverlap (by decide)
    · obtain rfl | rfl : g = ("item.", itemHandler plainTexts) ∨ g = ("shop.sync.", applyShopSyncEvent) := by
        simpa [itemBuild] using hg
      · exact absurd hoverlap (by decide)
      · rfl
  merges := fun f hf => by
    obtain rfl | rfl : f = ("item.", itemHandler plainTexts) ∨ f = ("shop.sync.", applyShopSyncEvent) := by
      simpa [itemBuild] using hf
    · decide
    · decide

/-- Surroundings that refuse nothing and book nothing. -/
def plainSurroundings : Surroundings :=
  ⟨fun _ r => .ok r.data, fun _ => none, fun _ _ _ => .ok (), fun _ _ _ => .ok []⟩

/-- An event of the stone. -/
def stoneEvent (eventType key : String) (data : Dict) : Request :=
  { companyId := "acme", entityId := "item:1", entityType := "item", eventType, data, source := "api",
    idempotencyKey := key, metadata := [] }

/-- A stone is entered, and put in the shop before and after a start without the modules of items. -/
def stoneOps : List LedgerOp :=
  [.emit 1 (stoneEvent "item.created" "a" [("sku", .str "S1"), ("quantity", .num 5)]),
   .load ⟨[]⟩,
   .emit 1 (stoneEvent "shop.sync.enabled" "b" []),
   .load itemBuild,
   .burn 2,
   .emit 1 (stoneEvent "shop.sync.enabled" "b" [])]

theorem stoneOps_under : ∀ op ∈ stoneOps, op.Under itemBuild := by
  simp [stoneOps, LedgerOp.Under, Build.Under]

theorem rebuild_live_stone :
    (∀ op ∈ stoneOps, op.Under itemBuild) ∧
      let w := stoneOps.foldl (Instance.step plainTexts ⟨some, some⟩ plainSurroundings ⟨fun _ _ _ => [], fun _ _ _ => []⟩)
        ⟨{}, itemBuild⟩
      (Succeeds (w.store.rebuild ⟨some, some⟩ w.build ["acme"]) ↔
          ∀ e ∈ w.store.ledger, e.companyId ∈ ["acme"] → w.build.replayable e.eventType = true) ∧
        ∀ s', w.store.rebuild ⟨some, some⟩ w.build ["acme"] = .ok s' → s'.ledger = w.store.ledger ∧
          ∀ companyId entityId, s'.projection? companyId entityId = w.store.projection? companyId entityId :=
  ⟨stoneOps_under, rebuild_live itemBuild_settled (fun _ => id) stoneOps_under ["acme"]⟩

end

/-! ## Keys written once -/

/-- Whether an operation takes a record out. -/
def LedgerOp.Removes (k : RecordKey) : LedgerOp → Prop
  | .erase companyId entityIds => k.1 = companyId ∧ k.2 ∈ entityIds
  | .deleteDraft companyId entityId => k = (companyId, entityId)
  | _ => False

section
variable {T : Texts} {R : ColumnReadings} {B U : Build} {O : Surroundings} {V : Removals} {s s' : Store}

/-- A write adds to the ledger and changes nothing in it. -/
theorem prefix_of_emit {depth : ℕ} {r : Request} {w : Emitted} (h : emit T R B O depth s r = .ok w) :
    s.ledger <+: w.store.ledger :=
  emit_of_writes (Q := fun s s' => s.ledger <+: s'.ledger) (fun _ => List.prefix_refl _) (fun h₁ h₂ => h₁.trans h₂)
    (fun hw => by
      obtain ⟨row, -, -, rfl⟩ := hw.row
      exact List.prefix_append _ _) h

/-- An entry stays in the ledger across a step that does not take its record out. -/
theorem mem_ledger_step (hU : U.Settled) {w : Instance} (hw : w.store.Sound R U ∧ w.build.Under U) {op : LedgerOp}
    {e : LedgerEntry} (he : e ∈ w.store.ledger) (hkeep : ¬op.Removes e.key) :
    e ∈ (w.step T R O V op).store.ledger := by
  cases op with
  | emit depth r =>
    unfold Instance.step
    simp only
    split
    · exact (prefix_of_emit ‹_›).subset he
    · exact he
  | erase companyId entityIds =>
    unfold Instance.step Store.eraseItems
    simp only
    split_ifs
    · exact he
    · refine List.mem_filter.2 ⟨he, ?_⟩
      simpa [LedgerOp.Removes, imp_iff_not_or] using hkeep
  | deleteDraft companyId entityId =>
    unfold Instance.step Store.deleteDraft
    simp only
    split
    · split_ifs
      · refine List.mem_filter.2 ⟨he, ?_⟩
        simpa [LedgerOp.Removes] using hkeep
      · exact he
    · exact he
  | rebuild companies =>
    unfold Instance.step
    simp only
    split
    · rw [(sound_rebuild hU hw.2 hw.1 ‹_›).2.1]
      exact he
    · exact he
  | load build => exact he
  | burn values => exact he

theorem mem_ledger_run (hU : U.Settled) {w : Instance} (hw : w.store.Sound R U ∧ w.build.Under U)
    {ops : List LedgerOp} (hops : ∀ op ∈ ops, op.Under U) {e : LedgerEntry} (he : e ∈ w.store.ledger)
    (hkeep : ∀ op ∈ ops, ¬op.Removes e.key) :
    e ∈ (ops.foldl (Instance.step T R O V) w).store.ledger := by
  have hrun := Runs.foldl_of_step
    (Q := fun w : Instance => (w.store.Sound R U ∧ w.build.Under U) ∧ e ∈ w.store.ledger)
    (P := fun _ op => op.Under U ∧ ¬op.Removes e.key)
    (fun _ _ hw hop => ⟨sound_ledgerStep (T := T) (O := O) (V := V) hU hw.1 hop.1, mem_ledger_step hU hw.1 hw.2 hop.2⟩)
    ⟨hw, he⟩ (Runs.everyStep_of_mem fun op hop _ => ⟨hops op hop, hkeep op hop⟩)
  exact hrun.2

/-- Two entries of a company with one key are one. -/
theorem Store.Sound.eq_of_key (hs : s.Sound R U) {e e' : LedgerEntry} (he : e ∈ s.ledger) (he' : e' ∈ s.ledger)
    (hc : e'.companyId = e.companyId) (hk : e'.idempotencyKey = e.idempotencyKey) : e' = e :=
  List.inj_on_of_nodup_map hs.once he' he (by rw [hc, hk])

/-- A retry that is not refused gives the entry with the key, and writes nothing. -/
theorem emit_of_mem (hs : s.Sound R U) {e : LedgerEntry} (he : e ∈ s.ledger) {depth : ℕ} {r : Request} {w : Emitted}
    (hc : r.companyId = e.companyId) (hk : r.idempotencyKey = e.idempotencyKey)
    (h : emit T R B O depth s r = .ok w) : w = ⟨s, e, true⟩ := by
  cases depth with
  | zero => cases h
  | succ depth =>
    rcases emit_eq_ok h with ⟨original, horiginal, rfl⟩ | ⟨e', t, s₁, hw, -⟩
    · have hmem := List.mem_of_find?_eq_some horiginal
      have hkey := List.find?_some horiginal
      rw [Bool.and_eq_true, decide_eq_true_iff, decide_eq_true_iff] at hkey
      rw [hs.eq_of_key he hmem (hkey.1.trans hc) (hkey.2.trans hk)]
    · refine absurd (List.mem_map_of_mem (f := fun e => (e.companyId, e.idempotencyKey)) he) ?_
      have hnone := Store.findEvent_eq_none.1 hw.unwritten
      rwa [hc, hk] at hnone

/-- **A key is written once**: an entry in the ledger stays as it was written, whatever follows,
    until its record is taken out; it is the only one of its company with its key, and a later
    event with the key is refused or gives that entry back, and writes nothing. -/
theorem written_once (hU : U.Settled) {build : Build} (hB : build.Under U) {before after : List LedgerOp}
    (hbefore : ∀ op ∈ before, op.Under U) (hafter : ∀ op ∈ after, op.Under U) {e : LedgerEntry}
    (he : e ∈ (before.foldl (Instance.step T R O V) ⟨{}, build⟩).store.ledger) (hkeep : ∀ op ∈ after, ¬op.Removes e.key) :
    let w := after.foldl (Instance.step T R O V) (before.foldl (Instance.step T R O V) ⟨{}, build⟩)
    e ∈ w.store.ledger ∧
      (∀ e' ∈ w.store.ledger, e'.companyId = e.companyId → e'.idempotencyKey = e.idempotencyKey → e' = e) ∧
      ∀ depth r done, r.companyId = e.companyId → r.idempotencyKey = e.idempotencyKey →
        emit T R w.build O depth w.store r = .ok done → done = ⟨w.store, e, true⟩ := by
  intro w
  have hw := sound_ledgerRun (T := T) (R := R) (O := O) (V := V) hU hB hbefore
  have hrun : w.store.Sound R U ∧ w.build.Under U :=
    Runs.foldl_of_step (Q := fun w : Instance => w.store.Sound R U ∧ w.build.Under U) (P := fun _ op => op.Under U)
      (fun _ _ hw hop => sound_ledgerStep hU hw hop) hw (Runs.everyStep_of_mem fun op hop _ => hafter op hop)
  have hmem : e ∈ w.store.ledger := mem_ledger_run hU hw hafter he hkeep
  exact ⟨hmem, fun e' he' hc hk => hrun.1.eq_of_key hmem he' hc hk,
    fun depth r done hc hk h => emit_of_mem hrun.1 hmem hc hk h⟩

/-- The entry of the stone's birth. -/
def stoneBirth : LedgerEntry :=
  ⟨1, "acme", "item:1", "item", "item.created", [("sku", .str "S1"), ("quantity", .num 5)], "api", "a", []⟩

theorem written_once_stone :
    let step := Instance.step plainTexts ⟨some, some⟩ plainSurroundings ⟨fun _ _ _ => [], fun _ _ _ => []⟩
    let w := (stoneOps.drop 1).foldl step ((stoneOps.take 1).foldl step ⟨{}, itemBuild⟩)
    stoneBirth ∈ w.store.ledger ∧
      (∀ e' ∈ w.store.ledger, e'.companyId = "acme" → e'.idempotencyKey = "a" → e' = stoneBirth) ∧
      ∀ depth r done, r.companyId = "acme" → r.idempotencyKey = "a" →
        emit plainTexts ⟨some, some⟩ w.build plainSurroundings depth w.store r = .ok done → done = ⟨w.store, stoneBirth, true⟩ := by
  have hmem : stoneBirth ∈ ((stoneOps.take 1).foldl (Instance.step plainTexts ⟨some, some⟩ plainSurroundings
      ⟨fun _ _ _ => [], fun _ _ _ => []⟩) ⟨{}, itemBuild⟩).store.ledger := List.mem_singleton.2 rfl
  exact written_once itemBuild_settled (fun _ => id) (fun op hop => stoneOps_under op (List.mem_of_mem_take hop))
    (fun op hop => stoneOps_under op (List.mem_of_mem_drop hop)) hmem (by simp [stoneOps, LedgerOp.Removes])

end

/-! ## Records one by one -/

/-- What holds of the projection of each record, with its entries. -/
def Store.Each (s : Store) (I : Option Projection → List LedgerEntry → Prop) : Prop :=
  ∀ k, I (Dicts.get? s.projections k) (s.ledger.filter (·.key = k))

section
variable {T : Texts} {R : ColumnReadings} {B U : Build} {O : Surroundings} {V : Removals} {s s' : Store}
  {I : Option Projection → List LedgerEntry → Prop}

/-- The record a write is of. -/
theorem Writes.key_eq {r : Request} {e : LedgerEntry} {t : Transition} (h : Writes T R B O s r e t s') :
    e.key = (r.companyId, r.entityId) := by
  rw [h.entry]
  rfl

/-- A write is of one record: the others are as they were. -/
theorem Writes.each {r : Request} {e : LedgerEntry} {t : Transition} (hs : s.Each I) (h : Writes T R B O s r e t s')
    (hwrite : ∀ row, writeRow R B (s.projection? r.companyId r.entityId) e = .ok row →
      I (some row) (s.ledger.filter (·.key = e.key) ++ [e])) : s'.Each I := by
  have hwrite := hwrite
  obtain ⟨row, hrow, -, rfl⟩ := h.row
  intro k
  simp only [Dicts.get?_set, List.filter_append]
  by_cases hke : k = e.key
  · subst hke
    rw [if_pos rfl, List.filter_cons_of_pos (by simp), List.filter_nil]
    exact hwrite row hrow
  · rw [if_neg hke, List.filter_cons_of_neg (by simpa using fun h => hke h.symm), List.filter_nil, List.append_nil]
    exact hs k

theorem Store.Each.drop (hnil : I none []) (hs : s.Each I) (gone : RecordKey → Bool) : (s.drop gone).Each I := by
  intro k
  have hk := hs k
  have hlog : (s.drop gone).ledger.filter (·.key = k) = if gone k then [] else s.ledger.filter (·.key = k) := by
    refine Eq.trans (filter_key_and (fun k => !gone k) k) ?_
    cases gone k <;> rfl
  have hrow : Dicts.get? (s.drop gone).projections k = if gone k then none else Dicts.get? s.projections k := by
    refine (Dicts.get?_filter_key fun k => !gone k).trans ?_
    cases gone k <;> rfl
  rw [hlog, hrow]
  cases gone k with
  | true => exact hnil
  | false => exact hk

theorem each_eraseItems (hnil : I none []) (hs : s.Each I) {companyId : String} {entityIds : List String}
    (h : s.eraseItems V companyId entityIds = some s') : s'.Each I := by
  unfold Store.eraseItems at h
  simp only at h
  split_ifs at h
  cases h
  exact hs.drop hnil fun k => k.1 = companyId && k.2 ∈ entityIds

theorem each_deleteDraft (hnil : I none []) (hs : s.Each I) {companyId entityId : String}
    (h : s.deleteDraft V companyId entityId = some s') : s'.Each I := by
  unfold Store.deleteDraft at h
  split at h
  · split_ifs at h
    cases h
    exact hs.drop hnil _
  · cases h

/-- What each write keeps of its record, each step keeps of every record. -/
theorem each_step (hU : U.Settled) (hnil : I none [])
    (hwrite : ∀ {B s r e t s' row}, B.Under U → s.Each I → Writes T R B O s r e t s' →
      writeRow R B (s.projection? r.companyId r.entityId) e = .ok row → I (some row) (s.ledger.filter (·.key = e.key) ++ [e]))
    {w : Instance} (hw : w.store.Sound R U ∧ w.build.Under U) (hs : w.store.Each I) (op : LedgerOp) :
    (w.step T R O V op).store.Each I := by
  cases op with
  | emit depth r =>
    unfold Instance.step
    simp only
    split
    · exact emit_of_writes (Q := fun s s' => s.Each I → s'.Each I) (fun _ => id) (fun h₁ h₂ => h₂ ∘ h₁)
        (fun hwr hs => hwr.each hs fun row hrow => hwrite hw.2 hs hwr hrow) ‹_› hs
    · exact hs
  | erase companyId entityIds =>
    cases h : w.store.eraseItems V companyId entityIds with
    | some s' => simpa [Instance.step, h] using each_eraseItems hnil hs h
    | none => simpa [Instance.step, h] using hs
  | deleteDraft companyId entityId =>
    cases h : w.store.deleteDraft V companyId entityId with
    | some s' => simpa [Instance.step, h] using each_deleteDraft hnil hs h
    | none => simpa [Instance.step, h] using hs
  | rebuild companies =>
    unfold Instance.step
    simp only
    split
    · obtain ⟨-, hledger, hget⟩ := sound_rebuild hU hw.2 hw.1 ‹_›
      intro k
      simp only [hledger, hget]
      exact hs k
    · exact hs
  | load build => exact hs
  | burn values => exact hs

/-- **What holds of a record that is not there, and what each write keeps, holds of every record
    after any run.** -/
theorem each_run (hU : U.Settled) (hnil : I none [])
    (hwrite : ∀ {B s r e t s' row}, B.Under U → s.Each I → Writes T R B O s r e t s' →
      writeRow R B (s.projection? r.companyId r.entityId) e = .ok row → I (some row) (s.ledger.filter (·.key = e.key) ++ [e]))
    {build : Build} (hB : build.Under U) {ops : List LedgerOp} (hops : ∀ op ∈ ops, op.Under U) :
    (ops.foldl (Instance.step T R O V) ⟨{}, build⟩).store.Each I := by
  have hempty : (Instance.mk {} build).store.Each I := fun _ => hnil
  have hrun := Runs.foldl_of_step
    (Q := fun w : Instance => (w.store.Sound R U ∧ w.build.Under U) ∧ w.store.Each I) (P := fun _ op => op.Under U)
    (fun _ op hw hop => ⟨sound_ledgerStep (T := T) (O := O) (V := V) hU hw.1 hop, each_step hU hnil hwrite hw.1 hw.2 op⟩)
    ⟨⟨sound_empty, hB⟩, hempty⟩ (Runs.everyStep_of_mem fun op hop _ => hops op hop)
  exact hrun.2

end

/-! ## Items born once -/

/-- A history of a record of one type, where an item's begins with its only birth. -/
def Lived (entityType : String) : List LedgerEntry → Prop
  | [] => False
  | e :: later => (∀ e' ∈ e :: later, e'.entityType = entityType) ∧
    (entityType = "item" → e.eventType ∈ ITEM_BIRTHS ∧ ∀ e' ∈ later, e'.eventType ∉ ITEM_BIRTHS)

/-- A record with a projection has lived as one of its type; one without has no entries. -/
def LivedAs : Option Projection → List LedgerEntry → Prop
  | some p, log => Lived p.entityType log
  | none, log => log = []

section
variable {T : Texts} {R : ColumnReadings} {B U : Build} {O : Surroundings} {V : Removals} {s s' : Store}

theorem lived_singleton {entityType : String} {e : LedgerEntry} (ht : e.entityType = entityType)
    (hbirth : entityType = "item" → e.eventType ∈ ITEM_BIRTHS) : Lived entityType [e] :=
  ⟨by simpa using ht, fun h => ⟨hbirth h, nofun⟩⟩

theorem Lived.append {entityType : String} {log : List LedgerEntry} {e : LedgerEntry} (h : Lived entityType log)
    (ht : e.entityType = entityType) (hchange : entityType = "item" → e.eventType ∉ ITEM_BIRTHS) :
    Lived entityType (log ++ [e]) := by
  cases log with
  | nil => exact h.elim
  | cons first later =>
    refine ⟨fun e' he' => ?_, fun hitem => ⟨(h.2 hitem).1, fun e' he' => ?_⟩⟩
    · rw [List.append_eq, ← List.cons_append, List.mem_append, List.mem_singleton] at he'
      rcases he' with he' | rfl
      · exact h.1 e' he'
      · exact ht
    · rw [List.append_eq, List.mem_append, List.mem_singleton] at he'
      rcases he' with he' | rfl
      · exact (h.2 hitem).2 e' he'
      · exact hchange hitem

/-- The births and changes of items exclude each other. -/
theorem Writes.birth_iff {r : Request} {e : LedgerEntry} {t : Transition} (h : Writes T R B O s r e t s')
    (hitem : r.entityType = "item") : e.eventType ∈ ITEM_BIRTHS ↔ s.projection? r.companyId r.entityId = none := by
  obtain ⟨row, -, ht, -⟩ := h.row
  have happ := h.applied hitem
  unfold itemApplied at happ
  split_ifs at happ with hmissing hexists
  rw [ht] at hmissing hexists
  cases hp : s.projection? r.companyId r.entityId with
  | none =>
    rw [hp] at hmissing
    exact iff_of_true (by simpa using hmissing) rfl
  | some p =>
    rw [hp] at hexists
    exact iff_of_false (by simpa using hexists) nofun

theorem Writes.livedAs {r : Request} {e : LedgerEntry} {t : Transition} {row : Projection} (hs : s.Each LivedAs)
    (h : Writes T R B O s r e t s') (hrow : writeRow R B (s.projection? r.companyId r.entityId) e = .ok row) :
    LivedAs (some row) (s.ledger.filter (·.key = e.key) ++ [e]) := by
  have htype : e.entityType = r.entityType := by rw [h.entry]
  have hrowType := entityType_of_writeRow hrow
  have hk : LivedAs (s.projection? r.companyId r.entityId) (s.ledger.filter (·.key = e.key)) := by
    rw [h.key_eq]
    exact hs (r.companyId, r.entityId)
  cases hp : s.projection? r.companyId r.entityId with
  | none =>
    rw [hp] at hk hrowType
    change List.filter _ _ = [] at hk
    rw [hk]
    refine lived_singleton hrowType.symm fun hitem => ?_
    rw [hrowType] at hitem
    exact (h.birth_iff (htype ▸ hitem)).2 hp
  | some p =>
    rw [hp] at hk hrowType
    have hsame : p.entityType = r.entityType := h.kind p hp
    change Lived row.entityType _
    change row.entityType = p.entityType at hrowType
    rw [hrowType]
    refine Lived.append hk (htype.trans hsame.symm) fun hitem hmem => ?_
    have := (h.birth_iff (hsame.symm.trans hitem)).1 hmem
    rw [hp] at this
    cases this

/-- **An item is born once**: after any run a record has entries in the ledger just when it has
    a projection, whose type they all have; an item's first entry is its birth, and no other is. -/
theorem born_once (hU : U.Settled) {build : Build} (hB : build.Under U) {ops : List LedgerOp}
    (hops : ∀ op ∈ ops, op.Under U) : (ops.foldl (Instance.step T R O V) ⟨{}, build⟩).store.Each LivedAs :=
  each_run hU rfl (fun _ hs hw hrow => hw.livedAs hs hrow) hB hops

theorem born_once_stone :
    (∀ op ∈ stoneOps, op.Under itemBuild) ∧
      (stoneOps.foldl (Instance.step plainTexts ⟨some, some⟩ plainSurroundings ⟨fun _ _ _ => [], fun _ _ _ => []⟩)
        ⟨{}, itemBuild⟩).store.Each LivedAs := by
  refine ⟨stoneOps_under, ?_⟩
  exact @born_once plainTexts ⟨some, some⟩ itemBuild plainSurroundings ⟨fun _ _ _ => [], fun _ _ _ => []⟩
    itemBuild_settled itemBuild (fun _ => id) stoneOps stoneOps_under

end

end Celerp
