/-
  Runs of voids, unvoids and the other writes of a document.

  An unvoid posts each restore as a new entry (`createForDocUnvoided_eq`); with a void and
  any other write that posts no second entry of a root it keeps `SoundBooks`
  (`DocRun.sound`).  `voids_restored` says when an unvoid puts back what the last void took
  out.
-/
import Celerp.Journal.Unvoided

namespace Celerp

open Segments

/-! ## Posting the restores -/

section
variable {docId c root : String} {g : Bool} {s : DocBooks} {x : Restore}
  {postingDay : Option String → Option String}

theorem mem_restoreKeys {key : String} : key ∈ restoreKeys docId x ↔
    ∃ step ∈ ["c", "p"], key = unvoidKey docId x.root x.generation step := by
  simp [restoreKeys]

theorem not_mem_step {step : String} (h : step ∈ ["c", "p"]) : ':' ∉ step.toList := by
  rcases List.mem_pair.1 h with rfl | rfl <;> decide

theorem eq_of_mem_restoreKeys {y : Restore} {key : String} (hx : key ∈ restoreKeys docId x) (hy : key ∈ restoreKeys docId y) :
    x.root = y.root ∧ x.generation = y.generation := by
  obtain ⟨step, hstep, rfl⟩ := mem_restoreKeys.1 hx
  obtain ⟨step', hstep', heq⟩ := mem_restoreKeys.1 hy
  obtain ⟨hroot, hn, -⟩ := unvoidKey_inj (not_mem_step hstep) (not_mem_step hstep') heq
  exact ⟨hroot, hn⟩

theorem restoreId_inj {y : Restore} (h : restoreId docId x = restoreId docId y) :
    x.root = y.root ∧ x.generation = y.generation := restoreSuffix_inj (jeId_inj h)

/-- A restore whose id and keys are new is posted. -/
theorem emit_restore (hids : s.ids.Nodup) (hnew : restoreId docId x ∉ s.ids)
    (hkeys : ∀ key ∈ restoreKeys docId x, key ∉ s.journal.keys) :
    (restoreWrites docId postingDay x (x.source.lines.filter (·.moves))).foldlM (fun t e => t.emit .other 0 e) s =
      some ⟨⟨s.journal.rows ++ [restoredRow docId postingDay x], s.journal.keys ++ restoreKeys docId x⟩, s.voidEvents⟩ := by
  rw [restoreKeys, List.forall_mem_cons, List.forall_mem_singleton] at hkeys
  have hcreated : s.emit .other 0 ⟨restoreId docId x, unvoidKey docId x.root x.generation "c", false, .created
      { memo := some (restoreMemo docId x.source), lines := some (x.source.lines.filter (·.moves)),
        ts := postingDay x.source.ts }⟩ =
      some ⟨⟨s.journal.rows ++ [restoredRow docId postingDay x],
        s.journal.keys ++ [unvoidKey docId x.root x.generation "c"]⟩, s.voidEvents⟩ :=
    emit_created hnew rfl hkeys.1
  have hids' : (s.ids ++ [restoreId docId x]).Nodup := by
    rw [← List.concat_eq_append]
    exact hids.concat hnew
  have hposted : DocBooks.emit ⟨⟨s.journal.rows ++ [restoredRow docId postingDay x],
      s.journal.keys ++ [unvoidKey docId x.root x.generation "c"]⟩, s.voidEvents⟩ .other 0
        ⟨restoreId docId x, unvoidKey docId x.root x.generation "p", false, .posted⟩ =
      some ⟨⟨s.journal.rows ++ [restoredRow docId postingDay x],
        s.journal.keys ++ [unvoidKey docId x.root x.generation "c"] ++ [unvoidKey docId x.root x.generation "p"]⟩,
        s.voidEvents⟩ := by
    refine emit_posted (r := restoredRow docId postingDay x) ?_ (List.mem_append_right _ (List.mem_singleton_self _)) rfl rfl ?_
    · rw [DocBooks.ids, List.map_append]
      exact hids'
    · intro hmem
      rcases List.mem_append.1 hmem with hmem | hmem
      · exact hkeys.2 hmem
      · obtain ⟨-, -, hstep⟩ := unvoidKey_inj (by decide) (by decide) (List.mem_singleton.1 hmem)
        exact absurd hstep (by decide)
  rw [List.append_assoc] at hposted
  have hwrites : restoreWrites docId postingDay x (x.source.lines.filter (·.moves)) =
      [⟨restoreId docId x, unvoidKey docId x.root x.generation "c", false, .created
        { memo := some (restoreMemo docId x.source), lines := some (x.source.lines.filter (·.moves)),
          ts := postingDay x.source.ts }⟩,
        ⟨restoreId docId x, unvoidKey docId x.root x.generation "p", false, .posted⟩] := rfl
  rw [hwrites, List.foldlM_cons, hcreated, Option.bind_eq_bind, Option.bind_some, List.foldlM_cons, hposted]
  rfl

/-- Restores of distinct roots, whose ids and keys are new, are posted. -/
theorem foldlM_emit_restores {l : List Restore} (hids : s.ids.Nodup) (hroots : (l.map Restore.root).Nodup)
    (hnew : ∀ x ∈ l, restoreId docId x ∉ s.ids) (hkeys : ∀ x ∈ l, ∀ key ∈ restoreKeys docId x, key ∉ s.journal.keys)
    (hpost : ∀ x ∈ l, (∀ line ∈ x.source.lines, line.Whole c) ∧ exchangeGap x.source.lines = 0) :
    l.foldlM (fun t x => (writesOf docId c postingDay x).bind (·.foldlM (fun t e => t.emit .other 0 e) t)) s =
      some ⟨⟨s.journal.rows ++ l.map (restoredRow docId postingDay), s.journal.keys ++ l.flatMap (restoreKeys docId)⟩,
        s.voidEvents⟩ := by
  induction l generalizing s with
  | nil => simp
  | cons x l ih =>
    rw [List.forall_mem_cons] at hnew hkeys hpost
    rw [List.map_cons, List.nodup_cons] at hroots
    have hne : ∀ y ∈ l, x.root ≠ y.root := fun y hy heq => hroots.1 (heq ▸ List.mem_map_of_mem hy)
    have hwrites : writesOf docId c postingDay x =
        some (restoreWrites docId postingDay x (x.source.lines.filter (·.moves))) := by
      rw [writesOf, emitAutoPosted_of_whole hpost.1.1 hpost.1.2, Option.map_some]
    rw [List.foldlM_cons, hwrites, Option.bind_some, emit_restore hids hnew.1 hkeys.1, Option.bind_eq_bind,
      Option.bind_some, ih ?_ hroots.2 ?_ ?_ hpost.2]
    · simp
    · rw [DocBooks.ids, List.map_append, List.map_singleton, ← List.concat_eq_append]
      exact hids.concat hnew.1
    · intro y hy hmem
      rw [DocBooks.ids, List.map_append] at hmem
      rcases List.mem_append.1 hmem with hmem | hmem
      · exact hnew.2 y hy hmem
      · exact hne y hy (restoreId_inj (List.mem_singleton.1 hmem)).1.symm
    · intro y hy key hkey hmem
      rcases List.mem_append.1 hmem with hmem | hmem
      · exact hkeys.2 y hy key hkey hmem
      · exact hne y hy (eq_of_mem_restoreKeys hmem hkey).1

theorem restoreId_not_mem (h : SoundBooks docId c s) (hx : x ∈ restores docId g s) : restoreId docId x ∉ s.ids := by
  obtain ⟨suffix, -, hroot, -, -, -, -, hn⟩ := mem_restores h.nodup hx
  intro hmem
  have hself : recognitionRoot true x.root = some x.root := by
    rw [recognitionRoot_eq_some] at hroot ⊢
    obtain ⟨hrecognized, hstrip⟩ := hroot
    refine ⟨isRecognized_true hrecognized, ?_⟩
    rw [← hstrip]
    exact stripRestores_stripRestores
  have hle := h.numbered x.root x.generation hself hmem
  omega

theorem restoreKeys_not_mem (h : SoundBooks docId c s) (hx : x ∈ restores docId g s) :
    ∀ key ∈ restoreKeys docId x, key ∉ s.journal.keys := by
  intro key hkey hmem
  obtain ⟨step, hstep, rfl⟩ := mem_restoreKeys.1 hkey
  exact restoreId_not_mem h hx (h.restored x.root x.generation step hstep hmem)

theorem postable_source (h : SoundBooks docId c s) (hx : x ∈ restores docId g s) : Postable c x.source := by
  obtain ⟨suffix, -, hroot, hmem, hid, -⟩ := mem_restores h.nodup hx
  refine h.postable x.source hmem ?_
  rw [hid, rootOf_jeId, recognitionRoot_true hroot]
  exact Option.some_ne_none x.root

/-- **An unvoid posts each restore.** -/
theorem createForDocUnvoided_eq (h : SoundBooks docId c s) :
    createForDocUnvoided docId c postingDay g s = some (unvoidedBooks docId postingDay g s) :=
  foldlM_emit_restores h.nodup (nodup_roots_restores h) (fun _ hx => restoreId_not_mem h hx)
    (fun _ hx => restoreKeys_not_mem h hx) fun _ hx => (postable_source h hx).2

/-- The keys of an unvoid's writes are those of its restores. -/
theorem keys_unvoidWrites (h : SoundBooks docId c s) : (unvoidWrites docId c postingDay g s).map (·.key) =
    (restores docId g s).flatMap (restoreKeys docId) := by
  rw [unvoidWrites, List.map_flatMap]
  refine List.flatMap_congr fun x hx => ?_
  have hpost := (postable_source h hx).2
  rw [writesOf, emitAutoPosted_of_whole hpost.1 hpost.2]
  rfl

theorem rootOf_restoreId (h : SoundBooks docId c s) (hx : x ∈ restores docId g s) :
    rootOf docId true (restoreId docId x) = some x.root := by
  obtain ⟨suffix, -, hroot, -⟩ := mem_restores h.nodup hx
  rw [restoreId, rootOf_jeId]
  exact recognitionRoot_restoreSuffix (recognitionRoot_true hroot)

theorem ids_unvoidedBooks : (unvoidedBooks docId postingDay g s).ids = s.ids ++ (restores docId g s).map (restoreId docId) := by
  rw [DocBooks.ids, unvoidedBooks, List.map_append, List.map_map]
  rfl

theorem generations_append {ids more : List String} :
    generations docId root (ids ++ more) = generations docId root ids + generations docId root more := by
  rw [generations, List.filter_append, List.length_append]
  rfl

/-- A restore of a root that is restored is its own. -/
theorem eq_of_restores {y : Restore} (h : SoundBooks docId c s) (hx : x ∈ restores docId g s) (hy : y ∈ restores docId g s)
    (hroot : x.root = y.root) : x = y :=
  List.inj_on_of_nodup_map (nodup_roots_restores h) hx hy hroot

/-- Nothing posted has the root of a restore. -/
theorem not_posted_of_restores (h : SoundBooks docId c s) (hx : x ∈ restores docId g s) {r : JournalRow}
    (hr : r ∈ s.journal.rows) (hroot : rootOf docId true r.entityId = some x.root) : ¬r.posted := by
  obtain ⟨suffix, -, hsuffix, -, -, hnone, -⟩ := mem_restores h.nodup hx
  refine hnone r hr ?_
  rwa [rootOf_of_true (recognitionRoot_eq_some.1 hsuffix).1]

/-- **An unvoid keeps the invariant.** -/
theorem SoundBooks.unvoided (h : SoundBooks docId c s) : SoundBooks docId c (unvoidedBooks docId postingDay g s) where
  nodup := by
    rw [ids_unvoidedBooks, List.nodup_append']
    refine ⟨h.nodup, ?_, ?_⟩
    · rw [List.Nodup, List.pairwise_map]
      exact (List.pairwise_map.1 (nodup_roots_restores h)).imp fun hne heq => hne (restoreId_inj heq).1
    · intro id hid hmem
      obtain ⟨x, hx, rfl⟩ := List.mem_map.1 hmem
      exact restoreId_not_mem h hx hid
  once := by
    have hcross : ∀ r ∈ s.journal.rows, ∀ x ∈ restores docId g s, ∀ root, r.posted →
        rootOf docId true r.entityId = some root → rootOf docId true (restoreId docId x) ≠ some root := by
      intro r hr x hx root hposted hroot hroot'
      rw [rootOf_restoreId h hx] at hroot'
      exact not_posted_of_restores h hx hr (hroot.trans hroot'.symm) hposted
    intro r hr r' hr' hposted hposted' root hroot hroot'
    rcases List.mem_append.1 hr with hr | hr <;> rcases List.mem_append.1 hr' with hr' | hr'
    · exact h.once r hr r' hr' hposted hposted' root hroot hroot'
    · obtain ⟨x, hx, rfl⟩ := List.mem_map.1 hr'
      exact absurd hroot' (hcross r hr x hx root hposted hroot)
    · obtain ⟨x, hx, rfl⟩ := List.mem_map.1 hr
      exact absurd hroot (hcross r' hr' x hx root hposted' hroot')
    · obtain ⟨x, hx, rfl⟩ := List.mem_map.1 hr
      obtain ⟨y, hy, rfl⟩ := List.mem_map.1 hr'
      have hsame : some x.root = some y.root := by
        rw [← rootOf_restoreId h hx, ← rootOf_restoreId h hy]
        exact hroot.trans hroot'.symm
      rw [eq_of_restores h hx hy (Option.some.inj hsame)]
  postable := by
    intro r hr hroot
    rcases List.mem_append.1 hr with hr | hr
    · exact h.postable r hr hroot
    · obtain ⟨x, hx, rfl⟩ := List.mem_map.1 hr
      obtain ⟨-, hwhole, hgap⟩ := postable_source h hx
      refine ⟨nofun, fun l hl => hwhole l (List.mem_of_mem_filter hl), ?_⟩
      exact (exchangeGap_filter_moves _).trans hgap
  numbered := by
    intro root n hself hmem
    rw [ids_unvoidedBooks] at hmem ⊢
    rw [generations_append]
    rcases List.mem_append.1 hmem with hmem | hmem
    · exact (h.numbered root n hself hmem).trans (Nat.le_add_right _ _)
    · obtain ⟨x, hx, heq⟩ := List.mem_map.1 hmem
      obtain ⟨suffix, -, -, -, -, -, -, hn⟩ := mem_restores h.nodup hx
      obtain ⟨rfl, rfl⟩ := restoreSuffix_inj (jeId_inj heq)
      -- the restore itself is one more of its root
      have hone : 0 < generations docId x.root ((restores docId g s).map (restoreId docId)) := by
        rw [generations]
        refine List.length_pos_of_mem (a := restoreId docId x) (List.mem_filter.2 ⟨List.mem_map_of_mem hx, ?_⟩)
        rw [decide_eq_true_eq]
        exact ⟨rootOf_restoreId h hx, fun heq => restoreSuffix_ne (jeId_inj heq)⟩
      omega
  batches := by
    intro batch suffix hkey
    rcases List.mem_append.1 hkey with hkey | hkey
    · exact h.batches batch suffix hkey
    · obtain ⟨x, -, hkey⟩ := List.mem_flatMap.1 hkey
      obtain ⟨step, hstep, heq⟩ := mem_restoreKeys.1 hkey
      exact absurd heq (voidKey_ne_unvoidKey (not_mem_step hstep))
  restored := by
    intro root n step hstep hkey
    rw [ids_unvoidedBooks]
    rcases List.mem_append.1 hkey with hkey | hkey
    · exact List.mem_append_left _ (h.restored root n step hstep hkey)
    · obtain ⟨x, hx, hkey⟩ := List.mem_flatMap.1 hkey
      obtain ⟨step', hstep', heq⟩ := mem_restoreKeys.1 hkey
      obtain ⟨rfl, rfl, -⟩ := unvoidKey_inj (not_mem_step hstep) (not_mem_step hstep') heq
      exact List.mem_append_right _ (List.mem_map_of_mem hx)
  voidedOnce := h.voidedOnce

end

/-! ## Other writes -/

/-- A write of another flow: under a key of its own, it makes no entry under a restore's
    suffix, no second posted entry of a root, and no entry that could not be posted again. -/
structure OtherWrite (docId c : String) (s : DocBooks) (e : JournalEvent) : Prop where
  notVoid : ∀ batch suffix, e.key ≠ voidKey docId batch suffix
  notRestore : ∀ root n, ∀ step ∈ ["c", "p"], e.key ≠ unvoidKey docId root n step
  original : e.entityId ∉ s.ids → ∀ suffix root, e.entityId = jeId docId suffix →
    recognitionRoot true suffix = some root → suffix = root
  once : e.write ≠ .voided → ∀ root, rootOf docId true e.entityId = some root → ∀ r ∈ s.journal.rows,
    rootOf docId true r.entityId = some root → r.posted → r.entityId = e.entityId
  postable : rootOf docId true e.entityId ≠ none →
    Postable c (applyWrite e.entityId (s.journal.get? e.entityId) e.write)

section
variable {docId c : String} {s t : DocBooks} {e : JournalEvent} {trigger : VoidTrigger} {batch : ℕ}

/-- The entry a write leaves. -/
abbrev written (s : DocBooks) (e : JournalEvent) : JournalRow :=
  applyWrite e.entityId (s.journal.get? e.entityId) e.write

theorem entityId_written : (written s e).entityId = e.entityId := by
  rw [written]
  cases hget : s.journal.get? e.entityId with
  | none => cases e.write <;> rfl
  | some r =>
    have hid := (get?_journal hget).2
    cases e.write with
    | created data => rfl
    | posted => exact hid
    | voided => exact hid

theorem mem_apply {r : JournalRow} (hr : r ∈ (s.journal.apply e).rows) :
    r = written s e ∨ (r ∈ s.journal.rows ∧ r.entityId ≠ e.entityId) := by
  rw [written]
  cases hget : s.journal.get? e.entityId with
  | none =>
    simp only [Journal.apply, hget] at hr
    rcases List.mem_append.1 hr with hr | hr
    · exact Or.inr ⟨hr, by simpa using List.find?_eq_none.1 hget r hr⟩
    · exact Or.inl (List.mem_singleton.1 hr)
  | some p =>
    simp only [Journal.apply, hget] at hr
    obtain ⟨q, hq, rfl⟩ := List.mem_map.1 hr
    split_ifs with heq
    · exact Or.inl rfl
    · exact Or.inr ⟨hq, heq⟩

theorem ids_apply : (s.journal.apply e).rows.map JournalRow.entityId =
    s.ids ++ if e.entityId ∈ s.ids then [] else [e.entityId] := by
  have hwritten := entityId_written (s := s) (e := e)
  rw [written] at hwritten
  cases hget : s.journal.get? e.entityId with
  | none =>
    rw [hget] at hwritten
    have hnew : e.entityId ∉ s.ids := by
      intro hmem
      obtain ⟨r, hr, heq⟩ := List.mem_map.1 hmem
      exact absurd heq (by simpa using List.find?_eq_none.1 hget r hr)
    simp only [Journal.apply, hget]
    rw [if_neg hnew, List.map_append, List.map_singleton, hwritten]
    rfl
  | some r =>
    rw [hget] at hwritten
    obtain ⟨hr, hid⟩ := get?_journal hget
    have hold : e.entityId ∈ s.ids := List.mem_map.2 ⟨r, hr, hid⟩
    simp only [Journal.apply, hget]
    rw [if_pos hold, List.append_nil]
    refine map_entityId fun p => ?_
    split_ifs with heq
    · rw [hwritten, heq]
    · rfl

theorem emit_eq (hkey : e.key ∉ s.journal.keys) (h : s.emit trigger batch e = some t) :
    t = ⟨s.journal.apply e, s.voidEvents ++ if e.write = .voided then [⟨e.entityId, trigger, batch⟩] else []⟩ := by
  cases hguard : s.journal.guardEvent e with
  | error err =>
    have hemit : s.journal.emit e = .error err := by
      rw [Journal.emit, hguard]
      rfl
    rw [DocBooks.emit, hemit] at h
    cases h
  | ok u =>
    rw [emit_of_guard hguard hkey] at h
    exact (Option.some.inj h).symm

/-- **Another flow's write keeps the invariant.** -/
theorem SoundBooks.write (h : SoundBooks docId c s) (hother : OtherWrite docId c s e)
    (hemit : s.emit trigger 0 e = some t) : SoundBooks docId c t := by
  by_cases hkey : e.key ∈ s.journal.keys
  · rw [emit_repeat hkey hemit]
    exact h
  obtain rfl := emit_eq hkey hemit
  have hids := ids_apply (s := s) (e := e)
  have hevents : ∃ more : List (String × VoidEvent), (∀ e' ∈ more, e'.2.batch = 0) ∧ docVoidEvents docId
      ⟨s.journal.apply e, s.voidEvents ++ if e.write = .voided then [⟨e.entityId, trigger, 0⟩] else []⟩ =
        docVoidEvents docId s ++ more := by
    refine ⟨_, ?_, List.filterMap_append⟩
    intro e' he'
    obtain ⟨record, hrecord, hsuffix⟩ := List.mem_filterMap.1 he'
    obtain ⟨suffix, -, rfl⟩ := Option.map_eq_some_iff.1 hsuffix
    split_ifs at hrecord
    · rw [List.mem_singleton.1 hrecord]
    · cases hrecord
  obtain ⟨more, hmore, hevents⟩ := hevents
  refine ⟨?_, ?_, ?_, ?_, ?_, ?_, ?_⟩
  · rw [DocBooks.ids, hids]
    split_ifs with hmem
    · rw [List.append_nil]
      exact h.nodup
    · rw [← List.concat_eq_append]
      exact h.nodup.concat hmem
  · have hcross : ∀ r ∈ s.journal.rows, r.entityId ≠ e.entityId → r.posted → (written s e).posted → ∀ root,
        rootOf docId true r.entityId = some root → rootOf docId true (written s e).entityId ≠ some root := by
      intro r hr hne hposted hwritten root hroot hroot'
      rw [entityId_written] at hroot'
      refine hne (hother.once ?_ root hroot' r hr hroot hposted)
      intro hvoid
      rw [written, hvoid] at hwritten
      cases hget : s.journal.get? e.entityId <;> rw [hget] at hwritten <;> cases hwritten
    intro r hr r' hr' hposted hposted' root hroot hroot'
    rcases mem_apply hr with rfl | ⟨hr, hne⟩ <;> rcases mem_apply hr' with rfl | ⟨hr', hne'⟩
    · rfl
    · exact absurd hroot (hcross r' hr' hne' hposted' hposted root hroot')
    · exact absurd hroot' (hcross r hr hne hposted hposted' root hroot)
    · exact h.once r hr r' hr' hposted hposted' root hroot hroot'
  · intro r hr hroot
    rcases mem_apply hr with rfl | ⟨hr, -⟩
    · rw [entityId_written] at hroot
      exact hother.postable hroot
    · exact h.postable r hr hroot
  · intro root n hself hmem
    rw [DocBooks.ids, hids] at hmem ⊢
    rw [generations_append]
    rcases List.mem_append.1 hmem with hmem | hmem
    · exact (h.numbered root n hself hmem).trans (Nat.le_add_right _ _)
    · split_ifs at hmem with hold
      · cases hmem
      · have heq := List.mem_singleton.1 hmem
        have hsuffix := hother.original hold (restoreSuffix root n) root heq.symm (recognitionRoot_restoreSuffix hself)
        exact absurd hsuffix restoreSuffix_ne
  · intro batch suffix hmem
    have hle : lastVoidBatch docId s ≤ lastVoidBatch docId
        ⟨s.journal.apply e, s.voidEvents ++ if e.write = .voided then [⟨e.entityId, trigger, 0⟩] else []⟩ := by
      rw [lastVoidBatch_le_iff]
      intro e' he'
      refine le_lastVoidBatch ?_
      rw [hevents]
      exact List.mem_append_left _ he'
    rcases List.mem_append.1 hmem with hmem | hmem
    · exact (h.batches batch suffix hmem).trans hle
    · exact absurd (List.mem_singleton.1 hmem).symm (hother.notVoid batch suffix)
  · intro root n step hstep hmem
    rw [DocBooks.ids, hids]
    rcases List.mem_append.1 hmem with hmem | hmem
    · exact List.mem_append_left _ (h.restored root n step hstep hmem)
    · exact absurd (List.mem_singleton.1 hmem).symm (hother.notRestore root n step hstep)
  · rw [hevents, List.pairwise_append]
    refine ⟨h.voidedOnce, ?_, ?_⟩
    · refine List.pairwise_of_forall_mem_list fun e' he' e'' _ _ hne => absurd (hmore e' he') hne
    · intro e' _ e'' he'' hbatch hne
      rw [hmore e'' he''] at hbatch
      exact absurd hbatch hne

end

/-! ## Runs -/

/-- The runs from given books, with the events the voids and unvoids in them wrote. -/
inductive DocRun (docId c : String) (postingDay : Option String → Option String) (s₀ : DocBooks) :
    List JournalEvent → DocBooks → Prop where
  | start : DocRun docId c postingDay s₀ [] s₀
  | void {events s t} (g : Bool) : DocRun docId c postingDay s₀ events s → voidForDocVoided docId g s = some t →
      DocRun docId c postingDay s₀ (events ++ voidWrites docId g s) t
  | unvoid {events s t} (g : Bool) : DocRun docId c postingDay s₀ events s →
      createForDocUnvoided docId c postingDay g s = some t →
      DocRun docId c postingDay s₀ (events ++ unvoidWrites docId c postingDay g s) t
  | write {events s t} (trigger : VoidTrigger) (e : JournalEvent) : DocRun docId c postingDay s₀ events s →
      OtherWrite docId c s e → s.emit trigger 0 e = some t → DocRun docId c postingDay s₀ events t

/-- The ids of the entries that events write. -/
def createdIds (events : List JournalEvent) : List String :=
  events.filterMap fun e => match e.write with
    | .created _ => some e.entityId
    | _ => none

/-- What a run keeps: the invariant, and that no two of its events share a key or write one
    entry. -/
structure SoundRun (docId c : String) (events : List JournalEvent) (s : DocBooks) : Prop where
  sound : SoundBooks docId c s
  keys : (events.map (·.key)).Nodup
  used : ∀ e ∈ events, e.key ∈ s.journal.keys
  created : (createdIds events).Nodup
  present : ∀ id ∈ createdIds events, id ∈ s.ids

section
variable {docId c : String} {g : Bool} {s s₀ t : DocBooks} {events : List JournalEvent}
  {postingDay : Option String → Option String}

theorem createdIds_append (events more : List JournalEvent) : createdIds (events ++ more) = createdIds events ++ createdIds more :=
  List.filterMap_append

theorem createdIds_voidWrites : createdIds (voidWrites docId g s) = [] := by
  rw [createdIds, List.filterMap_eq_nil_iff]
  intro e he
  obtain ⟨je, -, rfl⟩ := List.mem_map.1 he
  rfl

theorem createdIds_unvoidWrites (h : SoundBooks docId c s) :
    createdIds (unvoidWrites docId c postingDay g s) = (restores docId g s).map (restoreId docId) := by
  rw [createdIds, unvoidWrites, List.filterMap_flatMap, ← List.flatMap_singleton' (List.map _ _), List.flatMap_map]
  refine List.flatMap_congr fun x hx => ?_
  have hpost := (postable_source h hx).2
  rw [writesOf, emitAutoPosted_of_whole hpost.1 hpost.2]
  rfl

/-- Events under new keys that write new entries, none twice. -/
theorem SoundRun.append (h : SoundRun docId c events s) (ht : SoundBooks docId c t) {more : List JournalEvent}
    (hkeys : t.journal.keys = s.journal.keys ++ more.map (·.key)) (hids : t.ids = s.ids ++ createdIds more)
    (hnodup : (more.map (·.key)).Nodup) (hnew : ∀ e ∈ more, e.key ∉ s.journal.keys) :
    SoundRun docId c (events ++ more) t where
  sound := ht
  keys := by
    rw [List.map_append, List.nodup_append']
    refine ⟨h.keys, hnodup, fun key hkey hmore => ?_⟩
    obtain ⟨e, he, rfl⟩ := List.mem_map.1 hkey
    obtain ⟨e', he', heq⟩ := List.mem_map.1 hmore
    exact hnew e' he' (heq ▸ h.used e he)
  used := by
    intro e he
    rw [hkeys]
    rcases List.mem_append.1 he with he | he
    · exact List.mem_append_left _ (h.used e he)
    · exact List.mem_append_right _ (List.mem_map_of_mem he)
  created := by
    have hnodup := ht.nodup
    rw [hids, List.nodup_append'] at hnodup
    rw [createdIds_append, List.nodup_append']
    exact ⟨h.created, hnodup.2.1, fun id hid hmore => hnodup.2.2 (h.present id hid) hmore⟩
  present := by
    intro id hid
    rw [createdIds_append] at hid
    rw [hids]
    exact (List.mem_append.1 hid).elim (fun hid => List.mem_append_left _ (h.present id hid)) (List.mem_append_right _)

theorem SoundRun.voided (h : SoundRun docId c events s) :
    SoundRun docId c (events ++ voidWrites docId g s) (voidedBooks docId g s) := by
  refine h.append h.sound.voided rfl ?_ ?_ ?_
  · rw [createdIds_voidWrites, List.append_nil, ids_voidedBooks]
  · rw [voidWrites_eq, List.map_map, List.Nodup, List.pairwise_map]
    exact (nodup_postedSuffixes h.sound.nodup).imp fun hne heq => hne (voidKey_inj heq).2
  · intro e he
    rw [voidWrites_eq] at he
    obtain ⟨suffix, -, rfl⟩ := List.mem_map.1 he
    exact h.sound.voidKey_not_mem suffix

theorem SoundRun.unvoided (h : SoundRun docId c events s) :
    SoundRun docId c (events ++ unvoidWrites docId c postingDay g s) (unvoidedBooks docId postingDay g s) := by
  refine h.append h.sound.unvoided ?_ ?_ ?_ ?_
  · rw [keys_unvoidWrites h.sound]
    rfl
  · rw [createdIds_unvoidWrites h.sound, ids_unvoidedBooks]
  · rw [keys_unvoidWrites h.sound, List.nodup_flatMap]
    refine ⟨fun x _ => ?_, ?_⟩
    · rw [restoreKeys, List.nodup_cons, List.mem_singleton]
      refine ⟨fun heq => ?_, List.nodup_singleton _⟩
      exact absurd (unvoidKey_inj (by decide) (by decide) heq).2.2 (by decide)
    · refine (List.pairwise_map.1 (nodup_roots_restores h.sound)).imp fun hne key hx hy => ?_
      exact hne (eq_of_mem_restoreKeys hx hy).1
  · intro e he
    have hkey := List.mem_map_of_mem (f := (·.key)) he
    rw [keys_unvoidWrites h.sound] at hkey
    obtain ⟨x, hx, hkey⟩ := List.mem_flatMap.1 hkey
    exact restoreKeys_not_mem h.sound hx _ hkey

theorem SoundRun.write {e : JournalEvent} {trigger : VoidTrigger} (h : SoundRun docId c events s)
    (hother : OtherWrite docId c s e) (hemit : s.emit trigger 0 e = some t) : SoundRun docId c events t := by
  have ht := h.sound.write hother hemit
  by_cases hkey : e.key ∈ s.journal.keys
  · rw [emit_repeat hkey hemit]
    exact h
  · obtain rfl := emit_eq hkey hemit
    refine ⟨ht, h.keys, fun e' he' => List.mem_append_left _ (h.used e' he'), h.created, fun id hid => ?_⟩
    rw [DocBooks.ids, ids_apply]
    exact List.mem_append_left _ (h.present id hid)

/-- **A run from sound books stays sound, and no two of its events share a key or write one
    entry.** -/
theorem DocRun.sound (hrun : DocRun docId c postingDay s₀ events s) (h : SoundBooks docId c s₀) : SoundRun docId c events s := by
  induction hrun with
  | start => exact ⟨h, List.nodup_nil, nofun, List.nodup_nil, nofun⟩
  | void g _ hvoid ih =>
    rw [voidForDocVoided_eq ih.sound] at hvoid
    obtain rfl := Option.some.inj hvoid
    exact ih.voided
  | unvoid g _ hunvoid ih =>
    rw [createForDocUnvoided_eq ih.sound] at hunvoid
    obtain rfl := Option.some.inj hunvoid
    exact ih.unvoided
  | write trigger e _ hother hemit ih => exact ih.write hother hemit

end

/-! ## What an unvoid puts back -/

/-- What the posted entries move on an account. -/
def bookedOn (account : String) (s : DocBooks) : ℚ := (s.journal.rows.map (·.moved account)).sum

/-- No entry of the root is posted. -/
def NonePosted (docId root : String) (s : DocBooks) : Prop :=
  ∀ r ∈ s.journal.rows, rootOf docId true r.entityId = some root → ¬r.posted

/-- An entry with lines and nothing posted of its root. -/
def Restorable (docId : String) (g : Bool) (s : DocBooks) (suffix : String) : Prop :=
  ∃ root, recognitionRoot g suffix = some root ∧
    (∀ r ∈ s.journal.rows, rootOf docId g r.entityId = some root → ¬r.posted) ∧
    ∃ r ∈ s.journal.rows, r.entityId = jeId docId suffix ∧ r.lines ≠ []

/-- A void and the unvoid after it: the void leaves none of the document's entries posted, and
    the unvoid puts back on each account what the void took off it, and nothing of a root
    that had nothing posted. -/
def PutBack (docId c : String) (postingDay : Option String → Option String) (taking putting : Bool) (s : DocBooks) : Prop :=
  ∃ t u, voidForDocVoided docId taking s = some t ∧ createForDocUnvoided docId c postingDay putting t = some u ∧
    (∀ r ∈ t.journal.rows, rootOf docId taking r.entityId ≠ none → ¬r.posted) ∧
    (∀ account, bookedOn account u - bookedOn account t = bookedOn account s - bookedOn account t) ∧
    ∀ root, NonePosted docId root s → NonePosted docId root u

section
variable {docId c : String} {g g' taking putting : Bool} {s : DocBooks} {account : String}
  {postingDay : Option String → Option String}

/-- What a void takes off an account. -/
def takenOff (docId : String) (g : Bool) (account : String) (s : DocBooks) : ℚ :=
  (((docRecognitionJes docId g s).filter (·.2.posted)).map fun je => net account je.2.lines).sum

theorem bookedOn_voidedBooks : bookedOn account s = bookedOn account (voidedBooks docId g s) + takenOff docId g account s := by
  rw [bookedOn, bookedOn, takenOff, docRecognitionJes, voidedBooks]
  dsimp only
  induction s.journal.rows with
  | nil => simp
  | cons r rows ih =>
    rw [List.map_cons, List.map_cons, List.map_cons, List.sum_cons, List.sum_cons, ih, List.filterMap_cons]
    cases hsuffix : docSuffix docId r.entityId with
    | none =>
      have hroot : rootOf docId g r.entityId = none := by rw [rootOf, hsuffix, Option.bind_none]
      rw [voidedRow, hroot, if_neg (by simp)]
      ring
    | some suffix =>
      have hroot : rootOf docId g r.entityId = recognitionRoot g suffix := by rw [rootOf, hsuffix, Option.bind_some]
      have hvoid : JournalRow.moved account { r with status := .void } = 0 := rfl
      rw [voidedRow, hroot]
      dsimp only
      by_cases hsome : (recognitionRoot g suffix).isSome
      · rw [if_pos hsome]
        dsimp only
        by_cases hposted : r.posted
        · rw [if_pos ⟨hposted, hsome⟩, hvoid, List.filter_cons, if_pos hposted, List.map_cons, List.sum_cons,
            JournalRow.moved, if_pos hposted]
          ring
        · rw [if_neg fun hc => hposted hc.1, List.filter_cons, if_neg hposted]
          ring
      · rw [if_neg hsome, if_neg fun hc => hsome hc.2]
        ring

/-- What an unvoid puts on an account. -/
theorem bookedOn_unvoidedBooks : bookedOn account (unvoidedBooks docId postingDay g s) =
    bookedOn account s + ((restores docId g s).map fun x => net account x.source.lines).sum := by
  rw [bookedOn, unvoidedBooks, List.map_append, List.sum_append, List.map_map, bookedOn]
  congr 2
  refine List.map_congr_left fun x _ => ?_
  have hposted : (restoredRow docId postingDay x).posted = true := rfl
  rw [Function.comp_apply, JournalRow.moved, if_pos hposted]
  exact net_filter_moves account x.source.lines

/-- After a void that voids an entry, an unvoid considers what it voided. -/
theorem toRestore_voidedBooks (h : postedSuffixes docId g s ≠ []) :
    toRestore docId g' (voidedBooks docId g s) = postedSuffixes docId g s := by
  have hlast := lastVoidBatch_voidedBooks h
  have hnew : ∀ e ∈ (postedSuffixes docId g s).map fun suffix =>
      ((suffix, ⟨jeId docId suffix, .docVoided, 1 + lastVoidBatch docId s⟩) : String × VoidEvent),
      e.2.batch = 1 + lastVoidBatch docId s := by
    intro e he
    obtain ⟨suffix, -, rfl⟩ := List.mem_map.1 he
    rfl
  have hbatch : ∀ e ∈ docVoidEvents docId s, ¬e.2.batch = 1 + lastVoidBatch docId s := by
    intro e he heq
    have hle := le_lastVoidBatch he
    omega
  obtain ⟨suffix, hsuffix⟩ := List.exists_mem_of_ne_nil _ h
  rw [toRestore, if_pos ?_, List.filter_filter, hlast]
  · have hsame : ∀ e ∈ docVoidEvents docId (voidedBooks docId g s),
        (decide (e.2.batch = 1 + lastVoidBatch docId s) && decide (e.2.batch ≠ 0)) =
          decide (e.2.batch = 1 + lastVoidBatch docId s) := by
      intro e _
      by_cases heq : e.2.batch = 1 + lastVoidBatch docId s
      · have hne : e.2.batch ≠ 0 := by omega
        simp [heq]
      · simp [heq]
    rw [List.filter_congr hsame, docVoidEvents_voidedBooks, List.filter_append,
      List.filter_eq_nil_iff.2 fun e he => by simpa using hbatch e he,
      List.filter_eq_self.2 fun e he => by simpa using hnew e he, List.nil_append, List.map_map]
    exact List.map_id _
  · refine List.ne_nil_of_mem (a := (suffix, ⟨jeId docId suffix, .docVoided, 1 + lastVoidBatch docId s⟩))
      (List.mem_filter.2 ⟨?_, by simp⟩)
    rw [docVoidEvents_voidedBooks]
    exact List.mem_append_right _ (List.mem_map_of_mem hsuffix)

/-- What is restored of an entry that was voided moves what the entry moved. -/
theorem net_restoreOf (h : SoundBooks docId c s) (hflag : taking = true → putting = true) {je : String × JournalRow}
    (hje : je ∈ (docRecognitionJes docId taking s).filter (·.2.posted)) :
    ((restoreOf docId putting (voidedBooks docId taking s) je.1).map fun x => net account x.source.lines).getD 0 =
      net account je.2.lines := by
  obtain ⟨hje, hposted⟩ := List.mem_filter.1 hje
  obtain ⟨hr, hid, root, hroot⟩ := mem_docRecognitionJes.1 hje
  have hroot' := recognitionRoot_mono hflag hroot
  have hnone : ∀ r ∈ (voidedBooks docId taking s).journal.rows, rootOf docId putting r.entityId = some root → ¬r.posted := by
    intro r hmem hrroot hrposted
    obtain ⟨p, hp, rfl⟩ := List.mem_map.1 hmem
    rw [voidedRow_posted] at hrposted
    rw [voidedRow_entityId, rootOf_of_true (recognitionRoot_eq_some.1 hroot').1,
      ← rootOf_of_true (recognitionRoot_eq_some.1 hroot).1, hrposted.2] at hrroot
    cases hrroot
  by_cases hlines : je.2.lines = []
  · cases hx : restoreOf docId putting (voidedBooks docId taking s) je.1 with
    | none => rw [hlines]; rfl
    | some x =>
      obtain ⟨-, hsource, hsourceId, -, hne, -⟩ := (restoreOf_eq_some h.voided.nodup).1 hx
      obtain ⟨p, hp, heq⟩ := List.mem_map.1 hsource
      rw [← heq, voidedRow_entityId] at hsourceId
      obtain rfl := List.inj_on_of_nodup_map h.nodup hp hr (hsourceId.trans hid.symm)
      rw [← heq, voidedRow_lines] at hne
      exact absurd hlines hne
  · have hx : restoreOf docId putting (voidedBooks docId taking s) je.1 =
        some ⟨root, 1 + generations docId root (voidedBooks docId taking s).ids, voidedRow docId taking je.2⟩ := by
      refine (restoreOf_eq_some h.voided.nodup).2 ⟨hroot', List.mem_map_of_mem hr, ?_, hnone, ?_, rfl⟩
      · rw [voidedRow_entityId, hid]
      · rwa [voidedRow_lines]
    rw [hx, Option.map_some, Option.getD_some, voidedRow_lines]

theorem sum_filterMap {α β : Type*} {f : α → Option β} {w : β → ℚ} {v : α → ℚ} {l : List α}
    (h : ∀ a ∈ l, ((f a).map w).getD 0 = v a) : ((l.filterMap f).map w).sum = (l.map v).sum := by
  induction l with
  | nil => rfl
  | cons a l ih =>
    rw [List.forall_mem_cons] at h
    rw [List.filterMap_cons, List.map_cons, List.sum_cons, ← h.1, ← ih h.2]
    cases f a with
    | none => simp
    | some b => simp

/-- **An unvoid after a void that voids an entry puts back what it took off.** -/
theorem putBack_of_posted (h : SoundBooks docId c s) (hflag : taking = true → putting = true)
    (hposted : postedSuffixes docId taking s ≠ []) : PutBack docId c postingDay taking putting s := by
  refine ⟨_, _, voidForDocVoided_eq h, createForDocUnvoided_eq h.voided, ?_, fun account => ?_, fun root hnone => ?_⟩
  · intro r hr hroot hrposted
    obtain ⟨p, hp, rfl⟩ := List.mem_map.1 hr
    rw [voidedRow_entityId] at hroot
    exact hroot ((voidedRow_posted docId taking p).1 hrposted).2
  · have hrestored : ((restores docId putting (voidedBooks docId taking s)).map fun x => net account x.source.lines).sum =
        takenOff docId taking account s := by
      rw [restores, toRestore_voidedBooks hposted, postedSuffixes, List.filterMap_map, takenOff]
      exact sum_filterMap fun je hje => net_restoreOf h hflag hje
    rw [bookedOn_unvoidedBooks, hrestored, ← bookedOn_voidedBooks]
  · intro r hr hroot hrposted
    rcases List.mem_append.1 hr with hr | hr
    · obtain ⟨p, hp, rfl⟩ := List.mem_map.1 hr
      rw [voidedRow_entityId] at hroot
      exact hnone p hp hroot ((voidedRow_posted docId taking p).1 hrposted).1
    · obtain ⟨x, hx, rfl⟩ := List.mem_map.1 hr
      obtain ⟨suffix, hsuffix, hsroot, -⟩ := mem_restores h.voided.nodup hx
      rw [toRestore_voidedBooks hposted, mem_postedSuffixes] at hsuffix
      obtain ⟨p, hp, hid, hpposted, -⟩ := hsuffix
      have hxroot : rootOf docId true (restoredRow docId postingDay x).entityId = some x.root :=
        rootOf_restoreId h.voided hx
      rw [hxroot] at hroot
      refine hnone p hp ?_ hpposted
      rw [hid, rootOf_jeId, recognitionRoot_true hsroot, hroot]

/-- A void that voids no entry leaves the books as they were. -/
theorem voidedBooks_of_nil (hposted : postedSuffixes docId g s = []) : voidedBooks docId g s = s := by
  have hwrites : voidWrites docId g s = [] := by rw [voidWrites_eq, hposted, List.map_nil]
  have hrows : s.journal.rows.map (voidedRow docId g) = s.journal.rows := by
    refine (List.map_congr_left fun r hr => if_neg ?_).trans (List.map_id' _)
    rintro ⟨hrposted, hroot⟩
    obtain ⟨root, hroot⟩ := Option.isSome_iff_exists.1 hroot
    obtain ⟨suffix, hid, hroot⟩ := rootOf_eq_some.1 hroot
    have hmem : suffix ∈ postedSuffixes docId g s := mem_postedSuffixes.2 ⟨r, hr, hid, hrposted, root, hroot⟩
    rw [hposted] at hmem
    cases hmem
  rw [voidedBooks, hwrites, hrows, List.map_nil, List.map_nil, List.append_nil, List.append_nil]

theorem restorable_iff (h : s.ids.Nodup) {suffix : String} :
    Restorable docId g s suffix ↔ ∃ x, restoreOf docId g s suffix = some x := by
  constructor
  · rintro ⟨root, hroot, hnone, r, hr, hid, hlines⟩
    exact ⟨⟨root, 1 + generations docId root s.ids, r⟩, (restoreOf_eq_some h).2 ⟨hroot, hr, hid, hnone, hlines, rfl⟩⟩
  · rintro ⟨x, hx⟩
    obtain ⟨hroot, hr, hid, hnone, hlines, -⟩ := (restoreOf_eq_some h).1 hx
    exact ⟨x.root, hroot, hnone, x.source, hr, hid, hlines⟩

/-- An unvoid after a void that voids no entry puts back nothing where nothing is left to
    restore. -/
theorem putBack_iff_of_nil (h : SoundBooks docId c s) (hposted : postedSuffixes docId taking s = []) :
    PutBack docId c postingDay taking putting s ↔ ∀ suffix ∈ toRestore docId putting s, ¬Restorable docId putting s suffix := by
  have hvoid : voidForDocVoided docId taking s = some s := by rw [voidForDocVoided_eq h, voidedBooks_of_nil hposted]
  constructor
  · rintro ⟨t, u, ht, hu, -, -, hnone⟩ suffix hsuffix hrestorable
    rw [hvoid] at ht
    obtain rfl := Option.some.inj ht
    rw [createForDocUnvoided_eq h] at hu
    obtain rfl := Option.some.inj hu
    obtain ⟨x, hx⟩ := (restorable_iff h.nodup).1 hrestorable
    have hmem : x ∈ restores docId putting s := List.mem_filterMap.2 ⟨suffix, hsuffix, hx⟩
    -- the restore is posted though nothing of its root was
    refine hnone x.root (fun r hr hroot => not_posted_of_restores h hmem hr hroot) (restoredRow docId postingDay x)
      (List.mem_append_right _ (List.mem_map_of_mem hmem)) (rootOf_restoreId h hmem) rfl
  · intro hleft
    have hrestores : restores docId putting s = [] := by
      rw [restores, List.filterMap_eq_nil_iff]
      intro suffix hsuffix
      rw [← Option.not_isSome_iff_eq_none, Option.isSome_iff_exists]
      exact fun hx => hleft suffix hsuffix ((restorable_iff h.nodup).2 hx)
    have hunvoided : unvoidedBooks docId postingDay putting s = s := by
      rw [unvoidedBooks, hrestores, List.map_nil, List.flatMap_nil, List.append_nil, List.append_nil]
    refine ⟨s, s, hvoid, ?_, fun r hr hroot hrposted => ?_, fun account => rfl, fun root => id⟩
    · rw [createForDocUnvoided_eq h, hunvoided]
    · obtain ⟨root, hroot⟩ := Option.ne_none_iff_exists'.1 hroot
      obtain ⟨suffix, hid, hroot⟩ := rootOf_eq_some.1 hroot
      have hmem : suffix ∈ postedSuffixes docId taking s := mem_postedSuffixes.2 ⟨r, hr, hid, hrposted, root, hroot⟩
      rw [hposted] at hmem
      cases hmem

/-- **Voiding and unvoiding a document any number of times restores its books** exactly where
    the void voids an entry, or leaves nothing of an earlier void to restore.  In any run no
    two entries of a root are posted, and no two voids or restores share a key or an entry. -/
theorem voids_restored {s₀ : DocBooks} {events : List JournalEvent} (h : SoundBooks docId c s₀)
    (hrun : DocRun docId c postingDay s₀ events s) :
    OncePosted docId s.journal.rows ∧ (events.map (·.key)).Nodup ∧ (createdIds events).Nodup ∧
    ∀ emptied orderOnly, PutBack docId c postingDay (emptied && !orderOnly) emptied s ↔
      (∃ r ∈ s.journal.rows, r.posted ∧ rootOf docId (emptied && !orderOnly) r.entityId ≠ none) ∨
        ∀ suffix ∈ toRestore docId emptied s, ¬Restorable docId emptied s suffix := by
  have hsound := hrun.sound h
  refine ⟨hsound.sound.once, hsound.keys, hsound.created, fun emptied orderOnly => ?_⟩
  have hflag : (emptied && !orderOnly) = true → emptied = true := by
    rw [Bool.and_eq_true]
    exact And.left
  have hposted : (∃ r ∈ s.journal.rows, r.posted ∧ rootOf docId (emptied && !orderOnly) r.entityId ≠ none) ↔
      postedSuffixes docId (emptied && !orderOnly) s ≠ [] := by
    constructor
    · rintro ⟨r, hr, hrposted, hroot⟩
      obtain ⟨root, hroot⟩ := Option.ne_none_iff_exists'.1 hroot
      obtain ⟨suffix, hid, hroot⟩ := rootOf_eq_some.1 hroot
      exact List.ne_nil_of_mem (mem_postedSuffixes.2 ⟨r, hr, hid, hrposted, root, hroot⟩)
    · intro hne
      obtain ⟨suffix, hsuffix⟩ := List.exists_mem_of_ne_nil _ hne
      obtain ⟨r, hr, hid, hrposted, root, hroot⟩ := mem_postedSuffixes.1 hsuffix
      refine ⟨r, hr, hrposted, ?_⟩
      rw [hid, rootOf_jeId, hroot]
      exact Option.some_ne_none root
  rw [hposted]
  by_cases hnil : postedSuffixes docId (emptied && !orderOnly) s = []
  · rw [putBack_iff_of_nil hsound.sound hnil, or_iff_right (not_not_intro hnil)]
  · rw [or_iff_left_of_imp fun _ => hnil]
    exact ⟨fun _ => hnil, fun _ => putBack_of_posted hsound.sound hflag hnil⟩

end

/-- An invoice issued for 100. -/
def issuedInvoice : DocBooks where
  journal := ⟨[⟨"je:auto:doc:INV-1:fin", none, .posted, none, [.debitOf "1120" 100, .creditOf "4000" 100],
    some "Invoice INV-1", some "2026-01-05"⟩],
    [jeIdempotencyKey "doc:INV-1" "fin" "c", jeIdempotencyKey "doc:INV-1" "fin" "p"]⟩
  voidEvents := []

theorem split_fin : split ':' "fin" = ["fin".toList] := by decide

theorem voidKey_ne_finKey {docId suffix step : String} {batch : ℕ} :
    voidKey docId batch suffix ≠ jeIdempotencyKey docId "fin" step := by
  intro heq
  have hsplit := congrArg (split ':') heq
  rw [split_voidKey, split_jeIdempotencyKey, split_fin] at hsplit
  simp at hsplit

theorem unvoidKey_ne_finKey {docId root step step' : String} {n : ℕ} (hstep : ':' ∉ step.toList) :
    unvoidKey docId root n step ≠ jeIdempotencyKey docId "fin" step' := by
  intro heq
  have hsplit := congrArg (split ':') heq
  rw [split_unvoidKey hstep, split_jeIdempotencyKey, split_fin] at hsplit
  simp [UNVOID] at hsplit

theorem sound_issuedInvoice : SoundBooks "doc:INV-1" "USD" issuedInvoice where
  nodup := by decide
  once := by
    intro r hr r' hr' _ _ _ _ _
    rw [List.mem_singleton.1 hr, List.mem_singleton.1 hr']
  postable := by
    intro r hr _
    obtain rfl := List.mem_singleton.1 hr
    refine ⟨by decide, ?_, by decide +kernel⟩
    intro l hl
    have hround : roundMoney 100 "USD" = 100 := by decide +kernel
    have hwhole : IsWhole "USD" 100 := by
      rw [← hround]
      exact isWhole_roundMoney 100 "USD"
    rcases List.mem_pair.1 hl with rfl | rfl
    · exact ⟨hwhole, isWhole_zero "USD"⟩
    · exact ⟨isWhole_zero "USD", hwhole⟩
  numbered := by
    intro root n _ hmem
    have hid : jeId "doc:INV-1" (restoreSuffix root n) = jeId "doc:INV-1" "fin" := List.mem_singleton.1 hmem
    have hsplit := congrArg (fun suffix => (split ':' suffix).length) (jeId_inj hid)
    simp only [split_restoreSuffix, split_fin, List.length_append, List.length_cons, List.length_nil] at hsplit
    omega
  batches := by
    intro batch suffix hmem
    rcases List.mem_pair.1 hmem with heq | heq
    · exact absurd heq voidKey_ne_finKey
    · exact absurd heq voidKey_ne_finKey
  restored := by
    intro root n step hstep hmem
    rcases List.mem_pair.1 hmem with heq | heq
    · exact absurd heq (unvoidKey_ne_finKey (not_mem_step hstep))
    · exact absurd heq (unvoidKey_ne_finKey (not_mem_step hstep))
  voidedOnce := List.Pairwise.nil

/-- The invoice voided and unvoided. -/
theorem voids_restored_invoice :
    ∃ events s, DocRun "doc:INV-1" "USD" id issuedInvoice events s ∧ OncePosted "doc:INV-1" s.journal.rows ∧
      (events.map (·.key)).Nodup ∧ (createdIds events).Nodup ∧ ∀ emptied orderOnly,
        PutBack "doc:INV-1" "USD" id (emptied && !orderOnly) emptied s ↔
          (∃ r ∈ s.journal.rows, r.posted ∧ rootOf "doc:INV-1" (emptied && !orderOnly) r.entityId ≠ none) ∨
            ∀ suffix ∈ toRestore "doc:INV-1" emptied s, ¬Restorable "doc:INV-1" emptied s suffix :=
  have hrun : DocRun "doc:INV-1" "USD" id issuedInvoice _ _ :=
    (DocRun.start.void false (voidForDocVoided_eq sound_issuedInvoice)).unvoid false
      (createForDocUnvoided_eq sound_issuedInvoice.voided)
  ⟨_, _, hrun, voids_restored sound_issuedInvoice hrun⟩

/-- The invoice voided and unvoided, and then reverted to draft. -/
def revertedInvoice : Option DocBooks :=
  (voidForDocVoided "doc:INV-1" false issuedInvoice).bind fun t =>
    (createForDocUnvoided "doc:INV-1" "USD" id false t).bind fun u =>
      u.emit .other 0 ⟨"je:auto:doc:INV-1:fin:unvoid:1",
        jeIdempotencyKey "doc:INV-1" "revert_to_draft:0:fin:unvoid:1" "void", false, .voided⟩

/-- Voiding the draft takes nothing off, and unvoiding it books the invoice again. -/
theorem draft_booked_by_unvoid :
    revertedInvoice.map (bookedOn "1120") = some 0 ∧
    (revertedInvoice.bind (voidForDocVoided "doc:INV-1" false)).map (bookedOn "1120") = some 0 ∧
    ((revertedInvoice.bind (voidForDocVoided "doc:INV-1" false)).bind
      (createForDocUnvoided "doc:INV-1" "USD" id false)).map (bookedOn "1120") = some 100 := by
  decide +kernel

end Celerp
