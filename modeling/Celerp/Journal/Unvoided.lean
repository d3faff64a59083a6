/-
  Voiding a document and unvoiding it, over any run.

  `SoundBooks` is the invariant: at most one entry of each root is posted, the restores of
  a root are numbered no further than they are many, and the keys of voids and restores
  name what was written under them.  A void then voids each posted recognition entry and an
  unvoid posts each restore (`voidForDocVoided_eq`, `createForDocUnvoided_eq`), so that no
  write of theirs is a repeat.
-/
import Celerp.Journal.CancelledOnce
import Celerp.Journal.VoidNames

namespace Celerp

open Segments

/-! ## The invariant -/

/-- The root of an automatic entry of the document. -/
def rootOf (docId : String) (g : Bool) (entityId : String) : Option String :=
  (docSuffix docId entityId).bind (recognitionRoot g)

/-- An entry that can be voided and posted again. -/
def Postable (c : String) (r : JournalRow) : Prop :=
  r.jeType ≠ some "manual" ∧ (∀ l ∈ r.lines, l.Whole c) ∧ exchangeGap r.lines = 0

/-- At most one entry of each root is posted. -/
def OncePosted (docId : String) (rows : List JournalRow) : Prop :=
  ∀ r ∈ rows, ∀ r' ∈ rows, r.posted → r'.posted → ∀ root, rootOf docId true r.entityId = some root →
    rootOf docId true r'.entityId = some root → r = r'

/-- The ids of the entries of the journal. -/
def DocBooks.ids (s : DocBooks) : List String := s.journal.rows.map JournalRow.entityId

/-- How many restores of a root there are. -/
def generations (docId root : String) (ids : List String) : ℕ :=
  (ids.filter fun id => rootOf docId true id = some root ∧ id ≠ jeId docId root).length

/-- Two suffixes of no one root. -/
def Unrelated (suffix suffix' : String) : Prop :=
  ∀ root, recognitionRoot true suffix = some root → recognitionRoot true suffix' ≠ some root

/-- The invariant of a document's books. -/
structure SoundBooks (docId c : String) (s : DocBooks) : Prop where
  nodup : s.ids.Nodup
  once : OncePosted docId s.journal.rows
  postable : ∀ r ∈ s.journal.rows, rootOf docId true r.entityId ≠ none → Postable c r
  /-- a root's restores are numbered no further than they are many -/
  numbered : ∀ root n, recognitionRoot true root = some root → jeId docId (restoreSuffix root n) ∈ s.ids →
    n ≤ generations docId root s.ids
  /-- a batch is named by its voids' keys no sooner than recorded -/
  batches : ∀ batch suffix, voidKey docId batch suffix ∈ s.journal.keys → batch ≤ lastVoidBatch docId s
  /-- a restore is named by its keys no sooner than written -/
  restored : ∀ root n, ∀ step ∈ ["c", "p"], unvoidKey docId root n step ∈ s.journal.keys →
    jeId docId (restoreSuffix root n) ∈ s.ids
  /-- a batch voids one entry of each root -/
  voidedOnce : (docVoidEvents docId s).Pairwise fun e e' =>
    e.2.batch = e'.2.batch → e.2.batch ≠ 0 → Unrelated e.1 e'.1

section
variable {docId c root suffix entityId : String} {g : Bool} {s : DocBooks} {r : JournalRow}

theorem rootOf_eq_some : rootOf docId g entityId = some root ↔
    ∃ suffix, entityId = jeId docId suffix ∧ recognitionRoot g suffix = some root := by
  rw [rootOf, Option.bind_eq_some_iff]
  simp only [docSuffix_eq_some]

@[simp] theorem rootOf_jeId : rootOf docId g (jeId docId suffix) = recognitionRoot g suffix := by
  rw [rootOf, docSuffix_jeId, Option.bind_some]

theorem rootOf_of_true (hroot : isRecognized g root = true) :
    rootOf docId g entityId = some root ↔ rootOf docId true entityId = some root := by
  simp only [rootOf_eq_some, recognitionRoot_of_true hroot]

theorem mem_docRecognitionJes {je : String × JournalRow} : je ∈ docRecognitionJes docId g s ↔
    je.2 ∈ s.journal.rows ∧ je.2.entityId = jeId docId je.1 ∧ ∃ root, recognitionRoot g je.1 = some root := by
  rw [docRecognitionJes, List.mem_filterMap]
  constructor
  · rintro ⟨r, hr, heq⟩
    split at heq
    · next suffix hsuffix =>
      split_ifs at heq with hroot
      cases heq
      exact ⟨hr, docSuffix_eq_some.1 hsuffix, Option.isSome_iff_exists.1 hroot⟩
    · cases heq
  · rintro ⟨hr, hid, hroot⟩
    refine ⟨je.2, hr, ?_⟩
    rw [hid, docSuffix_jeId]
    exact if_pos (Option.isSome_iff_exists.2 hroot)

end

theorem map_entityId {f : JournalRow → JournalRow} (hf : ∀ r, (f r).entityId = r.entityId) {rows : List JournalRow} :
    (rows.map f).map JournalRow.entityId = rows.map JournalRow.entityId := by
  rw [List.map_map]
  exact List.map_congr_left fun r _ => hf r

/-! ## Emitting -/

section
variable {docId c entityId key : String} {s t : DocBooks} {r : JournalRow} {trigger : VoidTrigger} {batch : ℕ}

theorem emit_repeat {e : JournalEvent} (hkey : e.key ∈ s.journal.keys) (h : s.emit trigger batch e = some t) : t = s := by
  rw [DocBooks.emit] at h
  split at h
  · cases h
  · next journal hjournal =>
    rw [Journal.emit, if_pos hkey] at hjournal
    cases hguard : s.journal.guardEvent e with
    | error err => rw [hguard] at hjournal; cases hjournal
    | ok u =>
      rw [hguard] at hjournal
      obtain rfl : s.journal = journal := Except.ok.inj hjournal
      rw [if_neg (fun hc => hc.2 hkey)] at h
      exact (Option.some.inj h).symm

theorem emit_of_guard {e : JournalEvent} (hguard : s.journal.guardEvent e = .ok ()) (hkey : e.key ∉ s.journal.keys) :
    s.emit trigger batch e = some ⟨s.journal.apply e,
      s.voidEvents ++ if e.write = .voided then [⟨e.entityId, trigger, batch⟩] else []⟩ := by
  have hemit : s.journal.emit e = .ok (s.journal.apply e) := by
    rw [Journal.emit, hguard, if_neg hkey]
    rfl
  rw [DocBooks.emit, hemit]
  by_cases hvoid : e.write = .voided
  · simp [hvoid, hkey]
  · simp [hvoid]

/-- A void of an entry that is not a manual one. -/
theorem emit_voided (hnodup : s.ids.Nodup) (hr : r ∈ s.journal.rows) (hid : r.entityId = entityId)
    (htype : r.jeType ≠ some "manual") (hkey : key ∉ s.journal.keys) :
    s.emit trigger batch ⟨entityId, key, false, .voided⟩ =
      some ⟨⟨withStatus s.journal.rows entityId .void, s.journal.keys ++ [key]⟩,
        s.voidEvents ++ [⟨entityId, trigger, batch⟩]⟩ := by
  subst hid
  have hget := get?_journal_of_mem hnodup hr
  have hguard : s.journal.guardEvent ⟨r.entityId, key, false, .voided⟩ = .ok () := by
    rw [Journal.guardEvent, Journal.requireVoidOnce, hget]
    exact if_pos htype
  rw [emit_of_guard hguard hkey]
  have hrows := apply_status (e := ⟨r.entityId, key, false, .voided⟩) hnodup hget rfl
  simp only [Journal.apply] at hrows ⊢
  rw [hrows, if_pos trivial]

/-- A new entry that reverses none. -/
theorem emit_created {data : JournalData} (hnew : entityId ∉ s.ids) (hreverses : data.reverses = none)
    (hkey : key ∉ s.journal.keys) :
    s.emit trigger batch ⟨entityId, key, false, .created data⟩ =
      some ⟨⟨s.journal.rows ++ [applyWrite entityId none (.created data)], s.journal.keys ++ [key]⟩, s.voidEvents⟩ := by
  have hget : s.journal.get? entityId = none := by
    rw [Journal.get?, List.find?_eq_none]
    intro r hr
    rw [decide_eq_true_eq]
    rintro rfl
    exact hnew (List.mem_map_of_mem hr)
  have hguard : s.journal.guardEvent ⟨entityId, key, false, .created data⟩ = .ok () := by
    simp [Journal.guardEvent, hreverses]
  rw [emit_of_guard hguard hkey]
  simp [Journal.apply, hget]

/-- Posting an entry that is posted. -/
theorem emit_posted (hnodup : s.ids.Nodup) (hr : r ∈ s.journal.rows) (hid : r.entityId = entityId)
    (hposted : r.status = .posted) (hkey : key ∉ s.journal.keys) :
    s.emit trigger batch ⟨entityId, key, false, .posted⟩ =
      some ⟨⟨s.journal.rows, s.journal.keys ++ [key]⟩, s.voidEvents⟩ := by
  subst hid
  have hget := get?_journal_of_mem hnodup hr
  have hguard : s.journal.guardEvent ⟨r.entityId, key, false, .posted⟩ = .ok () := rfl
  rw [emit_of_guard hguard hkey]
  have hrows := apply_status (e := ⟨r.entityId, key, false, .posted⟩) hnodup hget rfl
  have hsame : withStatus s.journal.rows r.entityId .posted = s.journal.rows := by
    rw [withStatus]
    refine (List.map_congr_left fun p hp => ?_).trans (List.map_id' _)
    split_ifs with hpr
    · obtain rfl := List.inj_on_of_nodup_map hnodup hp hr hpr
      rw [← hposted]
    · rfl
  simp only [Journal.apply] at hrows ⊢
  rw [hrows, hsame, if_neg (by decide), List.append_nil]

end

/-! ## A void -/

/-- An entry after a void of the document. -/
def voidedRow (docId : String) (g : Bool) (r : JournalRow) : JournalRow :=
  if r.posted ∧ (rootOf docId g r.entityId).isSome then { r with status := .void } else r

/-- The void of an entry in a batch, as it is recorded. -/
def voidRecord (batch : ℕ) (e : JournalEvent) : VoidEvent := ⟨e.entityId, .docVoided, batch⟩

/-- The books after a void of the document. -/
def voidedBooks (docId : String) (g : Bool) (s : DocBooks) : DocBooks where
  journal := ⟨s.journal.rows.map (voidedRow docId g), s.journal.keys ++ (voidWrites docId g s).map (·.key)⟩
  voidEvents := s.voidEvents ++ (voidWrites docId g s).map (voidRecord (1 + lastVoidBatch docId s))

section
variable {docId c : String} {g : Bool} {s : DocBooks} {r : JournalRow} {batch : ℕ}

section
variable (docId g r)

@[simp] theorem voidedRow_entityId : (voidedRow docId g r).entityId = r.entityId := by
  rw [voidedRow]
  split_ifs <;> rfl

@[simp] theorem voidedRow_lines : (voidedRow docId g r).lines = r.lines := by
  rw [voidedRow]
  split_ifs <;> rfl

@[simp] theorem voidedRow_jeType : (voidedRow docId g r).jeType = r.jeType := by
  rw [voidedRow]
  split_ifs <;> rfl

theorem voidedRow_posted : (voidedRow docId g r).posted ↔ r.posted ∧ rootOf docId g r.entityId = none := by
  rw [voidedRow]
  split_ifs with h
  · rw [Option.isSome_iff_ne_none] at h
    simp [JournalRow.posted, h.2]
  · rw [not_and, Option.not_isSome_iff_eq_none] at h
    exact ⟨fun hposted => ⟨hposted, h hposted⟩, And.left⟩

end

/-- The suffixes of the entries a void voids. -/
def postedSuffixes (docId : String) (g : Bool) (s : DocBooks) : List String :=
  ((docRecognitionJes docId g s).filter (·.2.posted)).map Prod.fst

theorem voidWrites_eq : voidWrites docId g s =
    (postedSuffixes docId g s).map (voidWrite docId (1 + lastVoidBatch docId s)) := by
  rw [voidWrites, postedSuffixes, List.map_map]
  rfl

theorem mem_postedSuffixes {suffix : String} : suffix ∈ postedSuffixes docId g s ↔
    ∃ r ∈ s.journal.rows, r.entityId = jeId docId suffix ∧ r.posted ∧ ∃ root, recognitionRoot g suffix = some root := by
  rw [postedSuffixes, List.mem_map]
  constructor
  · rintro ⟨⟨suffix, r⟩, hje, rfl⟩
    obtain ⟨hje, hposted⟩ := List.mem_filter.1 hje
    obtain ⟨hr, hid, hroot⟩ := mem_docRecognitionJes.1 hje
    exact ⟨r, hr, hid, hposted, hroot⟩
  · rintro ⟨r, hr, hid, hposted, hroot⟩
    exact ⟨(suffix, r), List.mem_filter.2 ⟨mem_docRecognitionJes.2 ⟨hr, hid, hroot⟩, hposted⟩, rfl⟩

/-- The ids of a document's recognition entries are ids of the journal, in its order. -/
theorem ids_docRecognitionJes_sublist :
    ((docRecognitionJes docId g s).map fun je => jeId docId je.1).Sublist s.ids := by
  rw [docRecognitionJes, DocBooks.ids]
  induction s.journal.rows with
  | nil => exact List.Sublist.refl _
  | cons r rows ih =>
    rw [List.filterMap_cons]
    cases hr : docSuffix docId r.entityId with
    | none => exact ih.trans (List.sublist_cons_self _ _)
    | some suffix =>
      dsimp only
      split_ifs with hroot
      · rw [List.map_cons, List.map_cons, docSuffix_eq_some.1 hr]
        exact ih.cons_cons _
      · exact ih.trans (List.sublist_cons_self _ _)

theorem nodup_jes (h : s.ids.Nodup) : ((docRecognitionJes docId g s).map Prod.fst).Nodup := by
  have hids : ((docRecognitionJes docId g s).map fun je => jeId docId je.1).Nodup :=
    h.sublist ids_docRecognitionJes_sublist
  rw [← Function.comp_def, ← List.map_map] at hids
  exact hids.of_map _

theorem nodup_postedSuffixes (h : s.ids.Nodup) : (postedSuffixes docId g s).Nodup :=
  (nodup_jes h).sublist (List.filter_sublist.map _)

/-- The voids of entries that are not manual ones, under keys not used before. -/
theorem foldlM_emit_voids {suffixes : List String} (hids : s.ids.Nodup) (hsuffixes : suffixes.Nodup)
    (hrows : ∀ suffix ∈ suffixes, ∃ r ∈ s.journal.rows, r.entityId = jeId docId suffix ∧ r.jeType ≠ some "manual")
    (hkeys : ∀ suffix ∈ suffixes, voidKey docId batch suffix ∉ s.journal.keys) :
    (suffixes.map (voidWrite docId batch)).foldlM (fun t e => t.emit .docVoided batch e) s =
      some ⟨⟨s.journal.rows.map fun r => if r.entityId ∈ suffixes.map (jeId docId) then { r with status := .void } else r,
        s.journal.keys ++ (suffixes.map (voidWrite docId batch)).map (·.key)⟩,
        s.voidEvents ++ (suffixes.map (voidWrite docId batch)).map (voidRecord batch)⟩ := by
  induction suffixes generalizing s with
  | nil => simp
  | cons suffix suffixes ih =>
    rw [List.forall_mem_cons] at hrows hkeys
    rw [List.nodup_cons] at hsuffixes
    obtain ⟨⟨r, hr, hid, htype⟩, hrows⟩ := hrows
    have hemit : s.emit .docVoided batch (voidWrite docId batch suffix) =
        some ⟨⟨withStatus s.journal.rows (jeId docId suffix) .void, s.journal.keys ++ [voidKey docId batch suffix]⟩,
          s.voidEvents ++ [voidRecord batch (voidWrite docId batch suffix)]⟩ :=
      emit_voided hids hr hid htype hkeys.1
    rw [List.map_cons, List.foldlM_cons, hemit, Option.bind_eq_bind, Option.bind_some, ih ?_ hsuffixes.2 ?_ ?_]
    · simp only [Option.some.injEq, DocBooks.mk.injEq, Journal.mk.injEq]
      refine ⟨⟨?_, ?_⟩, ?_⟩
      · rw [withStatus, List.map_map]
        refine List.map_congr_left fun p _ => ?_
        simp only [Function.comp_apply, List.map_cons, List.mem_cons]
        by_cases hp : p.entityId = jeId docId suffix
        · simp [hp]
        · simp [hp]
      · rw [List.map_cons, List.append_assoc]
        rfl
      · rw [List.map_cons, List.append_assoc]
        rfl
    · rw [DocBooks.ids, withStatus_eq, map_entityId fun p => statusSet_entityId _ _ p]
      exact hids
    · intro suffix' hsuffix'
      obtain ⟨p, hp, hpid, hptype⟩ := hrows suffix' hsuffix'
      refine ⟨statusSet (jeId docId suffix) .void p, List.mem_map_of_mem hp, ?_, ?_⟩
      · rw [statusSet_entityId, hpid]
      · rw [statusSet]
        split_ifs <;> exact hptype
    · intro suffix' hsuffix' hmem
      rcases List.mem_append.1 hmem with hmem | hmem
      · exact hkeys.2 suffix' hsuffix' hmem
      · obtain ⟨-, rfl⟩ := voidKey_inj (List.mem_singleton.1 hmem)
        exact hsuffixes.1 hsuffix'

theorem SoundBooks.voidKey_not_mem (h : SoundBooks docId c s) (suffix : String) :
    voidKey docId (1 + lastVoidBatch docId s) suffix ∉ s.journal.keys := by
  intro hmem
  have hle := h.batches _ _ hmem
  omega

/-- **A void of the document voids each posted recognition entry.** -/
theorem voidForDocVoided_eq (h : SoundBooks docId c s) : voidForDocVoided docId g s = some (voidedBooks docId g s) := by
  rw [voidForDocVoided, voidWrites_eq, foldlM_emit_voids h.nodup (nodup_postedSuffixes h.nodup) ?_ ?_]
  · rw [voidedBooks, voidWrites_eq]
    congr 3
    refine List.map_congr_left fun r hr => ?_
    have hiff : r.entityId ∈ (postedSuffixes docId g s).map (jeId docId) ↔
        (r.posted ∧ (rootOf docId g r.entityId).isSome) := by
      rw [Option.isSome_iff_exists]
      constructor
      · intro hmem
        obtain ⟨suffix, hsuffix, hid⟩ := List.mem_map.1 hmem
        obtain ⟨p, hp, hpid, hposted, hroot⟩ := mem_postedSuffixes.1 hsuffix
        obtain rfl := List.inj_on_of_nodup_map h.nodup hp hr (hpid.trans hid)
        exact ⟨hposted, by rwa [hpid, rootOf_jeId]⟩
      · rintro ⟨hposted, root, hroot⟩
        obtain ⟨suffix, hid, hroot⟩ := rootOf_eq_some.1 hroot
        exact List.mem_map.2 ⟨suffix, mem_postedSuffixes.2 ⟨r, hr, hid, hposted, root, hroot⟩, hid.symm⟩
    rw [voidedRow]
    by_cases hvoid : r.posted ∧ (rootOf docId g r.entityId).isSome
    · rw [if_pos hvoid, if_pos (hiff.2 hvoid)]
    · rw [if_neg hvoid, if_neg (fun hc => hvoid (hiff.1 hc))]
  · intro suffix hsuffix
    obtain ⟨r, hr, hid, -, root, hroot⟩ := mem_postedSuffixes.1 hsuffix
    refine ⟨r, hr, hid, (h.postable r hr ?_).1⟩
    rw [hid, rootOf_jeId, recognitionRoot_true hroot]
    exact Option.some_ne_none root
  · exact fun suffix _ => h.voidKey_not_mem suffix

theorem lastVoidBatch_le_iff {n : ℕ} : lastVoidBatch docId s ≤ n ↔ ∀ e ∈ docVoidEvents docId s, e.2.batch ≤ n := by
  rw [lastVoidBatch]
  induction docVoidEvents docId s with
  | nil => simp
  | cons e events ih => rw [List.map_cons, List.foldr_cons, max_le_iff, ih, List.forall_mem_cons]

theorem le_lastVoidBatch {e : String × VoidEvent} (he : e ∈ docVoidEvents docId s) : e.2.batch ≤ lastVoidBatch docId s :=
  lastVoidBatch_le_iff.1 le_rfl e he

theorem docVoidEvents_voidedBooks : docVoidEvents docId (voidedBooks docId g s) = docVoidEvents docId s ++
    (postedSuffixes docId g s).map fun suffix =>
      (suffix, ⟨jeId docId suffix, .docVoided, 1 + lastVoidBatch docId s⟩) := by
  rw [docVoidEvents, voidedBooks, List.filterMap_append, voidWrites_eq, List.map_map, List.filterMap_map]
  congr 1
  rw [← List.filterMap_eq_map]
  refine List.filterMap_congr fun suffix _ => ?_
  simp [voidRecord, voidWrite]

theorem le_lastVoidBatch_voidedBooks : lastVoidBatch docId s ≤ lastVoidBatch docId (voidedBooks docId g s) := by
  rw [lastVoidBatch_le_iff]
  intro e he
  refine le_lastVoidBatch ?_
  rw [docVoidEvents_voidedBooks]
  exact List.mem_append_left _ he

/-- A void that voids an entry is the last batch. -/
theorem lastVoidBatch_voidedBooks (hposted : postedSuffixes docId g s ≠ []) :
    lastVoidBatch docId (voidedBooks docId g s) = 1 + lastVoidBatch docId s := by
  refine le_antisymm (lastVoidBatch_le_iff.2 fun e he => ?_) ?_
  · rw [docVoidEvents_voidedBooks] at he
    rcases List.mem_append.1 he with he | he
    · exact (le_lastVoidBatch he).trans (Nat.le_add_left _ _)
    · obtain ⟨suffix, -, rfl⟩ := List.mem_map.1 he
      exact le_rfl
  · obtain ⟨suffix, hsuffix⟩ := List.exists_mem_of_ne_nil _ hposted
    have hmem : (suffix, ⟨jeId docId suffix, .docVoided, 1 + lastVoidBatch docId s⟩) ∈
        docVoidEvents docId (voidedBooks docId g s) := by
      rw [docVoidEvents_voidedBooks]
      exact List.mem_append_right _ (List.mem_map_of_mem hsuffix)
    exact le_lastVoidBatch hmem

theorem ids_voidedBooks : (voidedBooks docId g s).ids = s.ids := map_entityId fun r => voidedRow_entityId docId g r

/-- The entries a void voids are of no one root. -/
theorem unrelated_postedSuffixes (h : SoundBooks docId c s) : (postedSuffixes docId g s).Pairwise Unrelated := by
  refine (nodup_postedSuffixes h.nodup).imp_of_mem fun {suffix suffix'} hs hs' hne root hroot hroot' => hne ?_
  obtain ⟨r, hr, hid, hposted, -⟩ := mem_postedSuffixes.1 hs
  obtain ⟨r', hr', hid', hposted', -⟩ := mem_postedSuffixes.1 hs'
  have heq := h.once r hr r' hr' hposted hposted' root (by rw [hid, rootOf_jeId, hroot])
    (by rw [hid', rootOf_jeId, hroot'])
  exact jeId_inj (by rw [← hid, ← hid', heq])

/-- **A void keeps the invariant.** -/
theorem SoundBooks.voided (h : SoundBooks docId c s) : SoundBooks docId c (voidedBooks docId g s) where
  nodup := by
    rw [ids_voidedBooks]
    exact h.nodup
  once := by
    intro r hr r' hr' hposted hposted' root hroot hroot'
    obtain ⟨p, hp, rfl⟩ := List.mem_map.1 hr
    obtain ⟨p', hp', rfl⟩ := List.mem_map.1 hr'
    rw [voidedRow_entityId] at hroot hroot'
    rw [h.once p hp p' hp' ((voidedRow_posted docId g p).1 hposted).1 ((voidedRow_posted docId g p').1 hposted').1 root
      hroot hroot']
  postable := by
    intro r hr hroot
    obtain ⟨p, hp, rfl⟩ := List.mem_map.1 hr
    rw [voidedRow_entityId] at hroot
    rw [Postable, voidedRow_jeType, voidedRow_lines]
    exact h.postable p hp hroot
  numbered := by
    rw [ids_voidedBooks]
    exact h.numbered
  batches := by
    intro batch suffix hkey
    rcases List.mem_append.1 hkey with hkey | hkey
    · exact (h.batches batch suffix hkey).trans le_lastVoidBatch_voidedBooks
    · rw [voidWrites_eq, List.map_map] at hkey
      obtain ⟨suffix', hsuffix', heq⟩ := List.mem_map.1 hkey
      obtain ⟨rfl, -⟩ := voidKey_inj heq
      rw [lastVoidBatch_voidedBooks (List.ne_nil_of_mem hsuffix')]
  restored := by
    intro root n step hstep hkey
    rw [ids_voidedBooks]
    rcases List.mem_append.1 hkey with hkey | hkey
    · exact h.restored root n step hstep hkey
    · rw [voidWrites_eq, List.map_map] at hkey
      obtain ⟨suffix, -, heq⟩ := List.mem_map.1 hkey
      refine absurd heq (voidKey_ne_unvoidKey ?_)
      rcases List.mem_pair.1 hstep with rfl | rfl <;> decide
  voidedOnce := by
    rw [docVoidEvents_voidedBooks, List.pairwise_append]
    refine ⟨h.voidedOnce, ?_, ?_⟩
    · rw [List.pairwise_map]
      exact (unrelated_postedSuffixes h).imp fun hunrelated _ _ => hunrelated
    · intro e he e' he' hbatch
      obtain ⟨suffix, -, rfl⟩ := List.mem_map.1 he'
      have hle := le_lastVoidBatch he
      rw [hbatch] at hle
      dsimp only at hle
      omega

end

/-! ## An unvoid -/

/-- The id of a restore. -/
def restoreId (docId : String) (x : Restore) : String := jeId docId (restoreSuffix x.root x.generation)

/-- The keys of a restore. -/
def restoreKeys (docId : String) (x : Restore) : List String :=
  [unvoidKey docId x.root x.generation "c", unvoidKey docId x.root x.generation "p"]

/-- The entry a restore posts. -/
def restoredRow (docId : String) (postingDay : Option String → Option String) (x : Restore) : JournalRow where
  entityId := restoreId docId x
  jeType := none
  status := .posted
  reverses := none
  lines := x.source.lines.filter (·.moves)
  memo := some (restoreMemo docId x.source)
  ts := postingDay x.source.ts

/-- The books after an unvoid of the document. -/
def unvoidedBooks (docId : String) (postingDay : Option String → Option String) (g : Bool) (s : DocBooks) : DocBooks where
  journal := ⟨s.journal.rows ++ (restores docId g s).map (restoredRow docId postingDay),
    s.journal.keys ++ (restores docId g s).flatMap (restoreKeys docId)⟩
  voidEvents := s.voidEvents

/-! ### What it restores -/

section
variable {docId c root suffix : String} {g : Bool} {s : DocBooks} {x : Restore}

/-- The restores of a root among the document's entries. -/
theorem length_family (hroot : isRecognized g root = true) :
    (((docRecognitionJes docId g s).filter fun je => recognitionRoot g je.1 = some root).filter (·.1 ≠ root)).length =
      generations docId root s.ids := by
  rw [List.filter_filter, ← List.countP_eq_length_filter, docRecognitionJes, List.countP_filterMap, generations,
    ← List.countP_eq_length_filter, DocBooks.ids, List.countP_map]
  refine List.countP_congr fun r _ => ?_
  rw [Function.comp_apply, decide_eq_true_eq, ← rootOf_of_true hroot, rootOf]
  cases hsuffix : docSuffix docId r.entityId with
  | none => simp
  | some suffix =>
    have hid : r.entityId ≠ jeId docId root ↔ suffix ≠ root := by
      rw [docSuffix_eq_some.1 hsuffix]
      constructor
      · rintro hne rfl
        exact hne rfl
      · intro hne heq
        exact hne (jeId_inj heq)
    rw [Option.bind_some, hid]
    dsimp only
    split_ifs with hsome
    · simp [and_comm]
    · rw [Option.not_isSome_iff_eq_none] at hsome
      simp [hsome]

theorem find?_jes (h : s.ids.Nodup) {r : JournalRow} (hr : r ∈ s.journal.rows) (hid : r.entityId = jeId docId suffix)
    (hroot : recognitionRoot g suffix = some root) :
    (docRecognitionJes docId g s).find? (·.1 = suffix) = some (suffix, r) := by
  have hmem : (suffix, r) ∈ docRecognitionJes docId g s := mem_docRecognitionJes.2 ⟨hr, hid, root, hroot⟩
  cases hfind : (docRecognitionJes docId g s).find? (·.1 = suffix) with
  | none => exact absurd (List.find?_eq_none.1 hfind _ hmem) (by simp)
  | some je =>
    have hfst : je.1 = suffix := by simpa using List.find?_some hfind
    rw [List.inj_on_of_nodup_map (nodup_jes h) (List.mem_of_find?_eq_some hfind) hmem hfst]

theorem any_family_posted : (((docRecognitionJes docId g s).filter fun je => recognitionRoot g je.1 = some root).any
    (·.2.posted)) ↔ ∃ r ∈ s.journal.rows, rootOf docId g r.entityId = some root ∧ r.posted := by
  rw [List.any_eq_true]
  constructor
  · rintro ⟨je, hje, hposted⟩
    obtain ⟨hje, hroot⟩ := List.mem_filter.1 hje
    obtain ⟨hr, hid, -⟩ := mem_docRecognitionJes.1 hje
    refine ⟨je.2, hr, ?_, hposted⟩
    rw [hid, rootOf_jeId]
    simpa using hroot
  · rintro ⟨r, hr, hroot, hposted⟩
    obtain ⟨suffix, hid, hroot⟩ := rootOf_eq_some.1 hroot
    exact ⟨(suffix, r), List.mem_filter.2 ⟨mem_docRecognitionJes.2 ⟨hr, hid, root, hroot⟩, by simpa using hroot⟩,
      hposted⟩

/-- What is restored: an entry with lines, where nothing of its root is posted. -/
theorem restoreOf_eq_some (h : s.ids.Nodup) : restoreOf docId g s suffix = some x ↔
    recognitionRoot g suffix = some x.root ∧ x.source ∈ s.journal.rows ∧ x.source.entityId = jeId docId suffix ∧
      (∀ r ∈ s.journal.rows, rootOf docId g r.entityId = some x.root → ¬r.posted) ∧ x.source.lines ≠ [] ∧
      x.generation = 1 + generations docId x.root s.ids := by
  have hnone : ∀ {root}, (¬∃ r ∈ s.journal.rows, rootOf docId g r.entityId = some root ∧ r.posted) ↔
      ∀ r ∈ s.journal.rows, rootOf docId g r.entityId = some root → ¬r.posted := by
    intro root
    rw [not_exists]
    exact forall_congr' fun r => by rw [not_and, not_and]
  constructor
  · intro hx
    unfold restoreOf at hx
    dsimp only at hx
    split at hx
    · next root suffix' source hroot hfind =>
      have hmem := List.mem_of_find?_eq_some hfind
      obtain rfl : suffix' = suffix := by simpa using List.find?_some hfind
      obtain ⟨hr, hid, -⟩ := mem_docRecognitionJes.1 hmem
      rw [length_family (recognitionRoot_eq_some.1 hroot).1] at hx
      split_ifs at hx with hrefused
      cases hx
      rw [any_family_posted, not_or] at hrefused
      exact ⟨hroot, hr, hid, hnone.1 hrefused.1, hrefused.2, rfl⟩
    · cases hx
  · obtain ⟨root, n, source⟩ := x
    rintro ⟨hroot, hr, hid, hposted, hlines, hn⟩
    unfold restoreOf
    dsimp only at hroot hr hid hposted hlines hn ⊢
    rw [hroot, find?_jes h hr hid hroot, hn]
    dsimp only
    rw [if_neg (by rw [any_family_posted, not_or]; exact ⟨hnone.2 hposted, hlines⟩),
      length_family (recognitionRoot_eq_some.1 hroot).1]

/-! ### Restores of distinct roots -/

/-- Two suffixes of no one root a flag reads. -/
def UnrelatedAt (g : Bool) (suffix suffix' : String) : Prop :=
  ∀ root, recognitionRoot g suffix = some root → recognitionRoot g suffix' ≠ some root

theorem Unrelated.at {suffix' : String} (h : Unrelated suffix suffix') : UnrelatedAt g suffix suffix' :=
  fun root hroot hroot' => h root (recognitionRoot_true hroot) (recognitionRoot_true hroot')

/-- Entries by their root, one of each. -/
structure ByRoot (g : Bool) (l : List (String × String × VoidEvent)) : Prop where
  nodup : (l.map Prod.fst).Nodup
  root : ∀ e ∈ l, recognitionRoot g e.2.1 = some e.1

theorem keys_setLast {e : String × VoidEvent} (l : List (String × String × VoidEvent)) :
    (setLast root e l).map Prod.fst = if root ∈ l.map Prod.fst then l.map Prod.fst else l.map Prod.fst ++ [root] := by
  induction l with
  | nil => simp [setLast]
  | cons entry l ih =>
    obtain ⟨root', e'⟩ := entry
    simp only [setLast, List.map_cons, List.mem_cons]
    by_cases hroot : root' = root
    · simp [hroot]
    · have hroot' : root ≠ root' := fun heq => hroot heq.symm
      rw [if_neg hroot, List.map_cons, ih]
      by_cases hmem : root ∈ l.map Prod.fst
      · rw [if_pos hmem, if_pos (Or.inr hmem)]
      · rw [if_neg hmem, if_neg (not_or.2 ⟨hroot', hmem⟩), List.cons_append]

theorem mem_setLast {e : String × VoidEvent} {l : List (String × String × VoidEvent)} {entry : String × String × VoidEvent}
    (h : entry ∈ setLast root e l) : entry = (root, e) ∨ entry ∈ l := by
  induction l with
  | nil => exact Or.inl (List.mem_singleton.1 h)
  | cons first l ih =>
    obtain ⟨root', e'⟩ := first
    rw [setLast] at h
    split_ifs at h
    · rcases List.mem_cons.1 h with h | h
      · exact Or.inl h
      · exact Or.inr (List.mem_cons_of_mem _ h)
    · rcases List.mem_cons.1 h with h | h
      · exact Or.inr (h ▸ List.mem_cons_self)
      · exact (ih h).imp_right (List.mem_cons_of_mem _)

theorem ByRoot.setLast {e : String × VoidEvent} {l : List (String × String × VoidEvent)} (h : ByRoot g l)
    (hroot : recognitionRoot g e.1 = some root) : ByRoot g (setLast root e l) where
  nodup := by
    rw [keys_setLast]
    split_ifs with hmem
    · exact h.nodup
    · rw [← List.concat_eq_append]
      exact h.nodup.concat hmem
  root := by
    intro entry hentry
    rcases mem_setLast hentry with rfl | hentry
    · exact hroot
    · exact h.root entry hentry

theorem byRoot_lastVoidByRoot (events : List (String × VoidEvent)) : ByRoot g (lastVoidByRoot g events) := by
  rw [lastVoidByRoot]
  have hnil : ByRoot g [] := ⟨List.nodup_nil, nofun⟩
  generalize ([] : List (String × String × VoidEvent)) = last at hnil
  induction events generalizing last with
  | nil => exact hnil
  | cons e events ih =>
    rw [List.foldl_cons]
    refine ih _ ?_
    split
    · next root hroot => exact hnil.setLast hroot
    · exact hnil

/-- What an unvoid considers is of no one root. -/
theorem unrelated_toRestore (h : SoundBooks docId c s) : (toRestore docId g s).Pairwise (UnrelatedAt g) := by
  rw [toRestore]
  split_ifs
  · rw [List.pairwise_map, List.filter_filter]
    refine (h.voidedOnce.filter _).imp_of_mem fun {e e'} he he' hunrelated => ?_
    have hlast := (List.mem_filter.1 he).2
    have hlast' := (List.mem_filter.1 he').2
    simp only [ne_eq, decide_not, Bool.and_eq_true, decide_eq_true_eq, Bool.not_eq_eq_eq_not, Bool.not_true,
      decide_eq_false_iff_not] at hlast hlast'
    exact (hunrelated (hlast.1.trans hlast'.1.symm) hlast.2).at
  · have hby : ByRoot g (lastVoidByRoot g (docVoidEvents docId s)) := byRoot_lastVoidByRoot _
    have hpairs := List.pairwise_map.1 hby.nodup
    rw [List.pairwise_map]
    refine (hpairs.filter _).imp_of_mem fun {e e'} he he' hne root hroot hroot' => ?_
    rw [hby.root e (List.mem_filter.1 he).1] at hroot
    rw [hby.root e' (List.mem_filter.1 he').1] at hroot'
    exact hne (Option.some.inj (hroot.trans hroot'.symm))

theorem mem_restores (h : s.ids.Nodup) (hx : x ∈ restores docId g s) : ∃ suffix ∈ toRestore docId g s,
    recognitionRoot g suffix = some x.root ∧ x.source ∈ s.journal.rows ∧ x.source.entityId = jeId docId suffix ∧
      (∀ r ∈ s.journal.rows, rootOf docId g r.entityId = some x.root → ¬r.posted) ∧ x.source.lines ≠ [] ∧
      x.generation = 1 + generations docId x.root s.ids := by
  obtain ⟨suffix, hsuffix, hrestore⟩ := List.mem_filterMap.1 hx
  exact ⟨suffix, hsuffix, (restoreOf_eq_some h).1 hrestore⟩

theorem nodup_roots_restores (h : SoundBooks docId c s) : ((restores docId g s).map Restore.root).Nodup := by
  rw [restores, List.Nodup, List.pairwise_map, List.pairwise_filterMap]
  refine (unrelated_toRestore h).imp fun hunrelated x hx y hy heq => ?_
  have hroot := ((restoreOf_eq_some h.nodup).1 hx).1
  rw [heq] at hroot
  exact hunrelated _ hroot ((restoreOf_eq_some h.nodup).1 hy).1

end

end Celerp
