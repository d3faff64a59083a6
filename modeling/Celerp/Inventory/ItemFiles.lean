/-
  The files of an item under their events (`celerp_inventory/projections.py`).

  The `item.file` branches of `_apply_item_event` keep a list of files, of which one may be
  the hero, and beside it the id of the image shown for the item.

  * `Consistent`: the files have ids of their own, at most one is the hero, and the preview
    is its id;
  * `files_consistent_iff`: a run leaves every state consistent exactly where none of its
    events attaches the hero again without saying that it is the hero (`KeepsHero`).
-/
import Celerp.Lib.Runs
import Mathlib.Data.List.Nodup

namespace Celerp

open Runs

/-- A file of an item. -/
structure ItemFile where
  id : String
  filename : String := ""
  mime : String := ""
  size : ℕ := 0
  url : String := ""
  documentTag : Option String := none
  description : Option String := none
  uploadedAt : Option String := none
  isHero : Bool := false
  remote : Option String := none
  deriving DecidableEq, Repr

/-- A file as earlier releases kept it. -/
structure Attachment where
  id : String := ""
  type : String := "image"
  filename : String := ""
  mime : String := ""
  size : ℕ := 0
  url : String := ""
  label : String := ""
  deriving DecidableEq, Repr

/-- The files of an item, and the image shown for it. -/
structure FileState where
  files : List ItemFile := []
  attachments : List Attachment := []
  previewImageId : Option String := none
  deriving DecidableEq, Repr

/-- `_is_image_mime` -/
def isImageMime (mime : String) : Bool := "image/".toList.isPrefixOf mime.toList

/-- `_ATTACHMENT_TYPE_TO_TAG`, `product_images` where it has no other. -/
def attachmentTag (type : String) : String :=
  match type with
  | "certificate" => "certificates"
  | "view_360" => "view_360"
  | _ => "product_images"

namespace ItemFile

def withHero (f : ItemFile) (isHero : Bool) : ItemFile := { f with isHero := isHero }

def withTag (f : ItemFile) (fileId : String) (documentTag : Option String) : ItemFile :=
  if f.id = fileId then { f with documentTag := documentTag } else f

def withDescription (f : ItemFile) (fileId : String) (description : Option String) : ItemFile :=
  if f.id = fileId then { f with description := description } else f

/-- `f.update(entry)`: where the entry says nothing of a remote, the file keeps its own. -/
def update (f entry : ItemFile) : ItemFile := { entry with remote := entry.remote.or f.remote }

end ItemFile

/-- The files an attachment list becomes: of its images, the preview is the hero, or the
    first where there is none. -/
def migrateAttachments (preview : Option String) : Bool → List Attachment → List ItemFile
  | _, [] => []
  | firstImageDone, att :: rest =>
    let image := decide (attachmentTag att.type = "product_images") && isImageMime att.mime
    let isHero := image && (match preview with
      | some id => decide (att.id = id)
      | none => !firstImageDone)
    { id := att.id
      filename := att.filename
      mime := att.mime
      size := att.size
      url := att.url
      documentTag := some (attachmentTag att.type)
      description := if att.label = "" then none else some att.label
      isHero := isHero } :: migrateAttachments preview (firstImageDone || (preview.isNone && image)) rest

/-- The list with an entry put in place of the file of its id, or at the end. -/
def putFile (entry : ItemFile) : List ItemFile → List ItemFile
  | [] => [entry]
  | f :: rest => if f.id = entry.id then f.update entry :: rest else f :: putFile entry rest

/-- The list with its first image made the hero. -/
def promoteImage : List ItemFile → List ItemFile
  | [] => []
  | f :: rest => if isImageMime f.mime then f.withHero true :: rest else f :: promoteImage rest

namespace FileState
variable (s : FileState)

/-- `_maybe_migrate_attachments` -/
def maybeMigrateAttachments : FileState :=
  if s.attachments = [] ∨ s.files ≠ [] then s
  else { s with
    files := migrateAttachments (s.previewImageId.filter (· ≠ "")) false s.attachments
    attachments := [] }

/-- `item.file.attached` -/
def attach (entry : ItemFile) : FileState :=
  let s := s.maybeMigrateAttachments
  if entry.isHero then
    { s with files := putFile entry (s.files.map (·.withHero false)), previewImageId := some entry.id }
  else { s with files := putFile entry s.files }

/-- `item.file.deleted` -/
def delete (fileId : String) : FileState :=
  let kept := s.files.filter (·.id ≠ fileId)
  if s.files.any (fun f => f.isHero && f.id = fileId) then
    { s with files := promoteImage kept, previewImageId := (kept.find? (isImageMime ·.mime)).map (·.id) }
  else { s with files := kept }

/-- `item.file.hero_set` -/
def setHero (fileId : String) : FileState :=
  let files := s.files.map fun f => f.withHero (f.id = fileId)
  { s with files := files, previewImageId := (files.find? (·.isHero)).map (·.id) }

/-- `thumbnail_file_id` -/
def thumbnailFileId : Option String :=
  let images := (s.files.map fun f => (f.id, f.mime)) ++ s.attachments.map fun a => (a.id, a.mime)
  let images := (images.filter fun image => isImageMime image.2).map Prod.fst
  match s.previewImageId.filter (· ≠ "") with
  | some preview => if preview ∈ images then some preview else images.head?
  | none => images.head?

end FileState

/-- The events of an item's files. -/
inductive FileEvent where
  | attached (entry : ItemFile)
  | tagged (fileId : String) (documentTag : Option String)
  | descriptionUpdated (fileId : String) (description : Option String)
  | deleted (fileId : String)
  | heroSet (fileId : String)
  deriving DecidableEq, Repr

/-- The `item.file` branches of `_apply_item_event`. -/
def applyFileEvent (s : FileState) : FileEvent → FileState
  | .attached entry => s.attach entry
  | .tagged fileId documentTag => { s with files := s.files.map (·.withTag fileId documentTag) }
  | .descriptionUpdated fileId description => { s with files := s.files.map (·.withDescription fileId description) }
  | .deleted fileId => s.delete fileId
  | .heroSet fileId => s.setHero fileId

/-! ## Heroes -/

/-- The ids of a list's files. -/
def fileIds (files : List ItemFile) : List String := files.map (·.id)

/-- The ids of the heroes among them. -/
def heroIds (files : List ItemFile) : List String := (files.filter (·.isHero)).map (·.id)

section
variable {files rest : List ItemFile} {f entry : ItemFile} {fileId : String} {g : ItemFile → ItemFile}

theorem heroIds_cons : heroIds (f :: files) = (if f.isHero then [f.id] else []) ++ heroIds files := by
  unfold heroIds
  rw [List.filter_cons]
  split_ifs <;> rfl

theorem mem_heroIds : fileId ∈ heroIds files ↔ ∃ f ∈ files, f.isHero ∧ f.id = fileId := by
  simp [heroIds, and_assoc]

theorem heroIds_subset : heroIds files ⊆ fileIds files := by
  intro fileId h
  obtain ⟨f, hf, -, rfl⟩ := mem_heroIds.1 h
  exact List.mem_map_of_mem hf

/-- Files that keep their ids and their flags keep the heroes. -/
theorem heroIds_map (hid : ∀ f, (g f).id = f.id) (hhero : ∀ f, (g f).isHero = f.isHero) :
    heroIds (files.map g) = heroIds files := by
  induction files with
  | nil => rfl
  | cons f files ih => rw [List.map_cons, heroIds_cons, heroIds_cons, hid, hhero, ih]

theorem fileIds_map (hid : ∀ f, (g f).id = f.id) : fileIds (files.map g) = fileIds files := by
  rw [fileIds, List.map_map]
  exact List.map_congr_left fun f _ => hid f

theorem fileIds_map_withHero {p : ItemFile → Bool} :
    fileIds (files.map fun f => f.withHero (p f)) = fileIds files := fileIds_map fun _ => rfl

theorem heroIds_map_withHero {p : ItemFile → Bool} :
    heroIds (files.map fun f => f.withHero (p f)) = fileIds (files.filter p) := by
  induction files with
  | nil => rfl
  | cons f files ih =>
    rw [List.map_cons, heroIds_cons, ih, List.filter_cons]
    show (if p f = true then [f.id] else []) ++ _ = _
    split_ifs <;> rfl

theorem heroIds_filter : heroIds (files.filter (·.id ≠ fileId)) = (heroIds files).filter (· ≠ fileId) := by
  unfold heroIds
  rw [List.filter_filter, List.filter_map, List.filter_filter]
  refine congrArg _ (List.filter_congr fun f _ => ?_)
  exact Bool.and_comm _ _

theorem fileIds_filter : fileIds (files.filter (·.id ≠ fileId)) = (fileIds files).filter (· ≠ fileId) := by
  unfold fileIds
  rw [List.filter_map]
  rfl

/-! ### Putting a file in the list -/

theorem fileIds_putFile :
    fileIds (putFile entry files) =
      if entry.id ∈ fileIds files then fileIds files else fileIds files ++ [entry.id] := by
  induction files with
  | nil => rfl
  | cons f files ih =>
    rw [putFile]
    by_cases hid : f.id = entry.id
    · rw [if_pos hid, if_pos (by simp [fileIds, hid])]
      exact congrArg (· :: fileIds files) hid.symm
    · have hmem : entry.id ∈ fileIds (f :: files) ↔ entry.id ∈ fileIds files := by
        simp [fileIds, Ne.symm hid]
      rw [if_neg hid, fileIds, List.map_cons, ← fileIds, ih]
      simp only [hmem]
      split_ifs <;> rfl

theorem nodup_putFile (h : (fileIds files).Nodup) : (fileIds (putFile entry files)).Nodup := by
  rw [fileIds_putFile]
  split_ifs with hmem
  · exact h
  · refine List.nodup_append.2 ⟨h, List.nodup_cons.2 ⟨List.not_mem_nil, List.nodup_nil⟩, ?_⟩
    rintro fileId hfile fileId' hentry rfl
    exact hmem (List.mem_singleton.1 hentry ▸ hfile)

/-- A file put in the list takes the place of the hero of its id. -/
theorem heroIds_putFile (h : (fileIds files).Nodup) (hhero : entry.isHero = false) :
    heroIds (putFile entry files) = (heroIds files).filter (· ≠ entry.id) := by
  induction files with
  | nil =>
    rw [putFile, heroIds_cons, hhero]
    rfl
  | cons f files ih =>
    have hnodup : f.id ∉ fileIds files ∧ (fileIds files).Nodup := List.nodup_cons.1 h
    rw [putFile, heroIds_cons, List.filter_append]
    by_cases hid : f.id = entry.id
    · have hkept : (heroIds files).filter (· ≠ entry.id) = heroIds files := by
        rw [List.filter_eq_self]
        intro fileId hmem
        rw [decide_eq_true_eq]
        rintro rfl
        exact hnodup.1 (hid ▸ heroIds_subset hmem)
      have hflag : (f.update entry).isHero = false := hhero
      rw [if_pos hid, heroIds_cons, hflag, hkept]
      cases f.isHero <;> simp [hid]
    · rw [if_neg hid, heroIds_cons, ih hnodup.2]
      cases f.isHero <;> simp [hid]

/-- A hero put in a list without one is its hero. -/
theorem heroIds_putFile_of_hero (hnone : heroIds files = []) (hhero : entry.isHero = true) :
    heroIds (putFile entry files) = [entry.id] := by
  induction files with
  | nil =>
    rw [putFile, heroIds_cons, if_pos hhero]
    rfl
  | cons f files ih =>
    rw [heroIds_cons, List.append_eq_nil_iff] at hnone
    rw [putFile]
    split_ifs with hid
    · have hflag : (f.update entry).isHero = true := hhero
      rw [heroIds_cons, if_pos hflag, hnone.2]
      rfl
    · rw [heroIds_cons, hnone.1, ih hnone.2]
      rfl

/-! ### Promoting an image -/

theorem fileIds_promoteImage : fileIds (promoteImage files) = fileIds files := by
  induction files with
  | nil => rfl
  | cons f files ih =>
    rw [promoteImage]
    split_ifs
    · rfl
    · exact congrArg (f.id :: ·) ih

theorem heroIds_promoteImage (hnone : heroIds files = []) :
    heroIds (promoteImage files) = ((files.find? (isImageMime ·.mime)).map (·.id)).toList := by
  induction files with
  | nil => rfl
  | cons f files ih =>
    rw [heroIds_cons, List.append_eq_nil_iff] at hnone
    rw [promoteImage, List.find?_cons]
    cases himage : isImageMime f.mime with
    | true =>
      rw [if_pos rfl, heroIds_cons, hnone.2]
      rfl
    | false =>
      rw [if_neg Bool.false_ne_true, heroIds_cons, hnone.1, ih hnone.2]
      rfl

end

/-! ## Consistency -/

/-- An item's files have ids of their own, at most one is the hero, and the preview is its
    id. -/
structure Consistent (s : FileState) : Prop where
  ids : (fileIds s.files).Nodup
  one_hero : (heroIds s.files).length ≤ 1
  preview : s.previewImageId = (heroIds s.files).head?

/-- An event that does not attach the hero again as another file. -/
def KeepsHero (s : FileState) : FileEvent → Prop
  | .attached entry => entry.isHero = true ∨ entry.id ∉ heroIds s.files
  | _ => True

section
variable {s : FileState} {entry : ItemFile} {fileId : String} {e : FileEvent} {g : ItemFile → ItemFile}

theorem consistent_iff : Consistent s ↔ (fileIds s.files).Nodup ∧ heroIds s.files = s.previewImageId.toList := by
  constructor
  · rintro ⟨hids, hone, hpreview⟩
    refine ⟨hids, ?_⟩
    rw [hpreview]
    rcases hheroes : heroIds s.files with - | ⟨id, - | ⟨id', rest⟩⟩
    · rfl
    · rfl
    · rw [hheroes] at hone
      exact absurd hone (by simp)
  · rintro ⟨hids, hheroes⟩
    refine ⟨hids, ?_, ?_⟩ <;> rw [hheroes] <;> cases s.previewImageId <;> simp

theorem consistent_map (h : Consistent s) (hid : ∀ f, (g f).id = f.id) (hhero : ∀ f, (g f).isHero = f.isHero) :
    Consistent { s with files := s.files.map g } := by
  rw [consistent_iff] at h ⊢
  dsimp only
  rw [fileIds_map hid, heroIds_map hid hhero]
  exact h

/-- **Files stay consistent under an attach** that does not name the hero as another file. -/
theorem consistent_attach_iff (h : Consistent s) (hmigrated : s.attachments = []) :
    Consistent (s.attach entry) ↔ KeepsHero s (.attached entry) := by
  have hsame : s.maybeMigrateAttachments = s := by
    rw [FileState.maybeMigrateAttachments, if_pos (.inl hmigrated)]
  rw [FileState.attach, hsame, KeepsHero]
  obtain ⟨hids, hheroes⟩ := consistent_iff.1 h
  cases hhero : entry.isHero with
  | true =>
    refine iff_of_true (consistent_iff.2 ⟨?_, ?_⟩) (.inl rfl)
    · refine nodup_putFile ?_
      rw [fileIds_map_withHero]
      exact hids
    · refine heroIds_putFile_of_hero ?_ hhero
      rw [heroIds_map_withHero, List.filter_false]
      rfl
  | false =>
    rw [if_neg Bool.false_ne_true, consistent_iff]
    dsimp only
    rw [heroIds_putFile hids hhero, and_iff_right (nodup_putFile hids), ← hheroes, List.filter_eq_self]
    constructor
    · intro hkept
      exact .inr fun hmem => of_decide_eq_true (hkept _ hmem) rfl
    · rintro (htrue | hnot)
      · exact absurd htrue Bool.false_ne_true
      · intro fileId hmem
        rw [decide_eq_true_eq]
        rintro rfl
        exact hnot hmem

/-- A deletion passes a deleted hero on to the first image. -/
theorem consistent_delete (h : Consistent s) : Consistent (s.delete fileId) := by
  obtain ⟨hids, hheroes⟩ := consistent_iff.1 h
  have hkept : (fileIds (s.files.filter (·.id ≠ fileId))).Nodup := by
    rw [fileIds_filter]
    exact hids.filter _
  have hwas : (s.files.any fun f => f.isHero && f.id = fileId) = true ↔ fileId ∈ heroIds s.files := by
    simp [mem_heroIds]
  unfold FileState.delete
  dsimp only
  split_ifs with hhero
  · have hpreview : s.previewImageId = some fileId := by
      rw [hwas, hheroes, Option.mem_toList] at hhero
      exact hhero
    have hnone : heroIds (s.files.filter (·.id ≠ fileId)) = [] := by
      rw [heroIds_filter, hheroes, hpreview]
      simp
    refine consistent_iff.2 ⟨?_, heroIds_promoteImage hnone⟩
    rw [fileIds_promoteImage]
    exact hkept
  · refine consistent_iff.2 ⟨hkept, ?_⟩
    rw [hwas] at hhero
    rw [heroIds_filter, ← hheroes, List.filter_eq_self]
    intro id hmem
    rw [decide_eq_true_eq]
    rintro rfl
    exact hhero hmem

theorem consistent_setHero (h : Consistent s) : Consistent (s.setHero fileId) := by
  obtain ⟨hids, -⟩ := consistent_iff.1 h
  have hheroes : heroIds (s.files.map fun f => f.withHero (f.id = fileId)) =
      (fileIds s.files).filter (· = fileId) := by
    rw [heroIds_map_withHero, fileIds, fileIds, List.filter_map]
    rfl
  unfold FileState.setHero
  refine ⟨?_, ?_, ?_⟩
  · rw [fileIds_map_withHero]
    exact hids
  · rw [hheroes, ← List.countP_eq_length_filter]
    exact List.nodup_iff_count_le_one.1 hids fileId
  · rw [heroIds, List.head?_map, List.head?_filter]

theorem attachments_applyFileEvent (h : s.attachments = []) : (applyFileEvent s e).attachments = [] := by
  cases e with
  | attached entry =>
    have hsame : s.maybeMigrateAttachments = s := by
      rw [FileState.maybeMigrateAttachments, if_pos (.inl h)]
    rw [applyFileEvent, FileState.attach, hsame]
    split_ifs <;> exact h
  | deleted fileId =>
    rw [applyFileEvent, FileState.delete]
    split_ifs <;> exact h
  | _ => exact h

theorem consistent_step_iff (h : Consistent s) (hmigrated : s.attachments = []) :
    Consistent (applyFileEvent s e) ↔ KeepsHero s e := by
  cases e with
  | attached entry => exact consistent_attach_iff h hmigrated
  | tagged fileId documentTag =>
    refine iff_of_true (consistent_map h ?_ ?_) trivial <;> intro f <;> unfold ItemFile.withTag <;> split_ifs <;> rfl
  | descriptionUpdated fileId description =>
    refine iff_of_true (consistent_map h ?_ ?_) trivial <;> intro f <;> unfold ItemFile.withDescription <;>
      split_ifs <;> rfl
  | deleted fileId => exact iff_of_true (consistent_delete h) trivial
  | heroSet fileId => exact iff_of_true (consistent_setHero h) trivial

end

/-! ## What is shown -/

/-- The thumbnail shows the hero, where it is an image. -/
theorem thumbnailFileId_hero {s : FileState} {f : ItemFile} (h : Consistent s) (hf : f ∈ s.files)
    (hhero : f.isHero = true) (himage : isImageMime f.mime = true) (hid : f.id ≠ "") :
    s.thumbnailFileId = some f.id := by
  have hmem : f.id ∈ heroIds s.files := mem_heroIds.2 ⟨f, hf, hhero, rfl⟩
  have hpreview : s.previewImageId = some f.id := by
    rw [(consistent_iff.1 h).2] at hmem
    exact Option.mem_toList.1 hmem
  have hstated : s.previewImageId.filter (· ≠ "") = some f.id := by
    rw [hpreview]
    simp [Option.filter, hid]
  have hshown : f.id ∈ (((s.files.map fun f => (f.id, f.mime)) ++
      s.attachments.map fun a => (a.id, a.mime)).filter fun image => isImageMime image.2).map Prod.fst := by
    refine List.mem_map.2 ⟨(f.id, f.mime), List.mem_filter.2 ⟨?_, himage⟩, rfl⟩
    exact List.mem_append_left _ (List.mem_map.2 ⟨f, hf, rfl⟩)
  unfold FileState.thumbnailFileId
  dsimp only
  rw [hstated]
  exact if_pos hshown

/-! ## Runs -/

/-- **An item's files stay consistent** in every state of a run exactly where no event of it
    attaches the hero again as another file. -/
theorem files_consistent_iff (events : List FileEvent) :
    EveryAfter applyFileEvent Consistent {} events ↔ EveryStep applyFileEvent KeepsHero {} events := by
  refine everyAfter_iff (P := fun _ _ => True) (I := fun s => Consistent s ∧ s.attachments = []) ?_ ?_
    ⟨⟨List.nodup_nil, Nat.zero_le 1, rfl⟩, rfl⟩ (everyStep_of_forall fun _ _ => trivial)
  · exact fun s e hs _ => consistent_step_iff hs.1 hs.2
  · exact fun s e hs _ he => ⟨(consistent_step_iff hs.1 hs.2).2 he, attachments_applyFileEvent hs.2⟩

/-- A photo made the hero, and attached again as it first was. -/
def photoAttachedAgain : List FileEvent :=
  [.attached { id := "photo", filename := "front.jpg", mime := "image/jpeg" }, .heroSet "photo",
    .attached { id := "photo", filename := "front.jpg", mime := "image/jpeg" }]

/-- The item they leave. -/
def photoFiles : FileState := photoAttachedAgain.foldl applyFileEvent {}

/-- The photo is the hero no more, and still the preview. -/
theorem photo_still_previewed :
    heroIds photoFiles.files = [] ∧ photoFiles.previewImageId = some "photo" ∧
      ¬EveryAfter applyFileEvent Consistent {} photoAttachedAgain := by
  refine ⟨by decide +kernel, by decide +kernel, fun h => ?_⟩
  obtain ⟨-, -, hlast, -⟩ := h
  exact absurd hlast.preview (by decide +kernel)

end Celerp
