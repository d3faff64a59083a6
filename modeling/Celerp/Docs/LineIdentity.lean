/-
  The identity of a record's lines (`celerp/services/document_lines.py`).

  `normalizeLineIds` is `normalize_line_ids`: it refuses a malformed or repeated line id,
  carries the ids of stored lines onto lines sent without one, and mints an id for the rest.
  What `uuid.UUID` reads a text as is a parameter, none where it raises; so are the ids
  `new_line_id` mints, one for each line's place.

  * `Assigned` is what the loop over the lines without an id may do, and
    `assigned_assignIds`: it does so, and finds the stored line it looks for;
  * `lines_keep_identity`: what is stored has ids of its own (`IdentityKept`), and stored lines sent
    back without their ids get them back.
-/
import Mathlib.Data.List.Nodup
import Mathlib.Data.List.Forall2
import Celerp.Lib.Grouping

namespace Celerp

/-- The value under `line_id`. -/
inductive LineIdValue where
  | missing
  | text (id : String)
  /-- a number, a list or another value that is no text -/
  | other
  deriving DecidableEq, Repr

/-- A line of a record, with what tells it from another. -/
structure IdLine where
  lineId : LineIdValue := .missing
  itemId : Option String := none
  entityId : Option String := none
  description : Option String := none
  deriving DecidableEq, Repr

/-- What a line is about. -/
inductive LineKey where
  | item (id : String)
  | text (description : String)
  deriving DecidableEq, Repr

/-- The refusals of `normalize_line_ids`, and the `StopIteration` of its `next`. -/
inductive LineIdRefusal where
  | invalidLineId (line : ℕ)
  | duplicateLineId (line : ℕ)
  | stopIteration
  deriving DecidableEq, Repr

namespace IdLine
variable (line : IdLine)

/-- `line_item_id` -/
def lineItemId : Option String := (line.itemId.filter (· ≠ "")).or (line.entityId.filter (· ≠ ""))

/-- `_line_key` -/
def lineKey : LineKey :=
  match line.lineItemId with
  | some id => .item id
  | none => .text (line.description.getD "")

/-- A line that comes without an id. -/
def idless : Bool := line.lineId = .missing ∨ line.lineId = .text ""

def withId (lineId : LineIdValue) : IdLine := { line with lineId := lineId }

/-- A line sent back without its id. -/
def withoutId : IdLine := line.withId .missing

end IdLine

section
variable (uuid : String → Option ℕ) (fresh : ℕ → String)

/-- The UUID a line id is, where it is one (`is_line_id`). -/
def lineUuid : LineIdValue → Option ℕ
  | .text id => if id.length = 32 ∨ id.length = 36 then uuid id else none
  | _ => none

/-- `is_line_id` -/
def isLineId (value : LineIdValue) : Bool := (lineUuid uuid value).isSome

/-- The ids the lines come with, if they are well-formed and differ. -/
def checkLineIds : ℕ → List ℕ → List IdLine → Except LineIdRefusal (List ℕ)
  | _, seen, [] => .ok seen
  | n, seen, line :: rest =>
    if line.idless then checkLineIds (n + 1) seen rest
    else match lineUuid uuid line.lineId with
      | none => .error (.invalidLineId n)
      | some canon =>
        if canon ∈ seen then .error (.duplicateLineId n) else checkLineIds (n + 1) (canon :: seen) rest

/-- The stored lines whose ids are still to be carried, by place, and how many are about
    each thing. -/
structure FreeLines where
  free : List (ℕ × IdLine)
  storedKeys : LineKey → ℤ

/-- The pool without a line, about `key`. -/
def FreeLines.pop (pool : FreeLines) (e : ℕ × IdLine) (key : LineKey) : FreeLines where
  free := pool.free.filter (·.1 ≠ e.1)
  storedKeys := Function.update pool.storedKeys key (pool.storedKeys key - 1)

/-- `free`: the stored lines whose ids no line came with. -/
def freeStored (seen : List ℕ) (stored : List IdLine) : FreeLines :=
  let free := (stored.zipIdx.map Prod.swap).filter fun e => (lineUuid uuid e.2.lineId).any (· ∉ seen)
  { free := free, storedKeys := fun key => (free.countP (·.2.lineKey = key) : ℤ) }

/-- `pick`: the stored line a line without an id continues, the one at its place or the only
    one for its item. -/
def pickLine (incomingKeys : LineKey → ℕ) (i : ℕ) (pool : FreeLines) (line : IdLine) :
    Except LineIdRefusal (Option (ℕ × IdLine)) :=
  match pool.free.find? fun e => e.1 = i ∧ e.2.lineKey = line.lineKey with
  | some e => .ok (some e)
  | none =>
    if line.lineItemId.isSome ∧ incomingKeys line.lineKey = 1 ∧ pool.storedKeys line.lineKey = 1 then
      match pool.free.find? fun e => e.2.lineKey = line.lineKey with
      | some e => .ok (some e)
      | none => .error .stopIteration
    else .ok none

/-- The loop over the lines without an id. -/
def assignIds (incomingKeys : LineKey → ℕ) : ℕ → FreeLines → List IdLine → Except LineIdRefusal (List IdLine)
  | _, _, [] => .ok []
  | i, pool, line :: rest =>
    if !line.idless then (assignIds incomingKeys (i + 1) pool rest).map (line :: ·)
    else match pickLine incomingKeys i pool line with
      | .error e => .error e
      | .ok (some e) =>
        (assignIds incomingKeys (i + 1) (pool.pop e line.lineKey) rest).map (line.withId e.2.lineId :: ·)
      | .ok none => (assignIds incomingKeys (i + 1) pool rest).map (line.withId (.text (fresh i)) :: ·)

/-- `incoming_keys` -/
def incomingKeys (lines : List IdLine) (key : LineKey) : ℕ :=
  lines.countP fun line => line.idless ∧ line.lineKey = key

/-- `normalize_line_ids` -/
def normalizeLineIds (lines stored : List IdLine) : Except LineIdRefusal (List IdLine) :=
  match checkLineIds uuid 1 [] lines with
  | .error e => .error e
  | .ok seen => assignIds fresh (incomingKeys lines) 0 (freeStored uuid seen stored) lines

end

/-! ## The pool of stored lines -/

/-- The stored lines have places of their own, and are counted by what they are about. -/
structure FreeLines.Counted (pool : FreeLines) : Prop where
  places : (pool.free.map Prod.fst).Nodup
  keys : ∀ key, pool.storedKeys key = (pool.free.countP (·.2.lineKey = key) : ℤ)

section
variable {α : Type} {pool : FreeLines} {e : ℕ × IdLine} {key : LineKey} {free : List (ℕ × α)}

/-- Taking the entry of a place out of a list leaves the others. -/
theorem perm_pop {e : ℕ × α} (hplaces : (free.map Prod.fst).Nodup) (he : e ∈ free) :
    free.Perm (e :: free.filter (·.1 ≠ e.1)) := by
  induction free with
  | nil => exact absurd he List.not_mem_nil
  | cons e' free ih =>
    rw [List.map_cons, List.nodup_cons] at hplaces
    rw [List.filter_cons]
    rcases List.mem_cons.1 he with rfl | hmem
    · have hkept : free.filter (·.1 ≠ e.1) = free := by
        rw [List.filter_eq_self]
        intro x hx
        rw [decide_eq_true_eq]
        intro heq
        exact hplaces.1 (heq ▸ List.mem_map_of_mem hx)
      rw [if_neg (by simp), hkept]
    · have hne : e'.1 ≠ e.1 := fun heq => hplaces.1 (heq ▸ List.mem_map_of_mem hmem)
      rw [if_pos (by simpa using hne)]
      exact ((ih hplaces.2 hmem).cons e').trans (List.Perm.swap e e' _)

theorem FreeLines.Counted.pop (h : pool.Counted) (he : e ∈ pool.free) (hkey : e.2.lineKey = key) :
    (pool.pop e key).Counted := by
  have hperm := perm_pop h.places he
  refine ⟨h.places.sublist (List.filter_sublist.map Prod.fst), fun key' => ?_⟩
  have hcount := hperm.countP_eq fun e => e.2.lineKey = key'
  rw [List.countP_cons] at hcount
  have hkeys := h.keys key'
  rw [hcount] at hkeys
  unfold FreeLines.pop
  dsimp only
  by_cases hsame : key' = key
  · subst hsame
    rw [Function.update_self, hkeys]
    simp [hkey]
  · rw [Function.update_of_ne hsame, hkeys]
    simp [hkey, Ne.symm hsame]

/-- **What is looked for in the pool is there**: a line without an id continues a stored line
    about the same, or none. -/
theorem pickLine_cases {incomingKeys : LineKey → ℕ} {i : ℕ} {line : IdLine} (h : pool.Counted) :
    (∃ e ∈ pool.free, e.2.lineKey = line.lineKey ∧ pickLine incomingKeys i pool line = .ok (some e)) ∨
      pickLine incomingKeys i pool line = .ok none := by
  unfold pickLine
  cases hplace : pool.free.find? fun e => e.1 = i ∧ e.2.lineKey = line.lineKey with
  | some e =>
    have hfound := List.find?_some hplace
    simp only [decide_eq_true_eq] at hfound
    exact .inl ⟨e, List.mem_of_find?_eq_some hplace, hfound.2, rfl⟩
  | none =>
    dsimp only
    split_ifs with honly
    · have hcount : pool.free.countP (·.2.lineKey = line.lineKey) = 1 := by
        have hkeys := h.keys line.lineKey
        rw [honly.2.2] at hkeys
        omega
      obtain ⟨e, he, hkey⟩ := List.countP_pos_iff.1 (hcount ▸ Nat.one_pos)
      have hsome : (pool.free.find? fun e => e.2.lineKey = line.lineKey).isSome :=
        List.find?_isSome.2 ⟨e, he, hkey⟩
      obtain ⟨e', he'⟩ := Option.isSome_iff_exists.1 hsome
      have hkey' := List.find?_some he'
      rw [he']
      exact .inl ⟨e', List.mem_of_find?_eq_some he', of_decide_eq_true hkey', rfl⟩
    · exact .inr rfl

end

/-! ## What the loop does -/

/-- The ids lines are given from the place `i` on: their own, those of stored lines about the
    same, each once, or new ones. -/
inductive Assigned (fresh : ℕ → String) : ℕ → List (ℕ × IdLine) → List IdLine → List IdLine → Prop
  | nil {i free} : Assigned fresh i free [] []
  | came {i free line rest out} (hid : line.idless = false) (h : Assigned fresh (i + 1) free rest out) :
      Assigned fresh i free (line :: rest) (line :: out)
  | carried {i free line rest out e} (hid : line.idless = true) (he : e ∈ free)
      (hkey : e.2.lineKey = line.lineKey) (h : Assigned fresh (i + 1) (free.filter (·.1 ≠ e.1)) rest out) :
      Assigned fresh i free (line :: rest) (line.withId e.2.lineId :: out)
  | minted {i free line rest out} (hid : line.idless = true) (h : Assigned fresh (i + 1) free rest out) :
      Assigned fresh i free (line :: rest) (line.withId (.text (fresh i)) :: out)

/-- **The loop gives every line an id**, and never misses the stored line it looks for. -/
theorem assigned_assignIds {fresh : ℕ → String} {incomingKeys : LineKey → ℕ} {i : ℕ} {pool : FreeLines}
    {lines : List IdLine} (h : pool.Counted) :
    ∃ out, assignIds fresh incomingKeys i pool lines = .ok out ∧ Assigned fresh i pool.free lines out := by
  induction lines generalizing i pool with
  | nil => exact ⟨[], rfl, .nil⟩
  | cons line rest ih =>
    rw [assignIds]
    cases hid : line.idless with
    | false =>
      obtain ⟨out, hout, hassigned⟩ := ih (i := i + 1) h
      rw [hout]
      exact ⟨line :: out, rfl, .came hid hassigned⟩
    | true =>
      have hpicks : (∃ e ∈ pool.free, e.2.lineKey = line.lineKey ∧
          pickLine incomingKeys i pool line = .ok (some e)) ∨ pickLine incomingKeys i pool line = .ok none :=
        pickLine_cases h
      rcases hpicks with ⟨e, he, hkey, hpick⟩ | hpick
      · obtain ⟨out, hout, hassigned⟩ := ih (i := i + 1) (h.pop he hkey)
        rw [hpick]
        dsimp only
        rw [hout]
        exact ⟨_, rfl, .carried hid he hkey hassigned⟩
      · obtain ⟨out, hout, hassigned⟩ := ih (i := i + 1) h
        rw [hpick]
        dsimp only
        rw [hout]
        exact ⟨_, rfl, .minted hid hassigned⟩

/-! ## The ids that come in -/

section
variable {uuid : String → Option ℕ} {n : ℕ} {seen seen' : List ℕ} {lines : List IdLine}

/-- The UUIDs of the lines that come with an id. -/
def cameUuids (uuid : String → Option ℕ) (lines : List IdLine) : List (Option ℕ) :=
  (lines.filter (!·.idless)).map fun line => lineUuid uuid line.lineId

theorem checkLineIds_ok (h : checkLineIds uuid n seen lines = .ok seen') :
    (cameUuids uuid lines).Nodup ∧
      (∀ u ∈ cameUuids uuid lines, ∃ canon ∈ seen', canon ∉ seen ∧ u = some canon) ∧ seen ⊆ seen' := by
  induction lines generalizing n seen with
  | nil =>
    obtain rfl := Except.ok.inj h
    exact ⟨List.nodup_nil, fun u hu => absurd hu List.not_mem_nil, List.Subset.refl _⟩
  | cons line rest ih =>
    rw [checkLineIds] at h
    cases hid : line.idless with
    | true =>
      rw [if_pos hid] at h
      have hsame : cameUuids uuid (line :: rest) = cameUuids uuid rest := by
        rw [cameUuids, List.filter_cons, if_neg (by simp [hid]), cameUuids]
      rw [hsame]
      exact ih h
    | false =>
      rw [if_neg (by simp [hid])] at h
      have hcons : cameUuids uuid (line :: rest) = lineUuid uuid line.lineId :: cameUuids uuid rest := by
        rw [cameUuids, List.filter_cons, if_pos (by simp [hid]), cameUuids, List.map_cons]
      rw [hcons]
      cases huuid : lineUuid uuid line.lineId with
      | none => simp [huuid] at h
      | some canon =>
        simp only [huuid] at h
        by_cases hseen : canon ∈ seen
        · simp [hseen] at h
        · rw [if_neg hseen] at h
          obtain ⟨hnodup, hcame, hsub⟩ := ih h
          refine ⟨List.nodup_cons.2 ⟨fun hmem => ?_, hnodup⟩, ?_, fun x hx => hsub (List.mem_cons_of_mem _ hx)⟩
          · obtain ⟨canon', -, hnew, heq⟩ := hcame _ hmem
            exact hnew (Option.some.inj heq ▸ List.mem_cons_self)
          · rintro u hu
            rcases List.mem_cons.1 hu with rfl | hmem
            · exact ⟨canon, hsub List.mem_cons_self, hseen, rfl⟩
            · obtain ⟨canon', hmem', hnew, heq⟩ := hcame u hmem
              exact ⟨canon', hmem', fun hold => hnew (List.mem_cons_of_mem _ hold), heq⟩

/-- A refusal names a line whose id is malformed, or repeats another's. -/
theorem checkLineIds_error {e : LineIdRefusal} (h : checkLineIds uuid n seen lines = .error e) :
    (∃ k, e = .invalidLineId k) ∨ ∃ k, e = .duplicateLineId k := by
  induction lines generalizing n seen with
  | nil => exact absurd h (by simp [checkLineIds])
  | cons line rest ih =>
    rw [checkLineIds] at h
    cases hid : line.idless with
    | true =>
      rw [if_pos hid] at h
      exact ih h
    | false =>
      rw [if_neg (by simp [hid])] at h
      cases huuid : lineUuid uuid line.lineId with
      | none =>
        simp only [huuid] at h
        exact .inl ⟨n, (Except.error.inj h).symm⟩
      | some canon =>
        simp only [huuid] at h
        by_cases hseen : canon ∈ seen
        · rw [if_pos hseen] at h
          exact .inr ⟨n, (Except.error.inj h).symm⟩
        · rw [if_neg hseen] at h
          exact ih h

/-- Lines without an id come with none. -/
theorem checkLineIds_idless (h : ∀ line ∈ lines, line.idless = true) :
    checkLineIds uuid n seen lines = .ok seen := by
  induction lines generalizing n with
  | nil => rfl
  | cons line rest ih =>
    rw [List.forall_mem_cons] at h
    rw [checkLineIds, if_pos h.1]
    exact ih h.2

end

/-! ## The ids lines are given -/

/-- What becomes of a line: only its id may change, one it came with does not, and one it is
    given is that of a stored line about the same, or a new one. -/
structure Given (fresh : ℕ → String) (free : List (ℕ × IdLine)) (lo hi : ℕ) (line kept : IdLine) : Prop where
  same : kept.withId line.lineId = line
  came : line.idless = false → kept = line
  given : line.idless = true →
    (∃ e ∈ free, kept.lineId = e.2.lineId ∧ e.2.lineKey = line.lineKey) ∨
      ∃ j, lo ≤ j ∧ j < hi ∧ kept.lineId = .text (fresh j)

/-- Ids that differ: those the lines come with, those free to carry, and those to be minted. -/
structure Apart (uuid : String → Option ℕ) (fresh : ℕ → String) (lo hi : ℕ) (free : List (ℕ × IdLine))
    (lines : List IdLine) : Prop where
  came : (cameUuids uuid lines).Nodup
  carried : (free.map fun e => lineUuid uuid e.2.lineId).Nodup
  cameFree : ∀ u ∈ cameUuids uuid lines, ∀ e ∈ free, u ≠ lineUuid uuid e.2.lineId
  mintedCame : ∀ j, lo ≤ j → j < hi → lineUuid uuid (.text (fresh j)) ∉ cameUuids uuid lines
  mintedFree : ∀ j, lo ≤ j → j < hi → ∀ e ∈ free,
    lineUuid uuid (.text (fresh j)) ≠ lineUuid uuid e.2.lineId
  minted : ∀ j j', lo ≤ j → j < hi → lo ≤ j' → j' < hi →
    lineUuid uuid (.text (fresh j)) = lineUuid uuid (.text (fresh j')) → j = j'

section
variable {uuid : String → Option ℕ} {fresh : ℕ → String} {lo hi i : ℕ} {free free' : List (ℕ × IdLine)}
  {line kept : IdLine} {lines rest out : List IdLine} {e : ℕ × IdLine}

theorem Given.mono {lo' : ℕ} (h : Given fresh free' lo' hi line kept) (hsub : free' ⊆ free) (hle : lo ≤ lo') :
    Given fresh free lo hi line kept where
  same := h.same
  came := h.came
  given hid := by
    rcases h.given hid with ⟨e, he, heq⟩ | ⟨j, hlo, hhi, heq⟩
    · exact .inl ⟨e, hsub he, heq⟩
    · exact .inr ⟨j, Nat.le_trans hle hlo, hhi, heq⟩

/-- **Each line is given what it may be given.** -/
theorem Assigned.given (h : Assigned fresh i free lines out) (hhi : hi = i + lines.length) :
    List.Forall₂ (Given fresh free i hi) lines out := by
  induction h with
  | nil => exact .nil
  | came hid h ih =>
    refine .cons ⟨rfl, fun _ => rfl, fun hidless => absurd (hid.symm.trans hidless) Bool.false_ne_true⟩ ?_
    exact (ih (by rw [hhi, List.length_cons]; omega)).imp fun _ _ hg => hg.mono (List.Subset.refl _) (Nat.le_succ _)
  | carried hid he hkey h ih =>
    refine .cons ⟨rfl, fun hid' => absurd (hid'.symm.trans hid) Bool.false_ne_true, fun _ => ?_⟩ ?_
    · exact .inl ⟨_, he, rfl, hkey⟩
    · refine (ih (by rw [hhi, List.length_cons]; omega)).imp fun _ _ hg => ?_
      exact hg.mono (List.filter_subset_self _) (Nat.le_succ _)
  | minted hid h ih =>
    refine .cons ⟨rfl, fun hid' => absurd (hid'.symm.trans hid) Bool.false_ne_true, fun _ => ?_⟩ ?_
    · exact .inr ⟨_, Nat.le_refl _, by rw [hhi, List.length_cons]; omega, rfl⟩
    · exact (ih (by rw [hhi, List.length_cons]; omega)).imp fun _ _ hg => hg.mono (List.Subset.refl _) (Nat.le_succ _)

theorem mem_cameUuids {u : Option ℕ} :
    u ∈ cameUuids uuid lines ↔ ∃ line ∈ lines, line.idless = false ∧ lineUuid uuid line.lineId = u := by
  simp [cameUuids, and_assoc]

/-- The UUIDs of the lines' ids are those they came with, free ones and minted ones. -/
theorem Assigned.mem_uuids (h : Assigned fresh i free lines out) (hhi : hi = i + lines.length) {u : Option ℕ}
    (hu : u ∈ out.map fun l => lineUuid uuid l.lineId) :
    u ∈ cameUuids uuid lines ∨ (∃ e ∈ free, u = lineUuid uuid e.2.lineId) ∨
      ∃ j, i ≤ j ∧ j < hi ∧ u = lineUuid uuid (.text (fresh j)) := by
  obtain ⟨kept, hkept, rfl⟩ := List.mem_map.1 hu
  obtain ⟨line, hline, hgiven⟩ := Grouping.exists_of_mem_right (h.given hhi) hkept
  cases hid : line.idless with
  | false =>
    rw [hgiven.came hid]
    exact .inl (mem_cameUuids.2 ⟨line, hline, hid, rfl⟩)
  | true =>
    rcases hgiven.given hid with ⟨e, he, heq, -⟩ | ⟨j, hlo, hj, heq⟩
    · exact .inr (.inl ⟨e, he, by rw [heq]⟩)
    · exact .inr (.inr ⟨j, hlo, hj, by rw [heq]⟩)

theorem cameUuids_cons :
    cameUuids uuid (line :: rest) =
      (if line.idless then [] else [lineUuid uuid line.lineId]) ++ cameUuids uuid rest := by
  rw [cameUuids, List.filter_cons, cameUuids]
  cases line.idless <;> rfl

theorem Apart.tail (h : Apart uuid fresh i hi free (line :: rest)) : Apart uuid fresh (i + 1) hi free rest where
  came := by
    have hcame := h.came
    rw [cameUuids_cons] at hcame
    exact (List.nodup_append.1 hcame).2.1
  carried := h.carried
  cameFree u hu := h.cameFree u (by rw [cameUuids_cons]; exact List.mem_append_right _ hu)
  mintedCame j hlo hj hmem := h.mintedCame j (Nat.le_of_succ_le hlo) hj (by
    rw [cameUuids_cons]
    exact List.mem_append_right _ hmem)
  mintedFree j hlo := h.mintedFree j (Nat.le_of_succ_le hlo)
  minted j j' hlo hj hlo' := h.minted j j' (Nat.le_of_succ_le hlo) hj (Nat.le_of_succ_le hlo')

theorem Apart.sub (h : Apart uuid fresh lo hi free lines) (hsub : free'.Sublist free) :
    Apart uuid fresh lo hi free' lines where
  came := h.came
  carried := h.carried.sublist (hsub.map _)
  cameFree u hu e he := h.cameFree u hu e (hsub.subset he)
  mintedCame := h.mintedCame
  mintedFree j hlo hj e he := h.mintedFree j hlo hj e (hsub.subset he)
  minted := h.minted

/-- **The lines' ids differ.** -/
theorem Assigned.nodup (h : Assigned fresh i free lines out) (hhi : hi = i + lines.length)
    (hapart : Apart uuid fresh i hi free lines) : (out.map fun l => lineUuid uuid l.lineId).Nodup := by
  induction h with
  | nil => exact List.nodup_nil
  | @came i free line rest out hid h ih =>
    have hrest : hi = i + 1 + rest.length := by rw [hhi, List.length_cons]; omega
    have hcame : lineUuid uuid line.lineId ∈ cameUuids uuid (line :: rest) :=
      mem_cameUuids.2 ⟨line, List.mem_cons_self, hid, rfl⟩
    refine List.nodup_cons.2 ⟨fun hmem => ?_, ih hrest hapart.tail⟩
    rcases h.mem_uuids hrest hmem with hagain | ⟨e, he, heq⟩ | ⟨j, hlo, hj, heq⟩
    · have hnodup := hapart.came
      rw [cameUuids_cons, hid] at hnodup
      exact (List.nodup_cons.1 hnodup).1 hagain
    · exact hapart.cameFree _ hcame e he heq
    · exact hapart.mintedCame j (Nat.le_of_succ_le hlo) hj (heq ▸ hcame)
  | @carried i free line rest out e hid he hkey h ih =>
    have hrest : hi = i + 1 + rest.length := by rw [hhi, List.length_cons]; omega
    refine List.nodup_cons.2 ⟨fun hmem => ?_, ih hrest (hapart.tail.sub List.filter_sublist)⟩
    rcases h.mem_uuids hrest hmem with hcame | ⟨e', he', heq⟩ | ⟨j, hlo, hj, heq⟩
    · exact hapart.tail.cameFree _ hcame e he rfl
    · obtain ⟨hmem', hne⟩ := List.mem_filter.1 he'
      have hsame : e = e' := List.inj_on_of_nodup_map hapart.carried he hmem' heq
      rw [hsame] at hne
      simp at hne
    · exact hapart.mintedFree j (Nat.le_of_succ_le hlo) hj e he heq.symm
  | @minted i free line rest out hid h ih =>
    have hrest : hi = i + 1 + rest.length := by rw [hhi, List.length_cons]; omega
    have hi' : i < hi := by omega
    refine List.nodup_cons.2 ⟨fun hmem => ?_, ih hrest hapart.tail⟩
    rcases h.mem_uuids hrest hmem with hcame | ⟨e, he, heq⟩ | ⟨j, hlo, hj, heq⟩
    · exact hapart.mintedCame i (Nat.le_refl _) hi' (by
        rw [cameUuids_cons]
        exact List.mem_append_right _ hcame)
    · exact hapart.mintedFree i (Nat.le_refl _) hi' e he heq
    · have hsame := hapart.minted i j (Nat.le_refl _) hi' (Nat.le_of_succ_le hlo) hj heq
      omega

end

/-! ## Identity -/

/-- Two lines name the same item, or carry the same text. -/
def SameThing (line s : IdLine) : Prop :=
  (∃ id, line.lineItemId = some id ∧ s.lineItemId = some id) ∨
    (line.lineItemId = none ∧ s.lineItemId = none ∧ line.description.getD "" = s.description.getD "")

/-- Lines with valid ids that differ as UUIDs. -/
structure Identified (uuid : String → Option ℕ) (stored : List IdLine) : Prop where
  valid : ∀ s ∈ stored, isLineId uuid s.lineId
  differ : (stored.map fun s => lineUuid uuid s.lineId).Nodup

/-- The ids minted for a number of places are valid and differ, and no line has one. -/
structure Unused (uuid : String → Option ℕ) (fresh : ℕ → String) (hi : ℕ) (lines : List IdLine) : Prop where
  valid : ∀ j < hi, isLineId uuid (.text (fresh j))
  differ : ∀ j < hi, ∀ j' < hi, lineUuid uuid (.text (fresh j)) = lineUuid uuid (.text (fresh j')) → j = j'
  unused : ∀ j < hi, ∀ line ∈ lines, lineUuid uuid (.text (fresh j)) ≠ lineUuid uuid line.lineId

/-- What becomes of a line: it keeps an id it came with, and a stored line's id it is given is
    of a line about the same. -/
structure KeptLine (uuid : String → Option ℕ) (stored : List IdLine) (line kept : IdLine) : Prop where
  same : kept.withId line.lineId = line
  came : line.idless = false → kept.lineId = line.lineId
  carried : line.idless = true → ∀ s ∈ stored, lineUuid uuid kept.lineId = lineUuid uuid s.lineId →
    SameThing line s

/-- Lines keep their identity. -/
structure IdentityKept (uuid : String → Option ℕ) (stored lines out : List IdLine) : Prop where
  lines : List.Forall₂ (KeptLine uuid stored) lines out
  valid : ∀ l ∈ out, isLineId uuid l.lineId
  differ : (out.map fun l => lineUuid uuid l.lineId).Nodup
  once : ∀ s ∈ stored, (out.map fun l => lineUuid uuid l.lineId).count (lineUuid uuid s.lineId) ≤ 1

section
variable {uuid : String → Option ℕ} {fresh : ℕ → String} {seen : List ℕ} {lines stored out : List IdLine}
  {line s : IdLine} {e : ℕ × IdLine}

theorem sameThing_of_key (h : s.lineKey = line.lineKey) : SameThing line s := by
  unfold IdLine.lineKey at h
  cases hline : line.lineItemId with
  | some id =>
    rw [hline] at h
    cases hs : s.lineItemId with
    | some id' =>
      rw [hs] at h
      obtain rfl := LineKey.item.inj h
      exact .inl ⟨id', hline, hs⟩
    | none =>
      rw [hs] at h
      exact absurd h (by simp)
  | none =>
    rw [hline] at h
    cases hs : s.lineItemId with
    | some id =>
      rw [hs] at h
      exact absurd h (by simp)
    | none =>
      rw [hs] at h
      exact .inr ⟨hline, hs, (LineKey.text.inj h).symm⟩

theorem mem_freeStored :
    e ∈ (freeStored uuid seen stored).free ↔
      stored[e.1]? = some e.2 ∧ ∃ u, lineUuid uuid e.2.lineId = some u ∧ u ∉ seen := by
  obtain ⟨i, l⟩ := e
  simp only [freeStored, List.mem_filter, Option.any_eq_true, decide_eq_true_eq]
  refine and_congr_left fun _ => ?_
  rw [List.mem_map]
  constructor
  · rintro ⟨⟨l', i'⟩, hmem, heq⟩
    obtain ⟨rfl, rfl⟩ := Prod.mk.inj heq
    exact List.mem_zipIdx_iff_getElem?.1 hmem
  · intro h
    exact ⟨(l, i), List.mem_zipIdx_iff_getElem?.2 h, rfl⟩

theorem counted_freeStored : (freeStored uuid seen stored).Counted where
  places := by
    refine List.Nodup.sublist (List.filter_sublist.map Prod.fst) ?_
    rw [List.map_map]
    have hindex : (Prod.fst ∘ Prod.swap : IdLine × ℕ → ℕ) = Prod.snd := rfl
    rw [hindex, List.zipIdx_map_snd]
    exact List.nodup_range'
  keys _ := rfl

/-- The places apart, the free lines are some of the stored ones, in their order. -/
theorem freeStored_sublist : ((freeStored uuid seen stored).free.map Prod.snd).Sublist stored := by
  have hstored : (stored.zipIdx.map Prod.swap).map Prod.snd = stored := by
    rw [List.map_map]
    exact List.zipIdx_map_fst 0 stored
  have hsub := (List.filter_sublist (p := fun e : ℕ × IdLine => (lineUuid uuid e.2.lineId).any (· ∉ seen))
    (l := stored.zipIdx.map Prod.swap)).map Prod.snd
  rw [hstored] at hsub
  exact hsub

theorem apart_of_checked {hi : ℕ} (hstored : Identified uuid stored)
    (hunused : Unused uuid fresh hi (lines ++ stored)) (hcheck : checkLineIds uuid 1 [] lines = .ok seen) :
    Apart uuid fresh 0 hi (freeStored uuid seen stored).free lines := by
  obtain ⟨hnodup, hcame, -⟩ := checkLineIds_ok hcheck
  have hmem : ∀ e ∈ (freeStored uuid seen stored).free, e.2 ∈ stored := fun e he =>
    List.mem_of_getElem? (mem_freeStored.1 he).1
  refine ⟨hnodup, ?_, ?_, ?_, ?_, ?_⟩
  · have hsub : ((freeStored uuid seen stored).free.map Prod.snd).Sublist stored := freeStored_sublist
    have huuids := hsub.map fun s => lineUuid uuid s.lineId
    rw [List.map_map] at huuids
    exact hstored.differ.sublist huuids
  · rintro u hu e he rfl
    obtain ⟨canon, hseen, -, heq⟩ := hcame _ hu
    obtain ⟨-, canon', heq', hnot⟩ := mem_freeStored.1 he
    exact hnot (Option.some.inj (heq.symm.trans heq') ▸ hseen)
  · intro j _ hj hmem
    obtain ⟨line, hline, -, heq⟩ := mem_cameUuids.1 hmem
    exact hunused.unused j hj line (List.mem_append_left _ hline) heq.symm
  · exact fun j _ hj e he => hunused.unused j hj e.2 (List.mem_append_right _ (hmem e he))
  · exact fun j j' _ hj _ hj' heq => hunused.differ j hj j' hj' heq

theorem kept_of_assigned (hstored : Identified uuid stored)
    (hunused : Unused uuid fresh lines.length (lines ++ stored)) (hcheck : checkLineIds uuid 1 [] lines = .ok seen)
    (h : Assigned fresh 0 (freeStored uuid seen stored).free lines out) : IdentityKept uuid stored lines out := by
  have hapart := apart_of_checked hstored hunused hcheck
  have hhi : lines.length = 0 + lines.length := (Nat.zero_add _).symm
  have hnodup := h.nodup hhi hapart
  have hlines : List.Forall₂ (KeptLine uuid stored) lines out := by
    refine (h.given hhi).imp fun line kept hg => ⟨hg.same, fun hid => by rw [hg.came hid], ?_⟩
    intro hid s hs heq
    rcases hg.given hid with ⟨e, he, hsame, hkey⟩ | ⟨j, -, hj, hsame⟩
    · have hmem : e.2 ∈ stored := List.mem_of_getElem? (mem_freeStored.1 he).1
      rw [hsame] at heq
      obtain rfl : e.2 = s := List.inj_on_of_nodup_map hstored.differ hmem hs heq
      exact sameThing_of_key hkey
    · rw [hsame] at heq
      exact absurd heq (hunused.unused j hj s (List.mem_append_right _ hs))
  have hvalid : ∀ l ∈ out, isLineId uuid l.lineId := by
    intro l hl
    unfold isLineId
    rcases h.mem_uuids hhi (List.mem_map_of_mem hl) with hcame | ⟨e, he, heq⟩ | ⟨j, -, hj, heq⟩
    · obtain ⟨canon, -, -, heq⟩ := (checkLineIds_ok hcheck).2.1 _ hcame
      rw [heq]
      rfl
    · obtain ⟨-, canon, hcanon, -⟩ := mem_freeStored.1 he
      rw [heq, hcanon]
      rfl
    · rw [heq]
      exact hunused.valid j hj
  exact ⟨hlines, hvalid, hnodup, fun s _ => List.nodup_iff_count_le_one.1 hnodup _⟩

end

/-! ## Lines sent back -/

section
variable {uuid : String → Option ℕ} {fresh : ℕ → String} {keys : LineKey → ℕ} {pool : FreeLines}
  {pre suffix stored sent : List IdLine} {line : IdLine}

@[simp] theorem idless_withoutId : line.withoutId.idless = true := rfl

@[simp] theorem lineKey_withoutId : line.withoutId.lineKey = line.lineKey := rfl

@[simp] theorem lineItemId_withoutId : line.withoutId.lineItemId = line.lineItemId := rfl

/-- From the place they were stored at on, lines sent back in order find their own. -/
theorem assignIds_inOrder (hstored : stored = pre ++ suffix)
    (hfree : ∀ e ∈ pool.free, stored[e.1]? = some e.2)
    (hleft : ∀ j l, pre.length ≤ j → stored[j]? = some l → (j, l) ∈ pool.free) :
    assignIds fresh keys pre.length pool (suffix.map IdLine.withoutId) = .ok suffix := by
  induction suffix generalizing pre pool with
  | nil => rfl
  | cons line suffix ih =>
    have hplace : stored[pre.length]? = some line := by
      rw [hstored, List.getElem?_append_right (Nat.le_refl _), Nat.sub_self]
      rfl
    have hmem := hleft pre.length line (Nat.le_refl _) hplace
    have hpick : pickLine keys pre.length pool line.withoutId = .ok (some (pre.length, line)) := by
      have hsome : (pool.free.find? fun e => e.1 = pre.length ∧ e.2.lineKey = line.withoutId.lineKey).isSome :=
        List.find?_isSome.2 ⟨_, hmem, by simp⟩
      obtain ⟨e, he⟩ := Option.isSome_iff_exists.1 hsome
      have hfound := List.find?_some he
      simp only [decide_eq_true_eq] at hfound
      have hsame : e = (pre.length, line) := by
        have hline := hfree e (List.mem_of_find?_eq_some he)
        rw [hfound.1, hplace] at hline
        exact Prod.ext hfound.1 (Option.some.inj hline).symm
      rw [pickLine, he, hsame]
    have hrest : assignIds fresh keys (pre ++ [line]).length (pool.pop (pre.length, line) line.withoutId.lineKey)
        (suffix.map IdLine.withoutId) = .ok suffix := by
      refine ih (by rw [hstored, List.append_assoc]; rfl) ?_ ?_
      · exact fun e he => hfree e (List.mem_of_mem_filter he)
      · intro j l hj hl
        rw [List.length_append, List.length_singleton] at hj
        exact List.mem_filter.2 ⟨hleft j l (Nat.le_of_succ_le hj) hl, by simpa using (Nat.ne_of_gt hj)⟩
    rw [List.length_append, List.length_singleton] at hrest
    rw [List.map_cons, assignIds, idless_withoutId, if_neg (by simp), hpick]
    dsimp only
    rw [hrest]
    rfl

/-- Lines of items of their own find their own wherever they come. -/
theorem assignIds_anyOrder {i : ℕ} (hpool : pool.Counted) (hfree : ∀ e ∈ pool.free, e.2 ∈ stored)
    (hkeys : (stored.map (·.lineKey)).Nodup) (hnodup : (pool.free.map (·.2.lineKey)).Nodup)
    (hsent : (sent.map (·.lineKey)).Nodup) (hleft : ∀ l ∈ sent, ∃ j, (j, l) ∈ pool.free)
    (hitem : ∀ l ∈ sent, l.lineItemId.isSome) (hkey : ∀ l ∈ sent, keys l.lineKey = 1) :
    assignIds fresh keys i pool (sent.map IdLine.withoutId) = .ok sent := by
  induction sent generalizing i pool with
  | nil => rfl
  | cons line sent ih =>
    rw [List.forall_mem_cons] at hleft hitem hkey
    rw [List.map_cons, List.nodup_cons] at hsent
    obtain ⟨⟨j, hj⟩, hleft⟩ := hleft
    have honly : pool.storedKeys line.lineKey = 1 := by
      have hmem : line.lineKey ∈ pool.free.map (·.2.lineKey) := List.mem_map.2 ⟨_, hj, rfl⟩
      have hcount := List.count_eq_one_of_mem hnodup hmem
      rw [List.count, List.countP_map] at hcount
      rw [hpool.keys]
      exact_mod_cast hcount
    have hsame : ∀ e ∈ pool.free, e.2.lineKey = line.lineKey → e.2 = line := fun e he heq =>
      List.inj_on_of_nodup_map hkeys (hfree e he) (hfree _ hj) heq
    obtain ⟨e, he, hline, hpick⟩ : ∃ e ∈ pool.free, e.2 = line ∧
        pickLine keys i pool line.withoutId = .ok (some e) := by
      unfold pickLine
      rw [lineKey_withoutId, lineItemId_withoutId]
      cases hplace : pool.free.find? fun e => e.1 = i ∧ e.2.lineKey = line.lineKey with
      | some e =>
        have hfound := List.find?_some hplace
        simp only [decide_eq_true_eq] at hfound
        have he := List.mem_of_find?_eq_some hplace
        exact ⟨e, he, hsame e he hfound.2, rfl⟩
      | none =>
        have hsome : (pool.free.find? fun e => e.2.lineKey = line.lineKey).isSome :=
          List.find?_isSome.2 ⟨_, hj, by simp⟩
        obtain ⟨e, hfind⟩ := Option.isSome_iff_exists.1 hsome
        have he := List.mem_of_find?_eq_some hfind
        have hfound := List.find?_some hfind
        refine ⟨e, he, hsame e he (of_decide_eq_true hfound), ?_⟩
        dsimp only
        rw [if_pos ⟨hitem.1, hkey.1, honly⟩, hfind]
    have hrest : assignIds fresh keys (i + 1) (pool.pop e line.withoutId.lineKey) (sent.map IdLine.withoutId) =
        .ok sent := by
      refine ih (hpool.pop he (by rw [hline]; rfl)) ?_ ?_ hsent.2 ?_ hitem.2 hkey.2
      · exact fun e' he' => hfree e' (List.mem_of_mem_filter he')
      · exact hnodup.sublist (List.filter_sublist.map _)
      · intro l hl
        obtain ⟨j', hj'⟩ := hleft l hl
        refine ⟨j', List.mem_filter.2 ⟨hj', ?_⟩⟩
        rw [decide_eq_true_eq]
        intro hsame
        have heq : (j', l) = e := List.inj_on_of_nodup_map hpool.places hj' he hsame
        have hl' : l = line := (congrArg Prod.snd heq).trans hline
        exact hsent.1 (hl' ▸ List.mem_map_of_mem hl)
    rw [List.map_cons, assignIds, idless_withoutId, if_neg (by simp), hpick]
    dsimp only
    rw [hrest, hline]
    rfl

end

/-! ## Identity kept -/

section
variable {uuid : String → Option ℕ} {fresh : ℕ → String} {lines stored sent : List IdLine}

/-- **A record's lines are refused, or keep their identity.** -/
theorem normalizeLineIds_kept (hstored : Identified uuid stored)
    (hunused : Unused uuid fresh lines.length (lines ++ stored)) :
    (∃ k, normalizeLineIds uuid fresh lines stored = .error (.invalidLineId k)) ∨
      (∃ k, normalizeLineIds uuid fresh lines stored = .error (.duplicateLineId k)) ∨
      ∃ out, normalizeLineIds uuid fresh lines stored = .ok out ∧ IdentityKept uuid stored lines out := by
  unfold normalizeLineIds
  cases hcheck : checkLineIds uuid 1 [] lines with
  | error e =>
    rcases checkLineIds_error hcheck with ⟨k, rfl⟩ | ⟨k, rfl⟩
    · exact .inl ⟨k, rfl⟩
    · exact .inr (.inl ⟨k, rfl⟩)
  | ok seen =>
    obtain ⟨out, hout, hassigned⟩ := assigned_assignIds counted_freeStored
    exact .inr (.inr ⟨out, hout, kept_of_assigned hstored hunused hcheck hassigned⟩)

theorem checkLineIds_withoutId : checkLineIds uuid 1 [] (sent.map IdLine.withoutId) = .ok [] := by
  refine checkLineIds_idless fun line hline => ?_
  obtain ⟨l, -, rfl⟩ := List.mem_map.1 hline
  rfl

/-- Where no line comes with an id, every stored line is free. -/
theorem mem_freeStored_nil (hstored : Identified uuid stored) {e : ℕ × IdLine} :
    e ∈ (freeStored uuid [] stored).free ↔ stored[e.1]? = some e.2 := by
  rw [mem_freeStored, and_iff_left_iff_imp]
  intro hplace
  obtain ⟨u, hu⟩ := Option.isSome_iff_exists.1 (hstored.valid e.2 (List.mem_of_getElem? hplace))
  exact ⟨u, hu, List.not_mem_nil⟩

/-- **Stored lines sent back in order get their ids back.** -/
theorem normalizeLineIds_inOrder (hstored : Identified uuid stored) :
    normalizeLineIds uuid fresh (stored.map IdLine.withoutId) stored = .ok stored := by
  rw [normalizeLineIds, checkLineIds_withoutId]
  have hfrom : stored = [] ++ stored := rfl
  refine assignIds_inOrder hfrom ?_ ?_
  · exact fun e he => (mem_freeStored_nil hstored).1 he
  · exact fun j l _ hl => (mem_freeStored_nil hstored).2 hl

/-- **Stored lines of items of their own sent back in any order get their ids back.** -/
theorem normalizeLineIds_anyOrder (hstored : Identified uuid stored) (hitem : ∀ s ∈ stored, s.lineItemId.isSome)
    (hdistinct : (stored.map (·.lineItemId)).Nodup) (hperm : sent.Perm stored) :
    normalizeLineIds uuid fresh (sent.map IdLine.withoutId) stored = .ok sent := by
  have hkeys : (stored.map (·.lineKey)).Nodup := by
    rw [List.Nodup, List.pairwise_map] at hdistinct ⊢
    refine hdistinct.imp fun {a b} hne heq => hne ?_
    rcases sameThing_of_key heq with ⟨id, hb, ha⟩ | ⟨hb, ha, -⟩
    · rw [ha, hb]
    · rw [ha, hb]
  have hsent : (sent.map (·.lineKey)).Nodup := (hperm.map _).nodup_iff.2 hkeys
  rw [normalizeLineIds, checkLineIds_withoutId]
  refine assignIds_anyOrder counted_freeStored ?_ hkeys ?_ hsent ?_ ?_ ?_
  · exact fun e he => List.mem_of_getElem? ((mem_freeStored_nil hstored).1 he)
  · have hsub : ((freeStored uuid [] stored).free.map Prod.snd).Sublist stored := freeStored_sublist
    have hsubKeys := hsub.map (·.lineKey)
    rw [List.map_map] at hsubKeys
    exact hkeys.sublist hsubKeys
  · intro l hl
    obtain ⟨j, hj⟩ := List.mem_iff_getElem?.1 (hperm.mem_iff.1 hl)
    exact ⟨j, (mem_freeStored_nil hstored).2 hj⟩
  · exact fun l hl => hitem l (hperm.mem_iff.1 hl)
  · intro l hl
    have hcount := List.count_eq_one_of_mem hsent (List.mem_map_of_mem hl)
    rw [List.count, List.countP_map] at hcount
    rw [incomingKeys, List.countP_map, ← hcount]
    refine List.countP_congr fun l' _ => ?_
    simp only [Function.comp_apply, idless_withoutId, lineKey_withoutId, true_and, decide_eq_true_eq, beq_iff_eq]

/-- **Lines keep their identity**: they are refused or keep it, and stored lines sent back
    without their ids get them back, in order, or in any order where each is of an item of
    its own. -/
theorem lines_keep_identity (uuid : String → Option ℕ) (fresh : ℕ → String) (lines stored : List IdLine)
    (hstored : Identified uuid stored) (hunused : Unused uuid fresh lines.length (lines ++ stored)) :
    ((∃ k, normalizeLineIds uuid fresh lines stored = .error (.invalidLineId k)) ∨
      (∃ k, normalizeLineIds uuid fresh lines stored = .error (.duplicateLineId k)) ∨
      ∃ out, normalizeLineIds uuid fresh lines stored = .ok out ∧ IdentityKept uuid stored lines out) ∧
    normalizeLineIds uuid fresh (stored.map IdLine.withoutId) stored = .ok stored ∧
    ((∀ s ∈ stored, s.lineItemId.isSome) → (stored.map (·.lineItemId)).Nodup → ∀ sent : List IdLine,
      sent.Perm stored → normalizeLineIds uuid fresh (sent.map IdLine.withoutId) stored = .ok sent) :=
  ⟨normalizeLineIds_kept hstored hunused, normalizeLineIds_inOrder hstored,
    fun hitem hdistinct _ hperm => normalizeLineIds_anyOrder hstored hitem hdistinct hperm⟩

end

def hexDigit (c : Char) : Option ℕ :=
  if '0' ≤ c ∧ c ≤ '9' then some (c.toNat - 48)
  else if 'a' ≤ c ∧ c ≤ 'f' then some (c.toNat - 87)
  else if 'A' ≤ c ∧ c ≤ 'F' then some (c.toNat - 55)
  else none

/-- `uuid.UUID` of hexadecimal digits with hyphens between them. -/
def hexUuid (text : String) : Option ℕ :=
  let digits := text.toList.filter (· ≠ '-')
  if digits.length = 32 then digits.foldlM (fun n c => (hexDigit c).map (16 * n + ·)) 0 else none

/-- Two linked lines, as stored. -/
def linkedLines : List IdLine :=
  [{ lineId := .text "6f1c2b9e-1d1a-4c55-9e57-0f3b1a2c4d5e", itemId := some "item:a" },
    { lineId := .text "0b8f6a3d-52c7-4f0e-8a49-7d1e5c3b2a90", itemId := some "item:b" }]

def mintedIds (place : ℕ) : String :=
  if place = 0 then "c4a1d2e3-9b08-4c7d-a6f5-112233445566" else "d5b2e3f4-0c19-4d8e-b706-223344556677"

/-- Swapped by a client that sends no ids, they keep their own. -/
theorem linkedLines_swapped :
    normalizeLineIds hexUuid mintedIds (linkedLines.reverse.map IdLine.withoutId) linkedLines =
      .ok linkedLines.reverse := by
  have hstored : Identified hexUuid linkedLines := ⟨by decide +kernel, by decide +kernel⟩
  have hunused : Unused hexUuid mintedIds (linkedLines.reverse.map IdLine.withoutId).length
      (linkedLines.reverse.map IdLine.withoutId ++ linkedLines) :=
    ⟨by decide +kernel, by decide +kernel, by decide +kernel⟩
  exact (lines_keep_identity hexUuid mintedIds _ linkedLines hstored hunused).2.2 (by decide +kernel)
    (by decide +kernel) _ linkedLines.reverse_perm

end Celerp
