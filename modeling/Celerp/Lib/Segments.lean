/-
  Names of segments, and generations at their end.

  * `split c s` are the segments of a string between the characters `c`; a string is
    given by its segments (`split_inj`) and those of two strings joined by `c` are one
    after the other (`split_append`);
  * `dropTags tag number segs` leaves out the tags at the end of a name, each with a
    number or none; a name without them gets back to itself once numbered again
    (`dropTags_append`).
-/
import Mathlib.Data.List.Basic
import Mathlib.Data.String.Basic

namespace Segments

/-! ## Segments of a string -/

/-- The segments of a string between the characters `c`. -/
def split (c : Char) (s : String) : List (List Char) := s.toList.splitOn c

/-- The string of segments with `c` between them. -/
def join (c : Char) (segs : List (List Char)) : String := String.ofList ([c].intercalate segs)

section
variable {c : Char} {s t : String} {segs : List (List Char)} {l : List Char}

theorem join_split : join c (split c s) = s := by
  rw [join, split, List.intercalate_splitOn, String.ofList_toList]

theorem split_inj (h : split c s = split c t) : s = t := by
  rw [← join_split (c := c) (s := s), h, join_split]

theorem split_join (hsegs : ∀ l ∈ segs, c ∉ l) (hne : segs ≠ []) : split c (join c segs) = segs := by
  rw [split, join, String.toList_ofList]
  exact List.splitOn_intercalate c hsegs hne

theorem not_mem_of_mem_splitOn {xs : List Char} (h : l ∈ xs.splitOn c) : c ∉ l := by
  induction xs generalizing l with
  | nil =>
    rw [List.splitOn_nil, List.mem_singleton] at h
    simp [h]
  | cons x xs ih =>
    rw [List.splitOn_cons_eq_if_modifyHead] at h
    split_ifs at h with hx
    · rcases List.mem_cons.1 h with rfl | h
      · simp
      · exact ih h
    · cases hxs : xs.splitOn c with
      | nil => exact absurd hxs (List.splitOn_ne_nil c xs)
      | cons first rest =>
        rw [hxs, List.modifyHead_cons] at h
        rcases List.mem_cons.1 h with rfl | h
        · have hfirst := ih (hxs ▸ List.mem_cons_self)
          rw [beq_iff_eq] at hx
          rintro hc
          rcases List.mem_cons.1 hc with rfl | hc
          · exact hx rfl
          · exact hfirst hc
        · exact ih (hxs ▸ List.mem_cons_of_mem first h)

theorem not_mem_of_mem_split (h : l ∈ split c s) : c ∉ l := not_mem_of_mem_splitOn h

theorem split_ne_nil : split c s ≠ [] := List.splitOn_ne_nil c _

/-- The segments of two strings joined by `c` are one after the other. -/
theorem split_append : split c (s ++ String.singleton c ++ t) = split c s ++ split c t := by
  rw [split, String.toList_append, String.toList_append, String.toList_singleton, List.append_assoc,
    List.singleton_append, List.splitOn_append_cons_self]
  rfl

theorem split_of_not_mem (h : c ∉ s.toList) : split c s = [s.toList] := List.splitOn_eq_singleton h

end

/-! ## Generations -/

section
variable {β : Type*} [DecidableEq β] (tag : β) (number : β → Bool)

/-- A run of tags, each with a number or none. -/
def isTagged : List β → Bool
  | [] => true
  | [s] => s = tag
  | s :: n :: rest => s = tag && if number n then isTagged rest else isTagged (n :: rest)

/-- The segments less the tags at their end. -/
def dropTags : List β → List β
  | [] => []
  | s :: rest => if isTagged tag number (s :: rest) then [] else s :: dropTags rest

variable {tag number} {s n : β} {segs more : List β}

theorem isTagged_append (segs : List β) (htag : number tag = false)
    (hmore : ∀ s ∈ more.head?, s = tag) (hone : isTagged tag number more = true) :
    isTagged tag number (segs ++ more) = isTagged tag number segs := by
  induction segs using isTagged.induct with
  | case1 => rw [List.nil_append, hone, isTagged]
  | case2 s =>
    cases more with
    | nil => rw [List.append_nil]
    | cons m more =>
      obtain rfl := hmore m rfl
      simp [isTagged, htag, hone]
  | case3 s n rest hrest hnext =>
    rw [List.cons_append] at hnext
    rw [List.cons_append, List.cons_append, isTagged, isTagged, hrest, hnext]

theorem head_of_isTagged (h : isTagged tag number segs = true) : ∀ s ∈ segs.head?, s = tag := by
  intro s hs
  match segs, hs with
  | [s], rfl => simpa [isTagged] using h
  | s :: n :: rest, rfl =>
    rw [isTagged, Bool.and_eq_true, decide_eq_true_eq] at h
    exact h.1

variable (tag number) in
theorem exists_dropTags (segs : List β) : ∃ tags, segs = dropTags tag number segs ++ tags ∧ isTagged tag number tags = true := by
  induction segs with
  | nil => exact ⟨[], rfl, rfl⟩
  | cons s rest ih =>
    rw [dropTags]
    split_ifs with htagged
    · exact ⟨s :: rest, rfl, htagged⟩
    · obtain ⟨tags, hrest, htags⟩ := ih
      refine ⟨tags, ?_, htags⟩
      rw [List.cons_append, ← hrest]

theorem dropTags_dropTags (htag : number tag = false) (segs : List β) :
    dropTags tag number (dropTags tag number segs) = dropTags tag number segs := by
  induction segs with
  | nil => rfl
  | cons s rest ih =>
    rw [dropTags]
    split_ifs with htagged
    · rfl
    · obtain ⟨tags, hrest, htags⟩ := exists_dropTags tag number rest
      have hsame := isTagged_append (s :: dropTags tag number rest) htag (head_of_isTagged htags) htags
      rw [List.cons_append, ← hrest] at hsame
      rw [dropTags, if_neg (by rwa [← hsame]), ih]

theorem dropTags_append_of_eq (htag : number tag = false) (hn : number n = true)
    (h : dropTags tag number segs = segs) : dropTags tag number (segs ++ [tag, n]) = segs := by
  have hone : isTagged tag number [tag, n] = true := by simp [isTagged, hn]
  induction segs with
  | nil => rw [List.nil_append, dropTags, if_pos hone]
  | cons s rest ih =>
    rw [dropTags] at h
    split_ifs at h with htagged
    have hsame := isTagged_append (s :: rest) htag (head_of_isTagged hone) hone
    rw [List.cons_append] at hsame ⊢
    rw [dropTags, if_neg (by rwa [hsame]), ih (List.cons.inj h).2]

/-- A name without tags gets back to itself once numbered again. -/
theorem dropTags_append (htag : number tag = false) (hn : number n = true) (segs : List β) :
    dropTags tag number (dropTags tag number segs ++ [tag, n]) = dropTags tag number segs :=
  dropTags_append_of_eq htag hn (dropTags_dropTags htag segs)

theorem mem_of_mem_dropTags (h : s ∈ dropTags tag number segs) : s ∈ segs := by
  obtain ⟨tags, hsegs, -⟩ := exists_dropTags tag number segs
  rw [hsegs]
  exact List.mem_append_left _ h

end

end Segments
