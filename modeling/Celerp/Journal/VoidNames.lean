/-
  The names that voids and restores are written under.

  A restore's suffix has the root it restores (`stripRestores_restoreSuffix`), and no two
  voids or restores share a key (`voidKey_inj`, `unvoidKey_inj`).
-/
import Celerp.Journal.Voiding

namespace Celerp

open Segments

/-! ## Suffixes -/

section
variable {docId entityId suffix suffix' root root' s jeType step step' : String} {first : List Char}
  {rest : List (List Char)} {n n' batch batch' : ℕ} {g g' : Bool}

theorem docSuffix_eq_some : docSuffix docId entityId = some suffix ↔ entityId = jeId docId suffix := by
  rw [docSuffix]
  constructor
  · intro h
    split_ifs at h with hprefix
    obtain ⟨t, ht⟩ := hprefix
    rw [← ht, List.drop_left, Option.some_inj] at h
    rw [jeId, ← h, ← String.toList_inj, ← ht, String.toList_append, String.toList_ofList]
  · rintro rfl
    rw [jeId, String.toList_append, if_pos (List.prefix_append _ _), List.drop_left, String.ofList_toList]

@[simp] theorem docSuffix_jeId : docSuffix docId (jeId docId suffix) = some suffix := docSuffix_eq_some.2 rfl

theorem jeId_inj (h : jeId docId suffix = jeId docId suffix') : suffix = suffix' := by
  rw [← Option.some_inj, ← docSuffix_jeId, h, docSuffix_jeId]

theorem exists_split (s : String) : ∃ first rest, split ':' s = first :: rest := List.exists_cons_of_ne_nil split_ne_nil

theorem isDigits_toDigits (n : ℕ) : isDigits (Nat.toDigits 10 n) = true := by
  rw [isDigits, Bool.and_eq_true, decide_eq_true_eq, List.all_eq_true]
  exact ⟨Nat.toDigits_ne_nil, fun c hc => Nat.isDigit_of_mem_toDigits (by decide) (by decide) hc⟩

theorem toList_toString (n : ℕ) : (toString n).toList = Nat.toDigits 10 n := Nat.toList_repr

theorem toDigits_inj (h : Nat.toDigits 10 n = Nat.toDigits 10 n') : n = n' := by
  rw [← Nat.ofDigitChars_ten_toDigits (n := n), h, Nat.ofDigitChars_ten_toDigits]

theorem split_toString (n : ℕ) : split ':' (toString n) = [Nat.toDigits 10 n] := by
  rw [split_of_not_mem, toList_toString]
  rw [toList_toString]
  intro hmem
  have hdigit := Nat.isDigit_of_mem_toDigits (by decide) (by decide) hmem
  exact absurd hdigit (by decide)

theorem split_stripRestores (h : split ':' s = first :: rest) :
    split ':' (stripRestores s) = first :: dropTags UNVOID isDigits rest := by
  have hs : stripRestores s = join ':' (first :: dropTags UNVOID isDigits rest) := by
    rw [stripRestores, h]
  rw [hs]
  refine split_join ?_ (List.cons_ne_nil _ _)
  intro l hl
  have hmem : l ∈ split ':' s := by
    rw [h]
    rcases List.mem_cons.1 hl with rfl | hl
    · exact List.mem_cons_self
    · exact List.mem_cons_of_mem _ (mem_of_mem_dropTags hl)
  exact not_mem_of_mem_split hmem

theorem split_restoreSuffix : split ':' (restoreSuffix root n) = split ':' root ++ [UNVOID, Nat.toDigits 10 n] := by
  have heq : restoreSuffix root n =
      root ++ String.singleton ':' ++ ("unvoid" ++ String.singleton ':' ++ toString n) := by
    rw [← String.toList_inj, restoreSuffix]
    simp
  rw [heq, split_append, split_append, split_toString, split_of_not_mem (s := "unvoid") (by decide)]
  rfl

/-- The suffix of a restore has the root it restores. -/
theorem stripRestores_restoreSuffix :
    stripRestores (restoreSuffix (stripRestores s) n) = stripRestores s := by
  obtain ⟨first, rest, hsplit⟩ := exists_split s
  have hstrip := split_stripRestores hsplit
  have hrestore : split ':' (restoreSuffix (stripRestores s) n) =
      first :: (dropTags UNVOID isDigits rest ++ [UNVOID, Nat.toDigits 10 n]) := by
    rw [split_restoreSuffix, hstrip, List.cons_append]
  refine split_inj (c := ':') ?_
  rw [split_stripRestores hrestore, hstrip, dropTags_append (by decide) (isDigits_toDigits n)]

theorem stripRestores_stripRestores : stripRestores (stripRestores s) = stripRestores s := by
  obtain ⟨first, rest, hsplit⟩ := exists_split s
  have hstrip := split_stripRestores hsplit
  refine split_inj (c := ':') ?_
  rw [split_stripRestores hstrip, hstrip, dropTags_dropTags (by decide)]

theorem restoreSuffix_inj (h : restoreSuffix root n = restoreSuffix root' n') : root = root' ∧ n = n' := by
  have hsplit := congrArg (split ':') h
  rw [split_restoreSuffix, split_restoreSuffix] at hsplit
  obtain ⟨hroot, htail⟩ := List.append_inj' hsplit rfl
  have hdigits : Nat.toDigits 10 n = Nat.toDigits 10 n' := by simpa using htail
  exact ⟨split_inj hroot, toDigits_inj hdigits⟩

theorem restoreSuffix_ne : restoreSuffix root n ≠ root := by
  intro h
  have hsplit := congrArg (fun s => (split ':' s).length) h
  simp only [split_restoreSuffix, List.length_append, List.length_cons, List.length_nil] at hsplit
  omega

/-! ## Keys -/

/-- The key of a void of a batch. -/
abbrev voidKey (docId : String) (batch : ℕ) (suffix : String) : String := (voidWrite docId batch suffix).key

/-- The key of a step of a restore. -/
def unvoidKey (docId root : String) (n : ℕ) (step : String) : String :=
  jeIdempotencyKey docId ("unvoid:" ++ root ++ ":" ++ toString n) step

theorem split_jeIdempotencyKey : split ':' (jeIdempotencyKey docId jeType suffix) =
    ['j', 'e'] :: split ':' docId ++ split ':' jeType ++ split ':' suffix := by
  have heq : jeIdempotencyKey docId jeType suffix = "je" ++ String.singleton ':' ++ docId ++
      String.singleton ':' ++ jeType ++ String.singleton ':' ++ suffix := by
    rw [← String.toList_inj, jeIdempotencyKey]
    simp
  rw [heq, split_append, split_append, split_append, split_of_not_mem (s := "je") (by decide)]
  rfl

theorem split_voidKey : split ':' (voidKey docId batch suffix) =
    ['j', 'e'] :: split ':' docId ++ ["voided".toList, Nat.toDigits 10 batch] ++ split ':' suffix ++ ["void".toList] := by
  have heq : "voided:" ++ toString batch ++ ":" ++ suffix =
      "voided" ++ String.singleton ':' ++ toString batch ++ String.singleton ':' ++ suffix := by
    rw [← String.toList_inj]
    simp
  rw [voidKey, voidWrite, heq, split_jeIdempotencyKey, split_append, split_append, split_toString,
    split_of_not_mem (s := "voided") (by decide), split_of_not_mem (s := "void") (by decide)]
  simp

theorem split_unvoidKey (hstep : ':' ∉ step.toList) : split ':' (unvoidKey docId root n step) =
    ['j', 'e'] :: split ':' docId ++ [UNVOID] ++ split ':' root ++ [Nat.toDigits 10 n, step.toList] := by
  have heq : "unvoid:" ++ root ++ ":" ++ toString n =
      "unvoid" ++ String.singleton ':' ++ root ++ String.singleton ':' ++ toString n := by
    rw [← String.toList_inj]
    simp
  rw [unvoidKey, heq, split_jeIdempotencyKey, split_append, split_append, split_toString,
    split_of_not_mem (s := "unvoid") (by decide), split_of_not_mem hstep]
  simp [UNVOID]

theorem voidKey_inj (h : voidKey docId batch suffix = voidKey docId batch' suffix') : batch = batch' ∧ suffix = suffix' := by
  have hsplit := congrArg (split ':') h
  rw [split_voidKey, split_voidKey] at hsplit
  have hrest := List.append_inj_left' hsplit rfl
  simp only [List.append_assoc, List.append_cancel_left_eq, List.cons_append, List.cons.injEq, List.nil_append, true_and] at hrest
  exact ⟨toDigits_inj hrest.1, split_inj hrest.2⟩

theorem unvoidKey_inj (hstep : ':' ∉ step.toList) (hstep' : ':' ∉ step'.toList)
    (h : unvoidKey docId root n step = unvoidKey docId root' n' step') : root = root' ∧ n = n' ∧ step = step' := by
  have hsplit := congrArg (split ':') h
  rw [split_unvoidKey hstep, split_unvoidKey hstep'] at hsplit
  obtain ⟨hroot, htail⟩ := List.append_inj' hsplit rfl
  simp only [List.cons.injEq, and_true] at htail
  have hsplit' : split ':' root = split ':' root' := by simpa using hroot
  exact ⟨split_inj hsplit', toDigits_inj htail.1, String.toList_inj.1 htail.2⟩

theorem voidKey_ne_unvoidKey (hstep : ':' ∉ step.toList) : voidKey docId batch suffix ≠ unvoidKey docId root n step := by
  intro h
  have hsplit := congrArg (split ':') h
  rw [split_voidKey, split_unvoidKey hstep] at hsplit
  simp [UNVOID] at hsplit

/-! ## Roots -/

theorem recognitionRoot_eq_some : recognitionRoot g suffix = some root ↔
    isRecognized g root = true ∧ stripRestores suffix = root := by
  rw [recognitionRoot]
  split_ifs with h
  · rw [Option.some_inj]
    constructor
    · rintro rfl
      exact ⟨h, rfl⟩
    · exact And.right
  · simp only [false_iff, not_and]
    rintro hroot rfl
    exact h hroot

theorem isRecognized_mono (hflag : g = true → g' = true) (h : isRecognized g root = true) : isRecognized g' root = true := by
  rw [isRecognized, decide_eq_true_eq] at h ⊢
  rcases h with h | ⟨hg, h⟩ | h
  · exact Or.inl h
  · exact Or.inr (Or.inl ⟨hflag hg, h⟩)
  · exact Or.inr (Or.inr h)

theorem isRecognized_true (h : isRecognized g root = true) : isRecognized true root = true :=
  isRecognized_mono (fun _ => rfl) h

theorem recognitionRoot_mono (hflag : g = true → g' = true) (h : recognitionRoot g suffix = some root) :
    recognitionRoot g' suffix = some root := by
  rw [recognitionRoot_eq_some] at h ⊢
  exact ⟨isRecognized_mono hflag h.1, h.2⟩

theorem recognitionRoot_true (h : recognitionRoot g suffix = some root) : recognitionRoot true suffix = some root :=
  recognitionRoot_mono (fun _ => rfl) h

theorem recognitionRoot_of_true (hroot : isRecognized g root = true) :
    recognitionRoot g suffix = some root ↔ recognitionRoot true suffix = some root := by
  rw [recognitionRoot_eq_some, recognitionRoot_eq_some, and_iff_right hroot, and_iff_right (isRecognized_true hroot)]

theorem recognitionRoot_restoreSuffix (h : recognitionRoot g suffix = some root) :
    recognitionRoot g (restoreSuffix root n) = some root := by
  rw [recognitionRoot_eq_some] at h ⊢
  obtain ⟨hroot, rfl⟩ := h
  exact ⟨hroot, stripRestores_restoreSuffix⟩

end

end Celerp
