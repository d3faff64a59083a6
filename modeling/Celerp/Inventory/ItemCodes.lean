/-
  The codes of items (`celerp/inventory_codes.py`, `celerp/services/physical_codes.py`,
  `allocate_internal_codes` in `celerp_inventory/services.py`): which SKUs and barcodes are
  accepted, and the internal codes minted after them.

  The next internal number is one more than the largest SKU or barcode that looks like a
  number.  `isdigit` takes more characters for digits than `int` reads (a superscript, a
  number in a circle), and the validators let these through.

  * a text of digits that are all decimal has a value (`succeeds_intOf_iff`);
  * the numbers are read where no code looks like a number without being one
    (`succeeds_nextSeq_iff`), and minting from there on ends (`Minting.mint_eq_some`);
  * so the codes asked for are minted just where there is no such code (`codes_minted_iff`).
-/
import Celerp.Docs.NumberedOnce
import Celerp.Lib.Minting
import Celerp.Lib.Outcome

namespace Celerp

open Outcome

/-! ## Digits -/

/-- The zeros of the decimal digits (`str.isdecimal`, Unicode 15.0): each is followed by the
    nine other digits of its script. -/
def DECIMAL_ZEROS : List ℕ :=
  [0x30, 0x660, 0x6f0, 0x7c0, 0x966, 0x9e6, 0xa66, 0xae6, 0xb66, 0xbe6, 0xc66, 0xce6, 0xd66, 0xde6,
   0xe50, 0xed0, 0xf20, 0x1040, 0x1090, 0x17e0, 0x1810, 0x1946, 0x19d0, 0x1a80, 0x1a90, 0x1b50, 0x1bb0,
   0x1c40, 0x1c50, 0xa620, 0xa8d0, 0xa900, 0xa9d0, 0xa9f0, 0xaa50, 0xabf0, 0xff10, 0x104a0, 0x10d30,
   0x11066, 0x110f0, 0x11136, 0x111d0, 0x112f0, 0x11450, 0x114d0, 0x11650, 0x116c0, 0x11730, 0x118e0,
   0x11950, 0x11c50, 0x11d50, 0x11da0, 0x11f50, 0x16a60, 0x16ac0, 0x16b50, 0x1d7ce, 0x1d7d8, 0x1d7e2,
   0x1d7ec, 0x1d7f6, 0x1e140, 0x1e2f0, 0x1e4f0, 0x1e950, 0x1fbf0]

/-- The other characters that `str.isdigit` takes for digits: superscripts, subscripts,
    numbers in circles and digits of scripts without a zero. -/
def OTHER_DIGITS : List (ℕ × ℕ) :=
  [(0xb2, 0xb3), (0xb9, 0xb9), (0x1369, 0x1371), (0x19da, 0x19da), (0x2070, 0x2070), (0x2074, 0x2079),
   (0x2080, 0x2089), (0x2460, 0x2468), (0x2474, 0x247c), (0x2488, 0x2490), (0x24ea, 0x24ea),
   (0x24f5, 0x24fd), (0x24ff, 0x24ff), (0x2776, 0x277e), (0x2780, 0x2788), (0x278a, 0x2792),
   (0x10a40, 0x10a43), (0x10e60, 0x10e68), (0x11052, 0x1105a), (0x1f100, 0x1f10a)]

/-- The value of a decimal digit. -/
def decimal? (c : Char) : Option ℕ :=
  (DECIMAL_ZEROS.find? fun first => first ≤ c.toNat ∧ c.toNat < first + 10).map (c.toNat - ·)

/-- `str.isdigit` -/
def isdigit (t : Text) : Bool :=
  t ≠ [] && t.all fun c => (decimal? c).isSome || OTHER_DIGITS.any fun r => r.1 ≤ c.toNat && c.toNat ≤ r.2

/-- What `int` raises on a text of digits. -/
inductive ValueError where
  | invalidLiteral (t : Text)
  | tooManyDigits
  deriving DecidableEq, Repr

/-- The longest text of digits that `int` reads. -/
def MAX_STR_DIGITS : ℕ := 4300

/-- `int` of a text of digits: only decimal digits have a value. -/
def intOf (t : Text) : Except ValueError ℕ :=
  match t.mapM decimal? with
  | some digits =>
    if MAX_STR_DIGITS < t.length then .error .tooManyDigits
    else .ok (digits.foldl (fun n digit => 10 * n + digit) 0)
  | none => .error (.invalidLiteral t)

/-! ## The codes accepted -/

/-- `MAX_BARCODE_LEN` -/
def MAX_BARCODE_LEN : ℕ := 64

/-- `MAX_SKU_LEN` -/
def MAX_SKU_LEN : ℕ := 255

/-- What a code is refused for (`Refused`): the message, and the limit it names. -/
structure CodeRefusal where
  key : String
  max : Option ℕ := none
  deriving DecidableEq, Repr

/-- `reject_comma_sku` -/
def rejectCommaSku (sku : Option Text) : Except CodeRefusal (Option Text) :=
  if sku.any (',' ∈ ·) then .error ⟨"inventory.err_sku_comma", none⟩ else .ok sku

/-- `validate_sku` -/
def validateSku (sku : Option Text) : Except CodeRefusal (Option Text) := do
  let _ ← rejectCommaSku sku
  if sku.any (MAX_SKU_LEN < ·.length) then .error ⟨"inventory.err_sku_too_long", some MAX_SKU_LEN⟩ else .ok sku

/-- `validate_barcode` -/
def validateBarcode : Option Text → Except CodeRefusal (Option Text)
  | none => .ok none
  | some s =>
    if s = [] then .ok (some s)
    else if !isdigit s then .error ⟨"inventory.err_barcode_digits", none⟩
    else if MAX_BARCODE_LEN < s.length then .error ⟨"inventory.err_barcode_too_long", some MAX_BARCODE_LEN⟩
    else .ok (some s)

/-- The codes an item holds. -/
structure ItemCodes where
  sku : Option Text
  barcode : Option Text
  rfidEpc : Option Text
  deriving DecidableEq, Repr

/-- The codes of a company's items, as the validators accept them. -/
structure CodedItems where
  items : List ItemCodes
  skus : ∀ i ∈ items, validateSku i.sku = .ok i.sku
  barcodes : ∀ i ∈ items, validateBarcode i.barcode = .ok i.barcode

/-! ## Minting codes -/

/-- `_MAX_SEQ_DIGITS` -/
def MAX_SEQ_DIGITS : ℕ := 9

/-- `_SEQ_WIDTH` -/
def SEQ_WIDTH : ℕ := 6

/-- The codes the sequence goes by: the SKUs, and the barcodes that are not too long
    (`all_vals`). -/
def sequenceCodes (items : List ItemCodes) : List Text :=
  items.filterMap (·.sku) ++ (items.filterMap (·.barcode)).filter fun v => v ≠ [] && v.length ≤ MAX_SEQ_DIGITS

/-- `_next_seq` -/
def nextSeq (items : List ItemCodes) : Except ValueError ℕ :=
  (((sequenceCodes items).filter fun v => v ≠ [] && isdigit v).mapM intOf).map fun numbers => numbers.foldr max 0 + 1

/-- `code_in_use` -/
def codeInUse (items : List ItemCodes) (code : Text) : Bool :=
  code ≠ [] && items.any fun i => i.barcode = some code ∨ i.rfidEpc = some code

/-- The codes held as a barcode or an RFID code. -/
def heldCodes (items : List ItemCodes) : List Text := items.filterMap (·.barcode) ++ items.filterMap (·.rfidEpc)

/-- `allocate_internal_codes`.  A candidate is passed over only where it is held, so there are
    no more of them than codes asked for and held. -/
def allocateInternalCodes (items : List ItemCodes) (count : ℕ) : Except ValueError (Option (List Text)) :=
  (nextSeq items).map fun candidate =>
    Minting.mint (zeroPad SEQ_WIDTH) (codeInUse items) count (count + (heldCodes items).length) [] candidate

/-! ## When codes are minted -/

/-- A text that looks like a number and has no value: digits, one of them not decimal. -/
def Misread (t : Text) : Prop := isdigit t = true ∧ ∃ c ∈ t, decimal? c = none

section
variable {t : Text} {items : List ItemCodes}

theorem mapM_decimal?_isSome : ∀ {t : Text}, (t.mapM decimal?).isSome ↔ ∀ c ∈ t, decimal? c ≠ none
  | [] => by simp
  | c :: t => by
    rw [List.mapM_cons, List.forall_mem_cons, ← mapM_decimal?_isSome]
    cases decimal? c with
    | none => simp
    | some n => cases t.mapM decimal? <;> simp

/-- **What `int` reads.** -/
theorem succeeds_intOf_iff (hlength : t.length ≤ MAX_STR_DIGITS) : Succeeds (intOf t) ↔ ∀ c ∈ t, decimal? c ≠ none := by
  rw [← mapM_decimal?_isSome, intOf]
  cases t.mapM decimal? with
  | none => simp
  | some digits => simp [hlength.not_gt]

theorem mem_sequenceCodes : t ∈ sequenceCodes items ↔ (∃ i ∈ items, i.sku = some t) ∨
    (∃ i ∈ items, i.barcode = some t) ∧ t ≠ [] ∧ t.length ≤ MAX_SEQ_DIGITS := by
  simp [sequenceCodes]

theorem mem_heldCodes : t ∈ heldCodes items ↔ ∃ i ∈ items, i.barcode = some t ∨ i.rfidEpc = some t := by
  simp [heldCodes, exists_or, and_or_left]

theorem codeInUse_eq_true (h : codeInUse items t = true) : t ∈ heldCodes items := by
  rw [codeInUse, Bool.and_eq_true, List.any_eq_true] at h
  obtain ⟨-, i, hi, heq⟩ := h
  exact mem_heldCodes.2 ⟨i, hi, by simpa using heq⟩

theorem not_mem_heldCodes (h : codeInUse items t = false) (ht : t ≠ []) : t ∉ heldCodes items := by
  intro hmem
  obtain ⟨i, hi, heq⟩ := mem_heldCodes.1 hmem
  rw [codeInUse, Bool.and_eq_false_iff] at h
  rcases h with h | h
  · simp [ht] at h
  · simpa [heq] using List.any_eq_false.1 h i hi

theorem length_of_validateSku (h : validateSku (some t) = .ok (some t)) : t.length ≤ MAX_SKU_LEN := by
  obtain ⟨sku, -, h⟩ := bind_eq_ok.1 h
  by_contra hlong
  rw [if_pos (by simpa using hlong)] at h
  cases h

/-- The codes the sequence goes by are short enough for `int`. -/
theorem CodedItems.length_le (c : CodedItems) (ht : t ∈ sequenceCodes c.items) : t.length ≤ MAX_STR_DIGITS := by
  rcases mem_sequenceCodes.1 ht with ⟨i, hi, hsku⟩ | ⟨-, -, hlength⟩
  · have hvalid := c.skus i hi
    rw [hsku] at hvalid
    exact (length_of_validateSku hvalid).trans (by decide)
  · exact hlength.trans (by decide)

/-- No code the sequence goes by looks like a number without being one: no SKU, and no barcode
    of nine characters or fewer. -/
def CodedItems.ReadsAll (c : CodedItems) : Prop :=
  ∀ i ∈ c.items, (∀ t, i.sku = some t → ¬Misread t) ∧
    ∀ t, i.barcode = some t → t.length ≤ MAX_SEQ_DIGITS → ¬Misread t

theorem CodedItems.readsAll_iff (c : CodedItems) : c.ReadsAll ↔ ∀ t ∈ sequenceCodes c.items, ¬Misread t := by
  constructor
  · intro h t ht
    rcases mem_sequenceCodes.1 ht with ⟨i, hi, hsku⟩ | ⟨⟨i, hi, hbarcode⟩, -, hlength⟩
    · exact (h i hi).1 t hsku
    · exact (h i hi).2 t hbarcode hlength
  · refine fun h i hi => ⟨fun t hsku => h t (mem_sequenceCodes.2 (.inl ⟨i, hi, hsku⟩)), fun t hbarcode hlength => ?_⟩
    rintro hmisread
    have hne : t ≠ [] := by
      rintro rfl
      simp [Misread] at hmisread
    exact h t (mem_sequenceCodes.2 (.inr ⟨⟨i, hi, hbarcode⟩, hne, hlength⟩)) hmisread

/-- **The next number is found** just where each code that looks like a number is one. -/
theorem CodedItems.succeeds_nextSeq_iff (c : CodedItems) : Succeeds (nextSeq c.items) ↔ c.ReadsAll := by
  have hmap : Succeeds (nextSeq c.items) ↔
      Succeeds (((sequenceCodes c.items).filter fun v => v ≠ [] && isdigit v).mapM intOf) := succeeds_map
  rw [hmap, succeeds_mapM, c.readsAll_iff]
  simp only [List.mem_filter, Misread, not_and, not_exists]
  constructor
  · intro h t ht hdigits a ha hnone
    have hne : t ≠ [] := List.ne_nil_of_mem ha
    exact (succeeds_intOf_iff (c.length_le ht)).1 (h t ⟨ht, by simp [hne, hdigits]⟩) a ha hnone
  · intro h t ht
    refine (succeeds_intOf_iff (c.length_le ht.1)).2 fun a ha hnone => h t ht.1 ?_ a ha hnone
    simpa using (Bool.and_eq_true_iff.1 ht.2).2

/-- As many fresh codes as asked for: all different, none held by an item. -/
def CodedItems.Mints (c : CodedItems) (count : ℕ) : Prop :=
  ∃ codes, allocateInternalCodes c.items count = .ok (some codes) ∧ codes.length = count ∧ codes.Nodup ∧
    ∀ code ∈ codes, ∀ i ∈ c.items, i.barcode ≠ some code ∧ i.rfidEpc ≠ some code

theorem CodedItems.mints_of_nextSeq (c : CodedItems) (count : ℕ) {candidate : ℕ} (h : nextSeq c.items = .ok candidate) :
    c.Mints count := by
  have hcode : Function.Injective (zeroPad SEQ_WIDTH) := fun _ _ => zeroPad_inj
  have hheld : ∀ n, candidate ≤ n → codeInUse c.items (zeroPad SEQ_WIDTH n) = true →
      zeroPad SEQ_WIDTH n ∈ heldCodes c.items := fun n _ => codeInUse_eq_true
  have hfuel : count + (heldCodes c.items).length ≤ count + (heldCodes c.items).length + ([] : List Text).length :=
    Nat.le_refl _
  obtain ⟨codes, after, hmint, hlength, hminted⟩ :=
    Minting.mint_eq_some hcode hheld .nil (Nat.zero_le count) hfuel
  refine ⟨codes, ?_, hlength, hminted.nodup, fun code hcode i hi => ?_⟩
  · rw [allocateInternalCodes, h, Except.map, hmint]
  · obtain ⟨n, -, rfl⟩ := hminted.before code hcode
    have hfree := not_mem_heldCodes (hminted.free _ hcode) zeroPad_ne_nil
    exact ⟨fun heq => hfree (mem_heldCodes.2 ⟨i, hi, .inl heq⟩), fun heq => hfree (mem_heldCodes.2 ⟨i, hi, .inr heq⟩)⟩

/-- **When internal codes can be minted**: just where no SKU, and no barcode of nine characters
    or fewer, is all digits with one among them that is not decimal. -/
theorem codes_minted_iff (c : CodedItems) (count : ℕ) : c.Mints count ↔ c.ReadsAll := by
  rw [← c.succeeds_nextSeq_iff]
  constructor
  · rintro ⟨codes, hcodes, -⟩
    obtain ⟨candidate, h, -⟩ := map_eq_ok.1 hcodes
    exact ⟨candidate, h⟩
  · rintro ⟨candidate, h⟩
    exact c.mints_of_nextSeq count h

end

/-- An item whose SKU ends in a superscript. -/
def superscriptSku : CodedItems where
  items := [⟨some "10²".toList, none, none⟩]
  skus := by decide
  barcodes := by decide

/-- The SKU is accepted, and no code is minted after it. -/
theorem not_mints_superscriptSku : ¬∀ (c : CodedItems) (count : ℕ), c.Mints count := by
  intro h
  obtain ⟨codes, hcodes, -⟩ := h superscriptSku 1
  have hraised : allocateInternalCodes superscriptSku.items 1 = .error (.invalidLiteral "10²".toList) := by decide
  rw [hraised] at hcodes
  cases hcodes

end Celerp
