/-
  The references documents take: what two of them under one prefix and pattern have in
  common, and that none is taken twice.

  A pattern and a prefix leave a template of the day and the number (`exists_shape`), so a
  reference tells its number and its numbering period (`expandPattern_inj`).  From one draw
  to a later one, the period moves on or the number grows (`Past`), unless a pattern of a
  finer period has restarted the counter between the two.
-/
import Celerp.Docs.Numbering
import Celerp.Lib.Runs
import Mathlib.Data.List.Lex
import Mathlib.Data.List.TakeWhile

namespace Celerp

open Template

/-! ## Tokens -/

/-- The sequence tokens: any number of `#` in braces. -/
def IsSeqToken (t : Text) : Prop := ∃ n, t = '{' :: (List.replicate (n + 1) '#' ++ ['}'])

theorem finds_seqToken : Finds seqToken IsSeqToken where
  token := by
    intro s n h
    rw [seqToken.eq_def] at h
    split at h
    · rename_i s
      simp only at h
      split_ifs at h with hseq
      obtain ⟨hne, hclose⟩ := hseq
      obtain ⟨k, hk⟩ := Nat.exists_eq_add_one_of_ne_zero fun h0 => hne (List.length_eq_zero_iff.1 h0)
      have hrep : s.takeWhile (· = '#') = List.replicate (k + 1) '#' := by
        refine List.eq_replicate_iff.2 ⟨hk, fun c hc => ?_⟩
        simpa using List.mem_takeWhile_imp hc
      obtain ⟨rest, hrest⟩ := List.head?_eq_some_iff.1 hclose
      refine ⟨_, ⟨k, rfl⟩, ?_, ?_⟩
      · have happend := List.prefix_iff_eq_append.1 (List.takeWhile_prefix (l := s) (· = '#'))
        rw [hrest, hrep] at happend
        rw [List.cons_prefix_cons]
        exact ⟨rfl, rest, by rw [List.append_assoc, List.singleton_append, happend]⟩
      · rw [← Option.some.inj h, hrep]
        simp
    · cases h
  none := by
    rintro s h t ⟨n, rfl⟩ ⟨rest, rfl⟩
    have hrep : ((List.replicate (n + 1) '#' ++ ['}']) ++ rest).takeWhile (· = '#') = List.replicate (n + 1) '#' := by
      rw [List.append_assoc, List.takeWhile_append_of_pos (by simp [List.mem_replicate])]
      simp
    have hdrop : (List.replicate (n + 1) '#' ++ ['}'] ++ rest).drop (n + 1) = '}' :: rest := by
      rw [List.append_assoc, List.drop_left' (List.length_replicate)]
      rfl
    rw [List.cons_append, seqToken] at h
    simp only [hrep, List.length_replicate, hdrop] at h
    simp at h

theorem bracketed_token {name : String} (h : '{' ∉ name.toList ∧ '}' ∉ name.toList) :
    Bracketed '{' '}' (token name) := ⟨⟨name.toList, rfl, h⟩, by decide⟩

theorem bracketed_seqToken {t : Text} (h : IsSeqToken t) : Bracketed '{' '}' t := by
  obtain ⟨n, rfl⟩ := h
  exact ⟨⟨List.replicate (n + 1) '#', rfl, by simp [List.mem_replicate], by simp [List.mem_replicate]⟩, by decide⟩

theorem isDigit_free_token {name : String} (h : name.toList.all (!·.isDigit)) : ∀ c ∈ token name, ¬c.isDigit := by
  intro c hc
  rw [token, List.mem_cons, List.mem_append, List.mem_singleton] at hc
  rcases hc with rfl | hc | rfl
  · decide
  · simpa using List.all_eq_true.1 h c hc
  · decide

theorem isDigit_free_seqToken {t : Text} (h : IsSeqToken t) : ∀ c ∈ t, ¬c.isDigit := by
  obtain ⟨n, rfl⟩ := h
  intro c hc
  rw [List.mem_cons, List.mem_append, List.mem_replicate, List.mem_singleton] at hc
  rcases hc with rfl | ⟨-, rfl⟩ | rfl <;> decide

/-! ## What fills a pattern -/

/-- What a pattern leaves open. -/
inductive Hole where
  | yyyy
  | yy
  | mm
  | dd
  | num
  deriving DecidableEq

/-- A pattern's holes on a day, for a number. -/
def values (width : ℕ) (day : Day) (n : ℕ) : Hole → Text
  | .yyyy => Nat.toDigits 10 day.year
  | .yy => zeroPad 2 (day.year % 100)
  | .mm => zeroPad 2 day.month
  | .dd => zeroPad 2 day.day
  | .num => zeroPad width n

theorem isDigit_of_mem_zeroPad {width n : ℕ} {c : Char} (hc : c ∈ zeroPad width n) : c.isDigit := by
  rw [zeroPad, List.mem_append, List.mem_replicate] at hc
  rcases hc with ⟨-, rfl⟩ | hc
  · decide
  · exact Nat.isDigit_of_mem_toDigits (by decide) (by decide) hc

theorem zeroPad_ne_nil {width n : ℕ} : zeroPad width n ≠ [] := by
  rw [zeroPad]
  exact List.append_ne_nil_of_right_ne_nil _ Nat.toDigits_ne_nil

theorem values_inked {width : ℕ} {day : Day} {n : ℕ} {s : List (Char ⊕ Hole)} :
    Inked (·.isDigit) (values width day n) s := by
  intro j _
  cases j with
  | yyyy => exact ⟨Nat.toDigits_ne_nil, fun c hc => Nat.isDigit_of_mem_toDigits (by decide) (by decide) hc⟩
  | yy => exact ⟨zeroPad_ne_nil, fun c hc => isDigit_of_mem_zeroPad hc⟩
  | mm => exact ⟨zeroPad_ne_nil, fun c hc => isDigit_of_mem_zeroPad hc⟩
  | dd => exact ⟨zeroPad_ne_nil, fun c hc => isDigit_of_mem_zeroPad hc⟩
  | num => exact ⟨zeroPad_ne_nil, fun c hc => isDigit_of_mem_zeroPad hc⟩

theorem ofDigitChars_zeroPad (width n : ℕ) : Nat.ofDigitChars 10 (zeroPad width n) 0 = n := by
  rw [zeroPad, Nat.ofDigitChars_append, Nat.ofDigitChars_replicate_zero, Nat.mul_zero, Nat.ofDigitChars_ten_toDigits]

theorem length_zeroPad {width n : ℕ} (hwidth : 0 < width) (hn : n < 10 ^ width) : (zeroPad width n).length = width := by
  have hlength := (Nat.length_toDigits_le_iff (b := 10) (n := n) (by decide) hwidth).2 hn
  rw [zeroPad, List.length_append, List.length_replicate]
  omega

/-- Replacing one kind of token makes a template of a template. -/
theorem exists_step {find : Text → Option ℕ} {tokens : Text → Prop} (hfind : Finds find tokens)
    (htokens : ∀ t, tokens t → Bracketed '{' '}' t) (hfree : ∀ t, tokens t → ∀ c ∈ t, ¬c.isDigit) (k : Hole)
    (s : List (Char ⊕ Hole)) :
    ∃ s', (∀ width day n, sub find (values width day n k) 0 (fill (values width day n) s) =
        fill (values width day n) s') ∧
      (∀ j, .inr j ∈ s → .inr j ∈ s') ∧ (∀ t, tokens t → t.map .inl <:+: s → .inr k ∈ s') ∧
      ∀ t, Bracketed '{' '}' t → ¬tokens t → t.map .inl <:+: s → t.map .inl <:+: s' := by
  obtain ⟨s', h⟩ := exists_replaced htokens k s
  refine ⟨s', fun width day n => ?_, fun j => h.mem, fun t ht hs => ?_, fun t hb ht hs => ?_⟩
  · exact sub_fill (·.isDigit) hfind htokens hfree (by decide) h values_inked
  · exact (h.occurs htokens (htokens t ht) hs).1 ht
  · exact (h.occurs htokens hb hs).2 ht

/-- **What a prefix leaves of a pattern is a template** of the day and the number, with a
    hole for each token of the pattern. -/
theorem exists_shape (pattern pre : Text) : ∃ shape : List (Char ⊕ Hole),
    (∀ day n, expandPattern pattern pre day n = fill (values (padOf pattern) day n) shape) ∧
      (token "YYYY" <:+: pattern → .inr .yyyy ∈ shape) ∧ (token "YY" <:+: pattern → .inr .yy ∈ shape) ∧
      (token "MM" <:+: pattern → .inr .mm ∈ shape) ∧ (token "DD" <:+: pattern → .inr .dd ∈ shape) ∧
      (search seqToken pattern ≠ none → .inr .num ∈ shape) := by
  have hprefix : Bracketed '{' '}' (token "PREFIX") := bracketed_token (by decide)
  have hyyyy : Bracketed '{' '}' (token "YYYY") := bracketed_token (by decide)
  have hyy : Bracketed '{' '}' (token "YY") := bracketed_token (by decide)
  have hmm : Bracketed '{' '}' (token "MM") := bracketed_token (by decide)
  have hdd : Bracketed '{' '}' (token "DD") := bracketed_token (by decide)
  -- no sequence token is one of the named tokens
  have hseq : ∀ {t : Text}, IsSeqToken t → t ≠ token "PREFIX" ∧ t ≠ token "YYYY" ∧ t ≠ token "YY" ∧
      t ≠ token "MM" ∧ t ≠ token "DD" := by
    rintro _ ⟨n, rfl⟩
    refine ⟨?_, ?_, ?_, ?_, ?_⟩ <;> intro h <;> exact absurd (congrArg (·[1]?) h) (by simp [token, List.replicate_succ])
  have hname : ∀ {name : Text}, Bracketed '{' '}' name → ∀ t, t = name → Bracketed '{' '}' t := by
    rintro name h _ rfl
    exact h
  have hfree : ∀ {name : String}, name.toList.all (!·.isDigit) → ∀ t, t = token name → ∀ c ∈ t, ¬c.isDigit := by
    rintro name h _ rfl
    exact isDigit_free_token h
  -- the prefix in place of its token
  obtain ⟨s₀, h₀⟩ := exists_replaced (hname hprefix) () (pattern.map Sum.inl)
  have hsub₀ : sub (literal (token "PREFIX")) pre 0 pattern = fill (fun _ => pre) s₀ := by
    have hsub := sub_fill (v := fun _ => pre) (fun _ => False) (finds_literal (token "PREFIX")) (hname hprefix)
      (fun _ _ _ _ => id) id h₀ (fun j hj => by simp at hj)
    rwa [fill_text] at hsub
  have hkeep₀ : ∀ t, Bracketed '{' '}' t → t ≠ token "PREFIX" → t <:+: pattern →
      t.map .inl <:+: (fill (fun _ => pre) s₀).map (Sum.inl : Char → Char ⊕ Hole) := by
    intro t hb hne ht
    exact (infix_fill ((h₀.occurs (hname hprefix) hb (ht.map _)).2 hne)).map _
  -- then each part of the day, and the number
  obtain ⟨s₁, hfill₁, hmem₁, hmade₁, hkeep₁⟩ := exists_step (finds_literal (token "YYYY")) (hname hyyyy)
    (hfree (by decide)) .yyyy ((fill (fun _ => pre) s₀).map .inl)
  obtain ⟨s₂, hfill₂, hmem₂, hmade₂, hkeep₂⟩ := exists_step (finds_literal (token "YY")) (hname hyy)
    (hfree (by decide)) .yy s₁
  obtain ⟨s₃, hfill₃, hmem₃, hmade₃, hkeep₃⟩ := exists_step (finds_literal (token "MM")) (hname hmm)
    (hfree (by decide)) .mm s₂
  obtain ⟨s₄, hfill₄, hmem₄, hmade₄, hkeep₄⟩ := exists_step (finds_literal (token "DD")) (hname hdd)
    (hfree (by decide)) .dd s₃
  obtain ⟨s₅, hfill₅, hmem₅, hmade₅, -⟩ := exists_step finds_seqToken (fun _ => bracketed_seqToken)
    (fun _ => isDigit_free_seqToken) .num s₄
  refine ⟨s₅, fun day n => ?_, fun h => ?_, fun h => ?_, fun h => ?_, fun h => ?_, fun h => ?_⟩
  · rw [← hfill₅, ← hfill₄, ← hfill₃, ← hfill₂, ← hfill₁, fill_text, ← hsub₀]
    rfl
  · exact hmem₅ _ (hmem₄ _ (hmem₃ _ (hmem₂ _ (hmade₁ _ rfl (hkeep₀ _ hyyyy (by decide) h)))))
  · have h₁ := hkeep₁ _ hyy (by decide) (hkeep₀ _ hyy (by decide) h)
    exact hmem₅ _ (hmem₄ _ (hmem₃ _ (hmade₂ _ rfl h₁)))
  · have h₁ := hkeep₁ _ hmm (by decide) (hkeep₀ _ hmm (by decide) h)
    exact hmem₅ _ (hmem₄ _ (hmade₃ _ rfl (hkeep₂ _ hmm (by decide) h₁)))
  · have h₁ := hkeep₁ _ hdd (by decide) (hkeep₀ _ hdd (by decide) h)
    exact hmem₅ _ (hmade₄ _ rfl (hkeep₃ _ hdd (by decide) (hkeep₂ _ hdd (by decide) h₁)))
  · obtain ⟨t, ht, hinfix⟩ := infix_of_search finds_seqToken h
    have hb := bracketed_seqToken ht
    obtain ⟨hne₀, hne₁, hne₂, hne₃, hne₄⟩ := hseq ht
    have h₂ := hkeep₂ t hb hne₂ (hkeep₁ t hb hne₁ (hkeep₀ t hb hne₀ hinfix))
    exact hmade₅ t ht (hkeep₄ t hb hne₄ (hkeep₃ t hb hne₃ h₂))

/-! ## What a reference tells -/

/-- How much of the day a pattern's numbering period has: nothing, the year, the month or
    the day. -/
def grain (pattern : Text) : ℕ :=
  if ¬token "YYYY" <:+: pattern ∧ ¬token "YY" <:+: pattern then 0
  else if ¬token "MM" <:+: pattern then 1
  else if ¬token "DD" <:+: pattern then 2
  else 3

theorem period_eq (pattern : Text) (day : Day) : period pattern day = day.parts.take (grain pattern) := by
  rw [period, grain]
  split_ifs <;> rfl

theorem Day.day_le (day : Day) : day.day ≤ 31 := by
  have h := day.hday.2
  rw [daysOf.eq_def] at h
  split at h
  · omega
  · omega
  · omega
  · omega
  · split_ifs at h <;> omega
  · exact h

theorem values_length {width : ℕ} {day day' : Day} {n n' : ℕ} (hday : 2000 ≤ day.year ∧ day.year ≤ 2099)
    (hday' : 2000 ≤ day'.year ∧ day'.year ≤ 2099) {j : Hole} (hj : j ≠ .num) :
    (values width day n j).length = (values width day' n' j).length := by
  have hlength : ∀ day : Day, 2000 ≤ day.year ∧ day.year ≤ 2099 → ∀ n,
      (values width day n j).length = if j = .yyyy then 4 else 2 := by
    intro day hday n
    have hmonth := day.hmonth
    have hle := day.day_le
    cases j with
    | yyyy =>
      have hlt : ¬(Nat.toDigits 10 day.year).length ≤ 3 := by
        rw [Nat.length_toDigits_le_iff (by decide) (by decide)]
        omega
      have hle : (Nat.toDigits 10 day.year).length ≤ 4 := by
        rw [Nat.length_toDigits_le_iff (by decide) (by decide)]
        omega
      show (Nat.toDigits 10 day.year).length = 4
      omega
    | yy => exact length_zeroPad (by decide) (by omega)
    | mm => exact length_zeroPad (by decide) (by omega)
    | dd => exact length_zeroPad (by decide) (by omega)
    | num => exact absurd rfl hj
  rw [hlength day hday n, hlength day' hday' n']

theorem zeroPad_inj {width n n' : ℕ} (h : zeroPad width n = zeroPad width n') : n = n' := by
  rw [← ofDigitChars_zeroPad width n, h, ofDigitChars_zeroPad]

/-- **A reference tells its number and its numbering period**, under its pattern and its
    prefix. -/
theorem expandPattern_inj {pattern pre : Text} {day day' : Day} {n n' : ℕ} (hseq : search seqToken pattern ≠ none)
    (hday : 2000 ≤ day.year ∧ day.year ≤ 2099) (hday' : 2000 ≤ day'.year ∧ day'.year ≤ 2099)
    (heq : expandPattern pattern pre day n = expandPattern pattern pre day' n') :
    n = n' ∧ period pattern day = period pattern day' := by
  obtain ⟨shape, hfill, hyyyy, hyy, hmm, hdd, hnum⟩ := exists_shape pattern pre
  rw [hfill, hfill] at heq
  have hvalues := fill_inj (k := Hole.num) (fun j _ hj => values_length hday hday' hj) heq
  have hyear : token "YYYY" <:+: pattern ∨ token "YY" <:+: pattern → day.year = day'.year := by
    rintro (h | h)
    · have hdigits : Nat.toDigits 10 day.year = Nat.toDigits 10 day'.year := hvalues .yyyy (hyyyy h)
      rw [← Nat.ofDigitChars_ten_toDigits (n := day.year), hdigits, Nat.ofDigitChars_ten_toDigits]
    · have hpad : zeroPad 2 (day.year % 100) = zeroPad 2 (day'.year % 100) := hvalues .yy (hyy h)
      have hmod := zeroPad_inj hpad
      omega
  have hmonth : token "MM" <:+: pattern → day.month = day'.month := by
    intro h
    have hpad : zeroPad 2 day.month = zeroPad 2 day'.month := hvalues .mm (hmm h)
    exact zeroPad_inj hpad
  have hdayOf : token "DD" <:+: pattern → day.day = day'.day := by
    intro h
    have hpad : zeroPad 2 day.day = zeroPad 2 day'.day := hvalues .dd (hdd h)
    exact zeroPad_inj hpad
  have hpad : zeroPad (padOf pattern) n = zeroPad (padOf pattern) n' := hvalues .num (hnum hseq)
  have hshown : ¬(¬token "YYYY" <:+: pattern ∧ ¬token "YY" <:+: pattern) →
      token "YYYY" <:+: pattern ∨ token "YY" <:+: pattern := fun h => (not_and_or.1 h).imp not_not.1 not_not.1
  refine ⟨zeroPad_inj hpad, ?_⟩
  rw [period, period]
  split_ifs with h₁ h₂ h₃
  · rfl
  · rw [hyear (hshown h₁), hmonth h₂, hdayOf h₃]
  · rw [hyear (hshown h₁), hmonth h₂]
  · rw [hyear (hshown h₁)]

/-! ## From one draw to a later one -/

/-- A day's period, no finer than `g`, is not after a later day's. -/
theorem take_parts_le {day day' : Day} (h : ¬day'.parts < day.parts) (g : ℕ) :
    ¬day'.parts.take g < day.parts.take g := by
  rw [Day.parts, Day.parts] at *
  match g with
  | 0 => simp
  | 1 | 2 | g + 3 => simp [List.cons_lt_cons_iff] at h ⊢; omega

theorem take_eq_of_take_eq {l l' : List ℕ} {g g' : ℕ} (hle : g' ≤ g) (h : l.take g = l'.take g) :
    l.take g' = l'.take g' := by
  have htake := congrArg (List.take g') h
  rwa [List.take_take, List.take_take, Nat.min_eq_left hle] at htake

theorem mk?_parts (day : Day) : Day.mk? day.year day.month day.day = some day :=
  dif_pos ⟨day.hyear, day.hmonth, day.hday⟩

namespace Seq
variable {seq : Seq} {today stored : Day} {docType : NumberedType}

theorem storedDay_drawn (d : NumberDraw) : (drawn d).storedDay = some d.day := by
  have hyear := d.day.hyear.1
  have hmonth := d.day.hmonth.1
  have hday := d.day.hday.1
  rw [storedDay, drawn]
  simp only [if_neg (by omega : ¬d.day.year = 0), if_neg (by omega : ¬d.day.month = 0),
    if_neg (by omega : ¬d.day.day = 0), mk?_parts]

@[simp] theorem saved_drawn (d : NumberDraw) : (drawn d).saved = d.number + 1 := rfl

/-- The day a number is drawn for is no earlier than the business day and the day last
    used, and is one of the two. -/
theorem numberingDay_or (seq : Seq) (today : Day) : seq.numberingDay today = today ∧ (∀ d, seq.storedDay = some d → ¬today.parts < d.parts) ∨
    seq.storedDay = some (seq.numberingDay today) ∧ today.parts < (seq.numberingDay today).parts := by
  rw [numberingDay]
  cases h : seq.storedDay with
  | none => exact Or.inl ⟨rfl, nofun⟩
  | some stored =>
    simp only
    split_ifs with hlt
    · exact Or.inr ⟨rfl, hlt⟩
    · exact Or.inl ⟨rfl, fun d hd => Option.some.inj hd ▸ hlt⟩

theorem not_numberingDay_lt (today : Day) (h : seq.storedDay = some stored) : ¬(seq.numberingDay today).parts < stored.parts := by
  rcases numberingDay_or seq today with ⟨heq, hle⟩ | ⟨hsome, -⟩
  · rw [heq]
    exact hle stored h
  · obtain rfl := Option.some.inj (h.symm.trans hsome)
    exact lt_irrefl _

end Seq

/-- The counter stands after a draw: its day is in a later period than the draw's, or in
    the same one with a greater number to come. -/
def Past (g : ℕ) (a : NumberDraw) (seq : Seq) : Prop :=
  ∃ stored, seq.storedDay = some stored ∧ (a.day.parts.take g < stored.parts.take g ∨
    a.day.parts.take g = stored.parts.take g ∧ a.number < seq.saved)

/-- A draw comes after another: in a later period, or in the same one with a greater
    number. -/
def Later (g : ℕ) (a b : NumberDraw) : Prop :=
  a.day.parts.take g < b.day.parts.take g ∨ a.day.parts.take g = b.day.parts.take g ∧ a.number < b.number

section
variable {g : ℕ} {a : NumberDraw} {seq seq' : Seq} {docType : NumberedType} {today : Day}

theorem past_drawn (a : NumberDraw) : Past g a (Seq.drawn a) :=
  ⟨a.day, Seq.storedDay_drawn a, Or.inr ⟨rfl, Nat.lt_succ_self _⟩⟩

/-- **The next draw comes after**, where its pattern's period is no finer. -/
theorem later_of_past (h : Past g a seq) (hgrain : grain seq.patternOf ≤ g) : Later g a (seq.draw docType today) := by
  obtain ⟨stored, hstored, hpast⟩ := h
  have hmono := take_parts_le (Seq.not_numberingDay_lt today hstored) g
  show a.day.parts.take g < (seq.numberingDay today).parts.take g ∨
    a.day.parts.take g = (seq.numberingDay today).parts.take g ∧
      a.number < seq.nextNumber seq.patternOf (seq.numberingDay today)
  rcases lt_or_eq_of_le (not_lt.1 hmono) with hlt | heq
  · -- a later period
    rcases hpast with hbefore | ⟨hsame, -⟩
    · exact Or.inl (hbefore.trans hlt)
    · exact Or.inl (hsame ▸ hlt)
  · rcases hpast with hbefore | ⟨hsame, hnumber⟩
    · exact Or.inl (heq ▸ hbefore)
    · -- the same period, so the counter goes on
      refine Or.inr ⟨hsame.trans heq, ?_⟩
      rw [Seq.nextNumber, hstored]
      simp only [period_eq, take_eq_of_take_eq hgrain heq, lt_irrefl, if_false]
      exact hnumber

theorem past_of_later {b : NumberDraw} (h : Later g a b) : Past g a (Seq.drawn b) := by
  refine ⟨b.day, Seq.storedDay_drawn b, h.imp_right fun ⟨hsame, hnumber⟩ => ⟨hsame, ?_⟩⟩
  exact hnumber.trans (Nat.lt_succ_self _)

/-- An edit that sets no next number leaves the day and the number of a counter. -/
theorem edited_ok {edit : SequenceEdit} (h : seq.edited edit today = .ok seq') (hnext : edit.nextNum = none) :
    seq'.storedDay = seq.storedDay ∧ seq'.saved = seq.saved ∧
      (seq'.pattern = seq.pattern ∨ ∃ p, seq'.pattern = some p ∧ validatePattern p = none) := by
  rw [Seq.edited, hnext] at h
  cases hpre : edit.pre <;> cases hpattern : edit.pattern <;> simp only [hpre, hpattern, Seq.withNext] at h
  · obtain rfl := Except.ok.inj h
    exact ⟨rfl, rfl, Or.inl rfl⟩
  · split at h
    · cases h
    · rename_i hvalid
      obtain rfl := Except.ok.inj h
      exact ⟨rfl, rfl, Or.inr ⟨_, rfl, hvalid⟩⟩
  · obtain rfl := Except.ok.inj h
    exact ⟨rfl, rfl, Or.inl rfl⟩
  · split at h
    · cases h
    · rename_i hvalid
      obtain rfl := Except.ok.inj h
      exact ⟨rfl, rfl, Or.inr ⟨_, rfl, hvalid⟩⟩

end

/-! ## Any run -/

/-- The counter's pattern is one it was given by an accepted edit, and the day it last used
    is not after 2099. -/
structure Seq.Sound (seq : Seq) : Prop where
  pattern : ∀ p, seq.pattern = some p → p = [] ∨ validatePattern p = none
  year : ∀ stored, seq.storedDay = some stored → stored.year ≤ 2099

/-- The operation numbers a document on a day between 2000 and 2099, or sets no next number. -/
def NumberingOp.Plain : NumberingOp → Prop
  | .draw _ today => 2000 ≤ today.year ∧ today.year ≤ 2099
  | .edit _ e _ => e.nextNum = none

/-- A number is drawn for a day between 2000 and 2099, under a pattern that shows it. -/
structure NumberDraw.Sound (d : NumberDraw) : Prop where
  year : 2000 ≤ d.day.year ∧ d.day.year ≤ 2099
  pattern : search seqToken d.pattern ≠ none

theorem search_of_validatePattern {p : Text} (h : validatePattern p = none) : search seqToken p ≠ none := by
  rw [validatePattern] at h
  split_ifs at h with hsearch
  exact hsearch

section
variable {docType : NumberedType} {sequences : Sequences} {op : NumberingOp} {seq : Seq} {today : Day}

theorem sound_draw (h : seq.Sound) (htoday : 2000 ≤ today.year ∧ today.year ≤ 2099) : (seq.draw docType today).Sound where
  year := by
    show 2000 ≤ (seq.numberingDay today).year ∧ (seq.numberingDay today).year ≤ 2099
    rcases Seq.numberingDay_or seq today with ⟨heq, -⟩ | ⟨hsome, hlt⟩
    · rwa [heq]
    · have hyear := h.year _ hsome
      rw [Day.parts, Day.parts, List.cons_lt_cons_iff] at hlt
      omega
  pattern := by
    show search seqToken seq.patternOf ≠ none
    rw [Seq.patternOf]
    split
    · rename_i c s hpattern
      rcases h.pattern _ hpattern with hnil | hvalid
      · cases hnil
      · exact search_of_validatePattern hvalid
    · decide

theorem sound_drawn {d : NumberDraw} (h : d.Sound) (hvalid : validatePattern d.pattern = none) : (Seq.drawn d).Sound where
  pattern p hp := Or.inr (Option.some.inj hp ▸ hvalid)
  year stored hstored := by
    rw [Seq.storedDay_drawn] at hstored
    exact Option.some.inj hstored ▸ h.year.2

theorem validatePattern_patternOf (h : seq.Sound) : validatePattern seq.patternOf = none := by
  rw [Seq.patternOf]
  split
  · rename_i c s hpattern
    rcases h.pattern _ hpattern with hnil | hvalid
    · cases hnil
    · exact hvalid
  · decide +kernel

/-- What an operation makes of a type's counter: it draws a number, edits it, or leaves it. -/
theorem step_cases (docType : NumberedType) (sequences : Sequences) (op : NumberingOp) :
    (∃ today, op = .draw docType today ∧
        op.step sequences docType = Seq.drawn ((sequences docType).draw docType today)) ∨
      (∀ today, op ≠ .draw docType today) ∧ (op.step sequences docType = sequences docType ∨
        ∃ e today seq', op = .edit docType e today ∧ (sequences docType).edited e today = .ok seq' ∧
          op.step sequences docType = seq') := by
  cases op with
  | draw t today =>
    by_cases ht : t = docType
    · subst ht
      exact Or.inl ⟨today, rfl, Function.update_self ..⟩
    · refine Or.inr ⟨fun today' h => ht (NumberingOp.draw.inj h).1, Or.inl ?_⟩
      exact Function.update_of_ne (fun h => ht h.symm) ..
  | edit t e today =>
    refine Or.inr ⟨nofun, ?_⟩
    simp only [NumberingOp.step, updateSequence]
    cases hedit : (sequences t).edited e today with
    | error err => exact Or.inl rfl
    | ok seq' =>
      by_cases ht : t = docType
      · subst ht
        exact Or.inr ⟨e, today, seq', rfl, hedit, Function.update_self ..⟩
      · exact Or.inl (Function.update_of_ne (fun h => ht h.symm) ..)

/-- A plain operation keeps a counter sound, and behind the draws made of it. -/
theorem sound_step (h : (sequences docType).Sound) (hop : op.Plain) : (op.step sequences docType).Sound := by
  rcases step_cases docType sequences op with ⟨today, rfl, hstep⟩ | ⟨-, hstep | ⟨e, today, seq', rfl, hedit, hstep⟩⟩
  · rw [hstep]
    exact sound_drawn (sound_draw h hop) (validatePattern_patternOf h)
  · rwa [hstep]
  · obtain ⟨hstored, -, hpattern⟩ := edited_ok hedit hop
    rw [hstep]
    refine ⟨fun p hp => ?_, fun stored hs => h.year stored (hstored ▸ hs)⟩
    rcases hpattern with hsame | ⟨q, hq, hvalid⟩
    · exact h.pattern p (hsame ▸ hp)
    · exact Or.inr (Option.some.inj (hq.symm.trans hp) ▸ hvalid)

end

/-- The references are those of the draws. -/
theorem refsOf_eq (docType : NumberedType) : ∀ (sequences : Sequences) (ops : List NumberingOp),
    refsOf docType sequences ops = (drawsOf docType sequences ops).map NumberDraw.ref
  | _, [] => rfl
  | sequences, op :: ops => by
    cases op with
    | draw t today =>
      simp only [refsOf, drawsOf, refsOf_eq docType _ ops]
      split_ifs with ht
      · subst ht
        rfl
      · rfl
    | edit t e today => exact refsOf_eq docType _ ops

section
variable {docType : NumberedType} {a b : NumberDraw} {g : ℕ} {l mid rest : List NumberDraw}

/-- A run that draws a number of a type makes the draw, with a sound counter, and goes on
    from there. -/
theorem exists_draw : ∀ {sequences : Sequences} {ops : List NumberingOp}, (sequences docType).Sound →
    (∀ op ∈ ops, op.Plain) → drawsOf docType sequences ops = a :: rest →
      a.Sound ∧ ∃ sequences' ops', drawsOf docType sequences' ops' = rest ∧ sequences' docType = Seq.drawn a ∧
        (sequences' docType).Sound ∧ (∀ op ∈ ops', op.Plain) ∧
          ((∀ g b, Past g b (sequences docType) → grain a.pattern ≤ g → Later g b a))
  | _, [], _, _, hdraws => by cases hdraws
  | sequences, op :: ops, hsound, hplain, hdraws => by
    have hop := hplain op List.mem_cons_self
    have hops : ∀ o ∈ ops, o.Plain := fun o ho => hplain o (List.mem_cons_of_mem op ho)
    have hsound' := sound_step hsound hop
    rcases step_cases docType sequences op with ⟨today, rfl, hstep⟩ | ⟨hnone, hstep⟩
    · simp only [drawsOf, if_true] at hdraws
      obtain ⟨rfl, hrest⟩ := List.cons.inj hdraws
      refine ⟨sound_draw hsound hop, _, ops, hrest, hstep, hsound', hops, fun g b hpast hgrain => ?_⟩
      exact later_of_past hpast hgrain
    · have hdraws' : drawsOf docType (op.step sequences) ops = a :: rest := by
        cases op with
        | draw t today =>
          have ht : t ≠ docType := fun h => hnone today (h ▸ rfl)
          simpa [drawsOf, ht] using hdraws
        | edit t e today => exact hdraws
      obtain ⟨ha, sequences', ops', hrest, hdrawn, hsound'', hops', hlater⟩ := exists_draw hsound' hops hdraws'
      refine ⟨ha, sequences', ops', hrest, hdrawn, hsound'', hops', fun g b hpast => hlater g b ?_⟩
      rcases hstep with hsame | ⟨e, today, seq', rfl, hedit, hstep⟩
      · rwa [hsame]
      · obtain ⟨stored, hstored, hpast⟩ := hpast
        obtain ⟨hday, hsaved, -⟩ := edited_ok hedit hop
        rw [hstep]
        exact ⟨stored, hday ▸ hstored, hsaved ▸ hpast⟩

/-- Every draw after one comes after it, as long as no pattern of a finer period is drawn
    under. -/
theorem later_of_draws : ∀ {sequences : Sequences} {ops : List NumberingOp} {mid : List NumberDraw},
    (sequences docType).Sound → (∀ op ∈ ops, op.Plain) → Past g a (sequences docType) →
      drawsOf docType sequences ops = mid ++ b :: rest → (∀ d ∈ mid, grain d.pattern ≤ g) → grain b.pattern ≤ g →
        b.Sound ∧ Later g a b
  | sequences, ops, [], hsound, hplain, hpast, hdraws, _, hb => by
    obtain ⟨hb', -, -, -, -, -, -, hlater⟩ := exists_draw hsound hplain hdraws
    exact ⟨hb', hlater g a hpast hb⟩
  | sequences, ops, d :: mid, hsound, hplain, hpast, hdraws, hmid, hb => by
    obtain ⟨-, sequences', ops', hrest, hdrawn, hsound', hops', hlater⟩ := exists_draw hsound hplain hdraws
    have hpast' : Past g a (sequences' docType) := by
      rw [hdrawn]
      exact past_of_later (hlater g a hpast (hmid d List.mem_cons_self))
    exact later_of_draws hsound' hops' hpast' hrest (fun d' hd' => hmid d' (List.mem_cons_of_mem d hd')) hb

/-- A run goes on after any of its draws. -/
theorem exists_after : ∀ {sequences : Sequences} {ops : List NumberingOp} {l : List NumberDraw},
    (sequences docType).Sound → (∀ op ∈ ops, op.Plain) → drawsOf docType sequences ops = l ++ a :: rest →
      a.Sound ∧ ∃ sequences' ops', drawsOf docType sequences' ops' = rest ∧ sequences' docType = Seq.drawn a ∧
        (sequences' docType).Sound ∧ ∀ op ∈ ops', op.Plain
  | _, _, [], hsound, hplain, hdraws => by
    obtain ⟨ha, sequences', ops', hrest, hdrawn, hsound', hops', -⟩ := exists_draw hsound hplain hdraws
    exact ⟨ha, sequences', ops', hrest, hdrawn, hsound', hops'⟩
  | _, _, d :: l, hsound, hplain, hdraws => by
    obtain ⟨-, sequences', ops', hrest, -, hsound', hops', -⟩ := exists_draw hsound hplain hdraws
    exact exists_after hsound' hops' hrest

/-- **No period and number are drawn twice, and no reference is taken twice under one
    prefix and pattern**, as long as no pattern of a finer period is drawn under between the
    two. -/
theorem numbered_once {sequences : Sequences} {ops : List NumberingOp} (hsound : (sequences docType).Sound)
    (hplain : ∀ op ∈ ops, op.Plain) (hdraws : drawsOf docType sequences ops = l ++ a :: (mid ++ b :: rest))
    (hmid : ∀ d ∈ mid, grain d.pattern ≤ g) (hb : grain b.pattern ≤ g) :
    (a.day.parts.take g, a.number) ≠ (b.day.parts.take g, b.number) ∧
      (a.pre = b.pre → a.pattern = b.pattern → grain b.pattern = g → a.ref ≠ b.ref) := by
  obtain ⟨ha, sequences', ops', hrest, hdrawn, hsound', hops'⟩ := exists_after hsound hplain hdraws
  have hpast : Past g a (sequences' docType) := by
    rw [hdrawn]
    exact past_drawn a
  obtain ⟨hb', hlater⟩ := later_of_draws hsound' hops' hpast hrest hmid hb
  have hne : (a.day.parts.take g, a.number) ≠ (b.day.parts.take g, b.number) := by
    intro heq
    obtain ⟨hperiod, hnumber⟩ := Prod.mk.inj heq
    rcases hlater with hlt | ⟨-, hlt⟩
    · exact absurd hperiod hlt.ne
    · exact absurd hnumber hlt.ne
  refine ⟨hne, fun hpre hpattern hg href => hne ?_⟩
  rw [NumberDraw.ref, NumberDraw.ref, hpre, hpattern] at href
  obtain ⟨hnumber, hperiod⟩ := expandPattern_inj hb'.pattern ha.year hb'.year href
  rw [period_eq, period_eq, hg] at hperiod
  rw [hperiod, hnumber]

end

/-! ## Runs of invoices -/

def newYearsEve : Day := ⟨2026, 12, 31, by decide, by decide, by decide⟩

def newYear : Day := ⟨2027, 1, 1, by decide, by decide, by decide⟩

/-- A company that has numbered nothing. -/
def noSequences : Sequences := fun _ => {}

theorem noSequences_sound (docType : NumberedType) : (noSequences docType).Sound :=
  ⟨nofun, nofun⟩

/-- The operation is not refused. -/
def NumberingOp.Accepted (sequences : Sequences) : NumberingOp → Prop
  | .draw _ _ => True
  | .edit docType e today => Outcome.Succeeds (updateSequence sequences docType e today)

instance (sequences : Sequences) : ∀ op : NumberingOp, Decidable (op.Accepted sequences)
  | .draw _ _ => isTrue trivial
  | .edit docType e today => inferInstanceAs (Decidable (Outcome.Succeeds (updateSequence sequences docType e today)))

instance : ∀ op : NumberingOp, Decidable op.Plain
  | .draw _ today => inferInstanceAs (Decidable (2000 ≤ today.year ∧ today.year ≤ 2099))
  | .edit _ e _ => inferInstanceAs (Decidable (e.nextNum = none))

/-- A pattern of a year's numbers. -/
def yearly : Text := token "PREFIX" ++ '-' :: (token "YYYY" ++ '-' :: token "##")

/-- A pattern of numbers that go on. -/
def unending : Text := token "PREFIX" ++ '-' :: token "##"

/-- Invoices over the new year, with another prefix in between. -/
def prefixOps : List NumberingOp :=
  [.edit .invoice ⟨none, some yearly, none⟩ newYearsEve, .draw .invoice newYearsEve,
    .edit .invoice ⟨some "FAK".toList, none, none⟩ newYear, .draw .invoice newYear,
    .edit .invoice ⟨some "INV".toList, none, none⟩ newYear, .draw .invoice newYear, .draw .bill newYear]

/-- The first invoice of the old year, and the second of the new one. -/
def oldYear : NumberDraw := ⟨.invoice, "INV".toList, yearly, newYearsEve, 1⟩

def renamed : NumberDraw := ⟨.invoice, "FAK".toList, yearly, newYear, 1⟩

def secondInvoice : NumberDraw := ⟨.invoice, "INV".toList, yearly, newYear, 2⟩

theorem numbered_once_invoices : oldYear.ref ≠ secondInvoice.ref :=
  have hdraws : drawsOf .invoice noSequences prefixOps = [] ++ oldYear :: ([renamed] ++ secondInvoice :: []) := by
    decide +kernel
  (numbered_once (noSequences_sound .invoice) (by decide +kernel) hdraws (by decide +kernel) (by decide +kernel)).2 rfl
    rfl rfl

/-- A pattern without a year goes on where it was left, but one of a year's numbers has
    restarted the counter since. -/
def restartOps : List NumberingOp :=
  [.edit .invoice ⟨none, some unending, none⟩ newYearsEve, .draw .invoice newYearsEve, .draw .invoice newYearsEve,
    .edit .invoice ⟨none, some yearly, none⟩ newYearsEve, .draw .invoice newYearsEve, .draw .invoice newYear,
    .edit .invoice ⟨none, some unending, none⟩ newYear, .draw .invoice newYear]

/-- Two patterns whose texts around the number differ. -/
def textOps : List NumberingOp :=
  [.edit .invoice ⟨none, some (token "#" ++ ['2']), none⟩ newYear, .draw .invoice newYear,
    .edit .invoice ⟨none, some ('1' :: token "#"), none⟩ newYear, .draw .invoice newYear]

/-- One reference is taken twice: after a restart under another pattern, and where two
    patterns show different numbers alike. -/
theorem numbered_twice :
    (Runs.EveryStep NumberingOp.step NumberingOp.Accepted noSequences restartOps ∧ (∀ op ∈ restartOps, op.Plain) ∧
        ¬(refsOf .invoice noSequences restartOps).Nodup) ∧
      Runs.EveryStep NumberingOp.step NumberingOp.Accepted noSequences textOps ∧ (∀ op ∈ textOps, op.Plain) ∧
        ¬(refsOf .invoice noSequences textOps).Nodup := by
  refine ⟨⟨by decide +kernel, by decide +kernel, by decide +kernel⟩, by decide +kernel, by decide +kernel,
    by decide +kernel⟩

end Celerp
