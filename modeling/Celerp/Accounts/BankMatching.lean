/-
  Bank statement lines matched to book entries (`celerp_accounting/matcher.py`).

  `ruleOf` is the cascade of rules a line and an entry are tried by, and `autoMatch` serves
  the unmatched lines in the order of the statement, each with the first of the entries still
  free that match it by the best rule.

  * `autoMatch_in_order`: no line and no entry is matched twice, and a line is matched by a
    worse rule than an entry satisfies only where that entry went to a line before it.

  What the texts are read as (the day of a date, the upper case of a text, a decimal digit,
  how alike two texts are) is a parameter.
-/
import Celerp.Lib.Turns
import Mathlib.Data.List.Infix
import Mathlib.Data.Rat.Defs
import Mathlib.Algebra.Order.Field.Rat

namespace Celerp

open Turns

/-- What the matcher reads of texts. -/
structure TextReading where
  /-- `_to_date`, as the number of the day -/
  toDate : String → Option ℤ
  upper : String → String
  /-- `\d` -/
  isDigit : Char → Bool
  /-- `_name_similarity` -/
  nameSimilarity : String → String → ℚ

/-- A line of a bank statement. -/
structure StatementLine where
  id : String
  lineDate : String := ""
  description : String := ""
  amount : ℚ := 0
  status : String := "unmatched"
  deriving DecidableEq, Repr

/-- An entry of the books, with its net amount. -/
structure BookEntry where
  id : String
  ts : String := ""
  memo : String := ""
  amount : ℚ := 0
  deriving DecidableEq, Repr

inductive Confidence where
  | high | medium | low
  deriving DecidableEq, Repr

/-- A line matched to an entry. -/
structure AutoMatch where
  lineId : String
  entryId : String
  confidence : Confidence
  deriving DecidableEq, Repr

section
variable (texts : TextReading)

/-- A capital letter of a reference. -/
def isCapital (c : Char) : Bool := 'A' ≤ c && c ≤ 'Z'

/-- The reference at the start of a text, `[A-Z]{2,}-\d+|\d{8,}`, and what follows it. -/
def referenceAt (cs : List Char) : Option (List Char × List Char) :=
  let letters := cs.takeWhile isCapital
  let digits := cs.takeWhile texts.isDigit
  match cs.dropWhile isCapital with
  | '-' :: rest =>
    if 2 ≤ letters.length ∧ rest.takeWhile texts.isDigit ≠ [] then
      some (letters ++ '-' :: rest.takeWhile texts.isDigit, rest.dropWhile texts.isDigit)
    else if 8 ≤ digits.length then some (digits, cs.dropWhile texts.isDigit) else none
  | _ => if 8 ≤ digits.length then some (digits, cs.dropWhile texts.isDigit) else none

/-- The references of a text, from left to right. -/
def referencesFrom : ℕ → List Char → List (List Char)
  | 0, _ => []
  | _, [] => []
  | fuel + 1, c :: cs =>
    match referenceAt texts (c :: cs) with
    | some (token, rest) => token :: referencesFrom fuel rest
    | none => referencesFrom fuel cs

/-- `_looks_like_reference` -/
def looksLikeReference (desc memo : String) : Bool :=
  let tokens := referencesFrom texts (texts.upper memo).toList.length (texts.upper memo).toList
  tokens.any fun token => token <:+: (texts.upper desc).toList

/-- Whole days between a line and an entry, where both have a date. -/
def daysApart (line : StatementLine) (entry : BookEntry) : Option ℤ :=
  match texts.toDate (line.lineDate.take 10).toString, texts.toDate (entry.ts.take 10).toString with
  | some lineDt, some entryDt => some |lineDt - entryDt|
  | _, _ => none

/-- The rule a line matches an entry by, the first that applies. -/
def ruleOf (tolerancePct : ℚ) (dateWindowDays : ℤ) (line : StatementLine) (entry : BookEntry) : Option ℕ :=
  let amtMatch := line.amount = entry.amount
  let days := daysApart texts line entry
  let sim := texts.nameSimilarity line.description entry.memo
  if amtMatch ∧ days = some 0 then some 1
  else if amtMatch ∧ days.any (· ≤ 3) then some 2
  else if amtMatch ∧ days.any (· ≤ dateWindowDays) then some 3
  else if looksLikeReference texts line.description entry.memo then some 4
  else if entry.amount ≠ 0 ∧ |line.amount - entry.amount| / |entry.amount| ≤ tolerancePct ∧ 3 / 5 < sim then
    some 5
  else if amtMatch ∧ 4 / 5 < sim then some 6
  else none

/-- The confidence of a rule. -/
def confidenceOf (rule : ℕ) : Confidence :=
  match rule with
  | 3 | 5 => .medium
  | 6 => .low
  | _ => .high

/-- The lines still to be matched. -/
def openLines (statementLines : List StatementLine) : List StatementLine :=
  statementLines.filter (·.status = "unmatched")

/-- What the loop over the lines matches: each takes the first entry of its best rule among
    those whose id is not used. -/
def matched (tolerancePct : ℚ) (dateWindowDays : ℤ) (statementLines : List StatementLine)
    (bookEntries : List BookEntry) : List (StatementLine × BookEntry × ℕ) :=
  turns (ruleOf texts tolerancePct dateWindowDays) (·.id) bookEntries (openLines statementLines)

/-- `auto_match` -/
def autoMatch (statementLines : List StatementLine) (bookEntries : List BookEntry) (tolerancePct : ℚ)
    (dateWindowDays : ℤ) : List AutoMatch :=
  (matched texts tolerancePct dateWindowDays statementLines bookEntries).map fun m =>
    ⟨m.1.id, m.2.1.id, confidenceOf m.2.2⟩

/-! ## What is matched -/

/-- A line and an entry are matched together. -/
def Together (results : List AutoMatch) (line : StatementLine) (entry : BookEntry) : Prop :=
  ∃ confidence, ⟨line.id, entry.id, confidence⟩ ∈ results

/-- A line is unmatched, or matched by a worse rule than `r`. -/
def LineWorse (tolerancePct : ℚ) (dateWindowDays : ℤ) (bookEntries : List BookEntry) (results : List AutoMatch)
    (line : StatementLine) (r : ℕ) : Prop :=
  ∀ entry ∈ bookEntries, Together results line entry →
    ∀ r', ruleOf texts tolerancePct dateWindowDays line entry = some r' → r < r'

/-- An entry is unmatched, or matched by a worse rule than `r`. -/
def EntryWorse (tolerancePct : ℚ) (dateWindowDays : ℤ) (statementLines : List StatementLine)
    (results : List AutoMatch) (entry : BookEntry) (r : ℕ) : Prop :=
  ∀ line ∈ openLines statementLines, Together results line entry →
    ∀ r', ruleOf texts tolerancePct dateWindowDays line entry = some r' → r < r'

/-- A line and an entry that are not matched together satisfy a better rule than either is
    matched by. -/
structure Blocks (tolerancePct : ℚ) (dateWindowDays : ℤ) (statementLines : List StatementLine)
    (bookEntries : List BookEntry) (results : List AutoMatch) (line : StatementLine) (entry : BookEntry) : Prop where
  isOpen : line ∈ openLines statementLines
  isEntry : entry ∈ bookEntries
  apart : ¬Together results line entry
  better : ∃ r, ruleOf texts tolerancePct dateWindowDays line entry = some r ∧
    LineWorse texts tolerancePct dateWindowDays bookEntries results line r ∧
    EntryWorse texts tolerancePct dateWindowDays statementLines results entry r

end

section
variable {texts : TextReading} {tolerancePct : ℚ} {dateWindowDays : ℤ} {statementLines : List StatementLine}
  {bookEntries : List BookEntry} {line : StatementLine} {entry : BookEntry} {r : ℕ}

theorem together_iff :
    Together (autoMatch texts statementLines bookEntries tolerancePct dateWindowDays) line entry ↔
      ∃ m ∈ matched texts tolerancePct dateWindowDays statementLines bookEntries,
        m.1.id = line.id ∧ m.2.1.id = entry.id := by
  unfold Together autoMatch
  constructor
  · rintro ⟨confidence, hmem⟩
    obtain ⟨m, hm, heq⟩ := List.mem_map.1 hmem
    obtain ⟨hline, hentry, -⟩ := AutoMatch.mk.inj heq
    exact ⟨m, hm, hline, hentry⟩
  · rintro ⟨m, hm, hline, hentry⟩
    exact ⟨_, List.mem_map.2 ⟨m, hm, by rw [hline, hentry]⟩⟩

end

/-- **Bank lines are matched one to one, in the order of the statement**: a line is matched by
    a worse rule than an entry satisfies only where that entry went to a line before it. -/
theorem autoMatch_in_order (texts : TextReading) (tolerancePct : ℚ) (dateWindowDays : ℤ)
    (statementLines : List StatementLine) (bookEntries : List BookEntry)
    (hlines : (statementLines.map (·.id)).Nodup) :
    ((autoMatch texts statementLines bookEntries tolerancePct dateWindowDays).map (·.lineId)).Nodup ∧
    ((autoMatch texts statementLines bookEntries tolerancePct dateWindowDays).map (·.entryId)).Nodup ∧
    ∀ before line after, openLines statementLines = before ++ line :: after → ∀ entry ∈ bookEntries, ∀ r,
      ruleOf texts tolerancePct dateWindowDays line entry = some r →
      LineWorse texts tolerancePct dateWindowDays bookEntries
        (autoMatch texts statementLines bookEntries tolerancePct dateWindowDays) line r →
      ∃ line' ∈ before,
        Together (autoMatch texts statementLines bookEntries tolerancePct dateWindowDays) line' entry := by
  refine ⟨?_, ?_, ?_⟩
  · have hserved : ((matched texts tolerancePct dateWindowDays statementLines bookEntries).map Prod.fst).Sublist
        statementLines := (sublist_turns _ _ _ _).trans List.filter_sublist
    have hids := hserved.map (·.id)
    rw [List.map_map] at hids
    rw [autoMatch, List.map_map]
    exact hlines.sublist hids
  · have hids := nodup_turns (ruleOf texts tolerancePct dateWindowDays) (fun e : BookEntry => e.id) bookEntries
      (openLines statementLines)
    rw [autoMatch, List.map_map]
    exact hids
  · intro before line after hopen entry hentry r hrule hworse
    rcases served_or_taken (ruleOf texts tolerancePct dateWindowDays) (fun e : BookEntry => e.id) bookEntries before
      after hentry hrule with ⟨entry', r', hmem, hle⟩ | ⟨m, hm, hkey⟩
    · -- the line is matched by a rule no worse
      rw [← hopen] at hmem
      obtain ⟨-, hentry', hrule'⟩ := mem_turns _ _ _ hmem
      have hlt := hworse entry' hentry' (together_iff.2 ⟨_, hmem, rfl, rfl⟩) r' hrule'
      omega
    · -- the entry went to a line before it
      have hprefix := turns_prefix (ruleOf texts tolerancePct dateWindowDays) (fun e : BookEntry => e.id) bookEntries
        before (line :: after)
      rw [← hopen] at hprefix
      exact ⟨m.1, (mem_turns _ _ _ hm).1, together_iff.2 ⟨m, hprefix.subset hm, rfl, hkey⟩⟩

/-- Two days of March, and texts that have nothing in common. -/
def marchTexts : TextReading where
  toDate s := if s = "2026-03-01" then some 0 else if s = "2026-03-02" then some 1 else none
  upper := String.toUpper
  isDigit := Char.isDigit
  nameSimilarity _ _ := 0

/-- Two payments of a day each, and one entry, of the second's day. -/
def marchLines : List StatementLine :=
  [{ id := "L1", lineDate := "2026-03-02", amount := 100 }, { id := "L2", lineDate := "2026-03-01", amount := 100 }]

def marchEntry : BookEntry := { id := "je:1", ts := "2026-03-01", memo := "rent", amount := 100 }

/-- What is matched of them. -/
theorem march_matched :
    autoMatch marchTexts marchLines [marchEntry] (2 / 100) 7 = [⟨"L1", "je:1", .high⟩] := by decide +kernel

theorem march_in_order :
    ∃ line' ∈ marchLines.take 1,
      Together (autoMatch marchTexts marchLines [marchEntry] (2 / 100) 7) line' marchEntry := by
  have hordered := autoMatch_in_order marchTexts (2 / 100) 7 marchLines [marchEntry] (by decide)
  refine hordered.2.2 (marchLines.take 1) _ [] rfl marchEntry List.mem_cons_self 1 (by decide +kernel) ?_
  rintro entry - ⟨confidence, hmem⟩
  rw [march_matched] at hmem
  simp at hmem

/-- The entry went to the line of the next day, though the one of its own day, later in the
    statement, is left unmatched. -/
theorem exact_line_unmatched :
    ∃ line ∈ marchLines, Blocks marchTexts (2 / 100) 7 marchLines [marchEntry]
      (autoMatch marchTexts marchLines [marchEntry] (2 / 100) 7) line marchEntry := by
  rw [march_matched]
  refine ⟨_, List.mem_cons_of_mem _ List.mem_cons_self, ?_, List.mem_cons_self, ?_, 1, by decide +kernel, ?_, ?_⟩
  · decide +kernel
  · rintro ⟨confidence, hmem⟩
    simp at hmem
  · rintro entry - ⟨confidence, hmem⟩
    simp at hmem
  · rintro line hline ⟨confidence, hmem⟩ r' hr'
    have hopen : openLines marchLines = marchLines := by decide +kernel
    rw [hopen] at hline
    rcases List.mem_pair.1 hline with rfl | rfl
    · have htwo : ruleOf marchTexts (2 / 100) 7 { id := "L1", lineDate := "2026-03-02", amount := 100 } marchEntry =
          some 2 := by decide +kernel
      obtain rfl : 2 = r' := Option.some.inj (htwo.symm.trans hr')
      exact Nat.one_lt_two
    · simp at hmem

end Celerp
