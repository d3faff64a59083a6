/-
  Document numbers (`celerp_docs/sequences.py`): the reference a document takes from its
  type's counter, and the edits of a counter's prefix, pattern and next number.

  A text is the list of its characters.  A field of a counter that is absent is `none`,
  and a year, month or day that is absent is `0`.
-/
import Celerp.Lib.Outcome
import Celerp.Lib.Template
import Mathlib.Logic.Function.Basic

namespace Celerp

open Template

abbrev Text := List Char

/-- The document types with a numbering of their own. -/
inductive NumberedType where
  | invoice
  | proforma
  | purchaseOrder
  | quotation
  | shippingDoc
  | creditNote
  | debitNote
  | bill
  | memo
  | list
  | consignmentIn
  | subscriptionInvoice
  | subscriptionPo
  | productionOrder
  | audit
  | writeoff
  deriving DecidableEq, Repr

/-- `_PREFIX_BY_DOC_TYPE` -/
def PREFIX_BY_DOC_TYPE : NumberedType → Text
  | .invoice => "INV".toList
  | .proforma => "PF".toList
  | .purchaseOrder => "PO".toList
  | .quotation => "QUO".toList
  | .shippingDoc => "SHIP".toList
  | .creditNote => "CN".toList
  | .debitNote => "SCN".toList
  | .bill => "BILL".toList
  | .memo => "MEMO".toList
  | .list => "LST".toList
  | .consignmentIn => "CI".toList
  | .subscriptionInvoice => "SUBI".toList
  | .subscriptionPo => "SUBP".toList
  | .productionOrder => "PRD".toList
  | .audit => "AUD".toList
  | .writeoff => "WO".toList

/-! ## Days -/

/-- The days of a month. -/
def daysOf (year : ℕ) : ℕ → ℕ
  | 4 | 6 | 9 | 11 => 30
  | 2 => if year % 4 = 0 ∧ (year % 100 ≠ 0 ∨ year % 400 = 0) then 29 else 28
  | _ => 31

/-- `date` -/
structure Day where
  year : ℕ
  month : ℕ
  day : ℕ
  hyear : 1 ≤ year ∧ year ≤ 9999
  hmonth : 1 ≤ month ∧ month ≤ 12
  hday : 1 ≤ day ∧ day ≤ daysOf year month
  deriving DecidableEq

/-- `date(year, month, day)` -/
def Day.mk? (year month day : ℕ) : Option Day :=
  if h : (1 ≤ year ∧ year ≤ 9999) ∧ (1 ≤ month ∧ month ≤ 12) ∧ 1 ≤ day ∧ day ≤ daysOf year month then
    some ⟨year, month, day, h.1, h.2.1, h.2.2⟩
  else none

/-- A day as a tuple, which is how days compare. -/
def Day.parts (day : Day) : List ℕ := [day.year, day.month, day.day]

/-! ## Patterns -/

/-- A token of a pattern by its name. -/
def token (name : String) : Text := '{' :: (name.toList ++ ['}'])

/-- `\{#+\}` -/
def seqToken : Text → Option ℕ
  | '{' :: s =>
    let hashes := s.takeWhile (· = '#')
    if hashes ≠ [] ∧ (s.drop hashes.length).head? = some '}' then some (hashes.length + 2) else none
  | _ => none

/-- `\{(PREFIX|YYYY|YY|MM|DD|#+)\}` -/
def knownToken (s : Text) : Option ℕ :=
  (["PREFIX", "YYYY", "YY", "MM", "DD"].findSome? fun name => literal (token name) s).or (seqToken s)

/-- `\{[^}]+\}` -/
def anyToken : Text → Option ℕ
  | '{' :: s =>
    let name := s.takeWhile (· ≠ '}')
    if name ≠ [] ∧ name.length < s.length then some (name.length + 2) else none
  | _ => none

/-- `DEFAULT_PATTERN` -/
def DEFAULT_PATTERN : Text :=
  token "PREFIX" ++ '-' :: (token "YY" ++ token "MM" ++ '-' :: token "####")

/-- A number with leading zeros up to a width. -/
def zeroPad (width n : ℕ) : Text := List.replicate (width - (Nat.toDigits 10 n).length) '0' ++ Nat.toDigits 10 n

/-- The width of a pattern's sequence token. -/
def padOf (pattern : Text) : ℕ :=
  match search seqToken pattern with
  | some n => n - 2
  | none => 2

/-- `_expand_pattern` -/
def expandPattern (pattern pre : Text) (day : Day) (seqNum : ℕ) : Text :=
  let result := sub (literal (token "PREFIX")) pre 0 pattern
  let result := sub (literal (token "YYYY")) (Nat.toDigits 10 day.year) 0 result
  let result := sub (literal (token "YY")) (zeroPad 2 (day.year % 100)) 0 result
  let result := sub (literal (token "MM")) (zeroPad 2 day.month) 0 result
  let result := sub (literal (token "DD")) (zeroPad 2 day.day) 0 result
  sub seqToken (zeroPad (padOf pattern) seqNum) 0 result

/-- `_period`: the numbering period a day falls in, as far as the pattern can tell
    periods apart. -/
def period (pattern : Text) (day : Day) : List ℕ :=
  if ¬token "YYYY" <:+: pattern ∧ ¬token "YY" <:+: pattern then []
  else if ¬token "MM" <:+: pattern then [day.year]
  else if ¬token "DD" <:+: pattern then [day.year, day.month]
  else [day.year, day.month, day.day]

/-- `validate_pattern` -/
def validatePattern (pattern : Text) : Option String :=
  if search seqToken pattern = none then
    some "Pattern must contain a sequence token like \x7b##\x7d or \x7b####\x7d"
  else
    let cleaned := sub knownToken [] 0 pattern
    let unknown := findAll anyToken 0 cleaned
    if unknown ≠ [] then some ("Unknown tokens: " ++ ", ".intercalate (unknown.map String.ofList)) else none

/-! ## Counters -/

/-- The counter of a document type. -/
structure Seq where
  pre : Option Text := none
  pattern : Option Text := none
  next : Option ℕ := none
  year : ℕ := 0
  month : ℕ := 0
  day : ℕ := 0
  deriving DecidableEq, Repr

namespace Seq
variable (seq : Seq)

/-- The prefix in force. -/
def prefixOf (docType : NumberedType) : Text :=
  match seq.pre with
  | some (c :: s) => c :: s
  | _ => PREFIX_BY_DOC_TYPE docType

/-- The pattern in force. -/
def patternOf : Text :=
  match seq.pattern with
  | some (c :: s) => c :: s
  | _ => DEFAULT_PATTERN

/-- `_stored_day`: the day the counter last numbered a document. -/
def storedDay : Option Day :=
  if seq.year = 0 then none
  else Day.mk? seq.year (if seq.month = 0 then 1 else seq.month) (if seq.day = 0 then 1 else seq.day)

/-- `_numbering_day`: the business day, never earlier than the day last used. -/
def numberingDay (today : Day) : Day :=
  match seq.storedDay with
  | some stored => if today.parts < stored.parts then stored else today
  | none => today

/-- The saved next number. -/
def saved : ℕ :=
  match seq.next with
  | some 0 | none => 1
  | some n => n

/-- `_next_number`: `1` once the day is in a later period than the last numbered document,
    else the saved next number. -/
def nextNumber (pattern : Text) (day : Day) : ℕ :=
  match seq.storedDay with
  | some stored => if period pattern stored < period pattern day then 1 else seq.saved
  | none => seq.saved

end Seq

/-- The counters of a company, `settings["sequences"]`. -/
abbrev Sequences := NumberedType → Seq

/-- A number drawn, with what it is drawn from. -/
structure NumberDraw where
  docType : NumberedType
  pre : Text
  pattern : Text
  day : Day
  number : ℕ
  deriving DecidableEq

/-- The reference a document takes. -/
def NumberDraw.ref (d : NumberDraw) : Text := expandPattern d.pattern d.pre d.day d.number

/-- The draw of a counter on a day. -/
def Seq.draw (seq : Seq) (docType : NumberedType) (today : Day) : NumberDraw :=
  let day := seq.numberingDay today
  ⟨docType, seq.prefixOf docType, seq.patternOf, day, seq.nextNumber seq.patternOf day⟩

/-- The counter after a draw. -/
def Seq.drawn (d : NumberDraw) : Seq :=
  ⟨some d.pre, some d.pattern, some (d.number + 1), d.day.year, d.day.month, d.day.day⟩

/-- `next_doc_ref` -/
def nextDocRef (sequences : Sequences) (docType : NumberedType) (today : Day) : Text × Sequences :=
  let d := (sequences docType).draw docType today
  (d.ref, Function.update sequences docType (Seq.drawn d))

/-- An edit of a counter; what is not given is left alone. -/
structure SequenceEdit where
  pre : Option Text := none
  pattern : Option Text := none
  nextNum : Option ℤ := none
  deriving DecidableEq, Repr

/-- The counter after its next number is set, in the period of the day. -/
def Seq.withNext (seq : Seq) (today : Day) : Option ℤ → Seq
  | none => seq
  | some n =>
    let day := seq.numberingDay today
    { seq with next := some (max 1 n).toNat, year := day.year, month := day.month, day := day.day }

/-- The counter after an edit. -/
def Seq.edited (seq : Seq) (edit : SequenceEdit) (today : Day) : Except String Seq :=
  let seq := match edit.pre with
    | some pre => { seq with pre := some pre }
    | none => seq
  match edit.pattern with
  | some pattern =>
    match validatePattern pattern with
    | some err => .error err
    | none => .ok ({ seq with pattern := some pattern }.withNext today edit.nextNum)
  | none => .ok (seq.withNext today edit.nextNum)

/-- `update_sequence` -/
def updateSequence (sequences : Sequences) (docType : NumberedType) (edit : SequenceEdit) (today : Day) :
    Except String Sequences :=
  ((sequences docType).edited edit today).map (Function.update sequences docType)

/-! ## Runs -/

/-- A document numbered, or a counter edited, on a business day. -/
inductive NumberingOp where
  | draw (docType : NumberedType) (today : Day)
  | edit (docType : NumberedType) (edit : SequenceEdit) (today : Day)
  deriving DecidableEq

/-- The counters after an operation: as they were where an edit is refused. -/
def NumberingOp.step (sequences : Sequences) : NumberingOp → Sequences
  | .draw docType today => (nextDocRef sequences docType today).2
  | .edit docType e today =>
    match updateSequence sequences docType e today with
    | .ok sequences' => sequences'
    | .error _ => sequences

/-- The draws a run makes of a type's counter, in order. -/
def drawsOf (docType : NumberedType) : Sequences → List NumberingOp → List NumberDraw
  | _, [] => []
  | sequences, op :: ops =>
    let rest := drawsOf docType (op.step sequences) ops
    match op with
    | .draw t today => if t = docType then (sequences docType).draw docType today :: rest else rest
    | .edit _ _ _ => rest

/-- The references a run gives documents of a type, in order. -/
def refsOf (docType : NumberedType) : Sequences → List NumberingOp → List Text
  | _, [] => []
  | sequences, op :: ops =>
    let rest := refsOf docType (op.step sequences) ops
    match op with
    | .draw t today => if t = docType then (nextDocRef sequences t today).1 :: rest else rest
    | .edit _ _ _ => rest

end Celerp
