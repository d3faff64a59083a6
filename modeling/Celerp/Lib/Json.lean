/-
  JSON values, and what the built-in functions of Python do with them.

  A text's readings (as a number, in lower case, without the blanks around it) are a
  parameter, `Texts`; everything else is computed.  What raises says what it raises
  (`Raised`).

  * `truthy`, `orElse`: what counts as true, and `v or d`;
  * `same`: equality, with true and false the numbers one and zero, and objects whatever
    the order of their keys;
  * `items?`: what iterating over a value gives, and `dictOf` the dictionary made of one.
-/
import Celerp.Lib.Dicts
import Mathlib.Data.Rat.Defs

/-- A JSON value. -/
inductive Json where
  | null
  | bool (b : Bool)
  | num (q : ℚ)
  | str (s : String)
  | arr (items : List Json)
  | obj (fields : List (String × Json))

namespace Json

/-- A dictionary of JSON values. -/
abbrev Dict := List (String × Json)

/-- What is raised. -/
inductive Raised where
  | keyError (key : String)
  | typeError
  | attributeError
  | valueError (message : String)
  deriving DecidableEq, Repr

/-- How texts are read. -/
structure Texts where
  /-- `float` -/
  float : String → Option ℚ
  /-- `str` of a value that is no text -/
  str : Json → String
  lower : String → String
  strip : String → String
  casefold : String → String

def isNull : Json → Bool
  | .null => true
  | _ => false

/-- Whether a value counts as true. -/
def truthy : Json → Bool
  | .null => false
  | .bool b => b
  | .num q => q ≠ 0
  | .str s => s ≠ ""
  | .arr items => !items.isEmpty
  | .obj fields => !fields.isEmpty

/-- `v or d` -/
def orElse (v d : Json) : Json := if v.truthy then v else d

/-- The number a value is, if it is one. -/
def number? : Json → Option ℚ
  | .bool b => some (if b then 1 else 0)
  | .num q => some q
  | _ => none

mutual
/-- `v == w` -/
def same : Json → Json → Bool
  | .null, w => w.isNull
  | .str s, .str t => s = t
  | .arr items, .arr items' => sameItems items items'
  | .obj fields, .obj fields' => fields.length = fields'.length && sameFields fields fields'
  | .bool b, w => w.number? = some (if b then 1 else 0)
  | .num q, w => w.number? = some q
  | _, _ => false

def sameItems : List Json → List Json → Bool
  | [], [] => true
  | v :: items, w :: items' => same v w && sameItems items items'
  | _, _ => false

def sameFields : List (String × Json) → List (String × Json) → Bool
  | [], _ => true
  | (k, v) :: fields, fields' =>
    (match Dicts.get? fields' k with
      | some w => same v w
      | none => false) && sameFields fields fields'
end

/-- `v in (None, "")` -/
def isBlank : Json → Bool
  | .null => true
  | .str s => s = ""
  | _ => false

/-- `d.get(k)` -/
def get (d : Dict) (k : String) : Json := (Dicts.get? d k).getD .null

/-- `d[k]` -/
def item (d : Dict) (k : String) : Except Raised Json :=
  match Dicts.get? d k with
  | some v => .ok v
  | none => .error (.keyError k)

/-- The keys and values of an object: what is asked of its methods. -/
def fieldsOf : Json → Except Raised Dict
  | .obj fields => .ok fields
  | _ => .error .attributeError

/-- What iterating over a value gives. -/
def items? : Json → Option (List Json)
  | .arr items => some items
  | .obj fields => some (fields.map fun f => .str f.1)
  | .str s => some (s.toList.map fun c => .str (String.singleton c))
  | _ => none

/-- `for x in v` -/
def iterate (v : Json) : Except Raised (List Json) :=
  match v.items? with
  | some items => .ok items
  | none => .error .typeError

section
variable (T : Texts)

/-- `str(v)` -/
def text : Json → String
  | .str s => s
  | v => T.str v

/-- `float(v)` -/
def float : Json → Except Raised ℚ
  | .num q => .ok q
  | .bool b => .ok (if b then 1 else 0)
  | .str s =>
    match T.float s with
    | some q => .ok q
    | none => .error (.valueError s)
  | _ => .error .typeError

/-- `float(v or 0)` -/
def floatOrZero (v : Json) : Except Raised ℚ := float T (v.orElse (.num 0))

/-- The key a value is in a dictionary, as JSON writes it. -/
def keyOf : Json → Except Raised String
  | .str s => .ok s
  | .null => .ok "null"
  | .bool b => .ok (if b then "true" else "false")
  | .num q => .ok (T.str (.num q))
  | _ => .error .typeError

/-- A key and its value, from what holds the two. -/
def pairOf (v : Json) : Except Raised (String × Json) := do
  match ← v.iterate with
  | [k, w] => .ok (← keyOf T k, w)
  | _ => .error (.valueError "dictionary update sequence element has the wrong length; 2 is required")

/-- `dict(v)` -/
def dictOf : Json → Except Raised Dict
  | .obj fields => .ok fields
  | v => do
    let items ← v.iterate
    items.foldlM (fun d w => do
      let f ← pairOf T w
      .ok (Dicts.set d f.1 f.2)) []

end

end Json
