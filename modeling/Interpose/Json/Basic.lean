/-!
JSON values as they are written.

A value keeps what a text says before anyone interprets it: numbers as numerals, members in
order and with their repetitions, and a string literal whose escapes name half of a surrogate
pair as a string without text. Deciding what such a value means is left to the documents.
-/

namespace Interpose

/-- A number as it is written: sign, digits before the point, digits after it, exponent. -/
structure Numeral where
  negative : Bool
  whole : List Char
  fraction : Option (List Char)
  exponent : Option (Bool × List Char)
  deriving DecidableEq, Repr

/-- The number that a list of decimal digits denotes. -/
def digitsValue (digits : List Char) : Nat :=
  digits.foldl (fun n c => 10 * n + (c.toNat - '0'.toNat)) 0

namespace Numeral

def ofNat (n : Nat) : Numeral := ⟨false, Nat.toDigits 10 n, none, none⟩

def indexBound : Nat := Nat.pow 2 64

/-- The index that a numeral denotes: no sign, point or exponent, and below the bound. -/
def index? (x : Numeral) : Option Nat :=
  if x.negative || x.fraction.isSome || x.exponent.isSome then none
  else if digitsValue x.whole < indexBound then some (digitsValue x.whole) else none

end Numeral

/-- A JSON value. A string or a key without text, `none`, is one that no sequence of Unicode
scalar values spells. -/
inductive Json where
  | null
  | bool (value : Bool)
  | num (value : Numeral)
  | str (value : Option String)
  | arr (items : List Json)
  | obj (members : List (Option String × Json))
  deriving Repr, Inhabited

namespace Json

def text (s : String) : Json := .str (some s)

def texts (ss : List String) : Json := .arr (ss.map text)

def ofNat (n : Nat) : Json := .num (.ofNat n)

def record (fields : List (String × Json)) : Json := .obj (fields.map fun f => (some f.1, f.2))

/-- A value that may be absent, with `null` for its absence. -/
def nullable {α : Type} (f : α → Json) : Option α → Json
  | none => .null
  | some a => f a

/-- The member of an object with this name; the last one if the name is repeated. -/
def member? (name : String) : Json → Option Json
  | .obj members => (members.reverse.find? (·.1 == some name)).map (·.2)
  | _ => none

end Json

end Interpose
