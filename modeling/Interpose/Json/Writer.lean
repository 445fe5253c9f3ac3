import Interpose.Json.Basic

/-!
Writing JSON, compact and indented.

Strings keep every character but quotes, backslashes and control characters. The compact form
has no blanks; the indented form puts each item and member on a line of its own, two spaces
deeper than its container, and keeps empty containers on one line.
-/

namespace Interpose.Json

/-! ### Scalars -/

/-- The escape of a control character that has no letter: four hexadecimal digits. -/
def hexEscape (c : Char) : List Char :=
  ['\\', 'u', '0', '0', Nat.digitChar (c.toNat / 16), Nat.digitChar (c.toNat % 16)]

def escape (c : Char) : List Char :=
  match c with
  | '"' => ['\\', '"']
  | '\\' => ['\\', '\\']
  | '\x08' => ['\\', 'b']
  | '\x0c' => ['\\', 'f']
  | '\n' => ['\\', 'n']
  | '\r' => ['\\', 'r']
  | '\t' => ['\\', 't']
  | c => if c.toNat < 0x20 then hexEscape c else [c]

/-- A string between quotes. A string without text is written as the empty string. -/
def quoted (s : Option String) : List Char :=
  '"' :: ((s.getD "").toList.flatMap escape ++ ['"'])

end Interpose.Json

namespace Interpose.Numeral

def written (x : Numeral) : List Char :=
  (if x.negative then ['-'] else []) ++ x.whole
    ++ (match x.fraction with | none => [] | some ds => '.' :: ds)
    ++ (match x.exponent with | none => [] | some (neg, ds) => 'e' :: (if neg then '-' :: ds else ds))

end Interpose.Numeral

namespace Interpose.Json

def boolName (b : Bool) : List Char := if b then "true".toList else "false".toList

/-! ### Compact form -/

mutual

def compactChars : Json → List Char
  | .null => "null".toList
  | .bool b => boolName b
  | .num x => x.written
  | .str s => quoted s
  | .arr [] => ['[', ']']
  | .arr (v :: vs) => '[' :: (compactChars v ++ compactItems vs)
  | .obj [] => ['{', '}']
  | .obj ((k, v) :: ms) => '{' :: (quoted k ++ ':' :: (compactChars v ++ compactMembers ms))

/-- The items after the first, and the closing bracket. -/
def compactItems : List Json → List Char
  | [] => [']']
  | v :: vs => ',' :: (compactChars v ++ compactItems vs)

/-- The members after the first, and the closing brace. -/
def compactMembers : List (Option String × Json) → List Char
  | [] => ['}']
  | (k, v) :: ms => ',' :: (quoted k ++ ':' :: (compactChars v ++ compactMembers ms))

end

def compact (v : Json) : String := String.ofList v.compactChars

/-! ### Indented form -/

def lineBreak (depth : Nat) : List Char := '\n' :: List.replicate (2 * depth) ' '

mutual

/-- The indented text of a value whose container stands at the given depth. -/
def prettyChars (depth : Nat) : Json → List Char
  | .null => "null".toList
  | .bool b => boolName b
  | .num x => x.written
  | .str s => quoted s
  | .arr [] => ['[', ']']
  | .arr (v :: vs) =>
    '[' :: (lineBreak (depth + 1) ++ (prettyChars (depth + 1) v ++ prettyItems depth vs))
  | .obj [] => ['{', '}']
  | .obj ((k, v) :: ms) =>
    '{' :: (lineBreak (depth + 1) ++ (quoted k ++ ':' :: ' ' ::
      (prettyChars (depth + 1) v ++ prettyMembers depth ms)))

/-- The items after the first, and the closing bracket on a line of its own. -/
def prettyItems (depth : Nat) : List Json → List Char
  | [] => lineBreak depth ++ [']']
  | v :: vs =>
    ',' :: (lineBreak (depth + 1) ++ (prettyChars (depth + 1) v ++ prettyItems depth vs))

/-- The members after the first, and the closing brace on a line of its own. -/
def prettyMembers (depth : Nat) : List (Option String × Json) → List Char
  | [] => lineBreak depth ++ ['}']
  | (k, v) :: ms =>
    ',' :: (lineBreak (depth + 1) ++ (quoted k ++ ':' :: ' ' ::
      (prettyChars (depth + 1) v ++ prettyMembers depth ms)))

end

def pretty (v : Json) : String := String.ofList (v.prettyChars 0)

end Interpose.Json
