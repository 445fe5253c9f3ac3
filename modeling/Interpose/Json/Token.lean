import Interpose.Json.Basic

/-!
The tokens of a JSON text.

A text is cut into brackets, separators, literals, numerals and strings; blanks between tokens
are skipped. A string literal is read as a list of code units first, so that an escaped
surrogate pair is joined in a second step and half of a pair can be told from a character.
-/

namespace Interpose

inductive Token where
  | openArray
  | closeArray
  | openObject
  | closeObject
  | comma
  | colon
  | null
  | bool (value : Bool)
  | num (value : Numeral)
  | str (value : Option String)
  deriving Repr

namespace Token

/-- The characters that may stand between tokens. -/
def isBlank (c : Char) : Bool := c == ' ' || c == '\t' || c == '\n' || c == '\r'

/-! ### Strings -/

def hexDigit? (c : Char) : Option Nat :=
  if '0' ≤ c ∧ c ≤ '9' then some (c.toNat - '0'.toNat)
  else if 'a' ≤ c ∧ c ≤ 'f' then some (c.toNat - 'a'.toNat + 10)
  else if 'A' ≤ c ∧ c ≤ 'F' then some (c.toNat - 'A'.toNat + 10)
  else none

/-- The code unit written by four hexadecimal digits. -/
def hexUnit? (a b c d : Char) : Option Nat := do
  return (((← hexDigit? a) * 16 + (← hexDigit? b)) * 16 + (← hexDigit? c)) * 16 + (← hexDigit? d)

/-- The character that a one-letter escape stands for. -/
def shortEscape? (c : Char) : Option Char :=
  match c with
  | '"' => some '"'
  | '\\' => some '\\'
  | '/' => some '/'
  | 'b' => some '\x08'
  | 'f' => some '\x0c'
  | 'n' => some '\n'
  | 'r' => some '\r'
  | 't' => some '\t'
  | _ => none

/-- Reads a string literal after its opening quote: its code units, added to those in `units`
(last first), and the text after the closing quote. A character stands for its own number. -/
def literal? (units : List Nat) : List Char → Option (List Nat × List Char)
  | [] => none
  | '"' :: rest => some (units.reverse, rest)
  | '\\' :: 'u' :: a :: b :: c :: d :: rest =>
    match hexUnit? a b c d with
    | none => none
    | some unit => literal? (unit :: units) rest
  | '\\' :: c :: rest =>
    match shortEscape? c with
    | none => none
    | some x => literal? (x.toNat :: units) rest
  | c :: rest => if c.toNat < 0x20 then none else literal? (c.toNat :: units) rest

def isHighSurrogate (n : Nat) : Bool := decide (0xD800 ≤ n ∧ n < 0xDC00)

def isLowSurrogate (n : Nat) : Bool := decide (0xDC00 ≤ n ∧ n < 0xE000)

/-- The text of a list of code units, added to `done` (last first); none if half of a
surrogate pair stands alone. -/
def unitsText? (done : List Char) : List Nat → Option String
  | [] => some (String.ofList done.reverse)
  | [n] => if isHighSurrogate n || isLowSurrogate n then none
    else some (String.ofList (Char.ofNat n :: done).reverse)
  | n :: m :: rest =>
    if isLowSurrogate n then none
    else if isHighSurrogate n then
      if isLowSurrogate m then
        unitsText? (Char.ofNat (0x10000 + (n - 0xD800) * 0x400 + (m - 0xDC00)) :: done) rest
      else none
    else unitsText? (Char.ofNat n :: done) (m :: rest)

/-! ### Numerals -/

def isDigit (c : Char) : Bool := decide ('0' ≤ c ∧ c ≤ '9')

/-- The digits at the front, at least one. -/
def digits? (cs : List Char) : Option (List Char × List Char) :=
  match cs.takeWhile isDigit with
  | [] => none
  | ds => some (ds, cs.dropWhile isDigit)

/-- The fraction at the front, if there is one: a point and digits. -/
def fraction? : List Char → Option (Option (List Char) × List Char)
  | '.' :: rest => (digits? rest).map fun (ds, rest) => (some ds, rest)
  | cs => some (none, cs)

/-- The exponent at the front, if there is one: a letter, a sign that may be left out, digits. -/
def exponent? : List Char → Option (Option (Bool × List Char) × List Char)
  | c :: rest =>
    if c == 'e' || c == 'E' then
      match rest with
      | '-' :: rest => (digits? rest).map fun (ds, rest) => (some (true, ds), rest)
      | '+' :: rest => (digits? rest).map fun (ds, rest) => (some (false, ds), rest)
      | rest => (digits? rest).map fun (ds, rest) => (some (false, ds), rest)
    else some (none, c :: rest)
  | [] => some (none, [])

/-- The numeral at the front, after its sign. No digit follows a leading zero. -/
def unsigned? (negative : Bool) (cs : List Char) : Option (Numeral × List Char) := do
  let (whole, cs) ← digits? cs
  if whole.head? = some '0' ∧ whole.length ≠ 1 then none
  let (fraction, cs) ← fraction? cs
  let (exponent, cs) ← exponent? cs
  return (⟨negative, whole, fraction, exponent⟩, cs)

/-! ### Tokens -/

/-- The token at the front of a text that starts with `c`, and what follows it. -/
def next? (c : Char) (rest : List Char) : Option (Token × List Char) :=
  match c with
  | '[' => some (.openArray, rest)
  | ']' => some (.closeArray, rest)
  | '{' => some (.openObject, rest)
  | '}' => some (.closeObject, rest)
  | ',' => some (.comma, rest)
  | ':' => some (.colon, rest)
  | '"' => (literal? [] rest).map fun (units, rest) => (.str (unitsText? [] units), rest)
  | 'n' => match rest with
    | 'u' :: 'l' :: 'l' :: rest => some (.null, rest)
    | _ => none
  | 't' => match rest with
    | 'r' :: 'u' :: 'e' :: rest => some (.bool true, rest)
    | _ => none
  | 'f' => match rest with
    | 'a' :: 'l' :: 's' :: 'e' :: rest => some (.bool false, rest)
    | _ => none
  | '-' => (unsigned? true rest).map fun (x, rest) => (.num x, rest)
  | c => (unsigned? false (c :: rest)).map fun (x, rest) => (.num x, rest)

/-! ### Every token takes a part of the text -/

theorem literal?_length {units : List Nat} {cs : List Char} {r : List Nat × List Char}
    (h : literal? units cs = some r) : r.2.length < cs.length := by
  fun_induction literal? units cs with
  | case1 => simp at h
  | case2 => simp at h; subst h; simp
  | case3 => simp at h
  | case4 _ _ _ _ _ _ _ _ ih => have := ih h; simp; omega
  | case5 => simp at h
  | case6 _ _ _ _ _ _ ih => have := ih h; simp; omega
  | case7 => simp at h
  | case8 _ _ _ _ _ _ _ ih => have := ih h; simp; omega

theorem length_dropWhile_le (p : Char → Bool) (cs : List Char) :
    (cs.dropWhile p).length ≤ cs.length :=
  (List.dropWhile_suffix p).length_le

theorem digits?_length {cs : List Char} {r : List Char × List Char} (h : digits? cs = some r) :
    r.2.length < cs.length := by
  unfold digits? at h
  split at h
  · simp at h
  · rename_i hd
    simp at h
    subst h
    cases cs with
    | nil => simp at hd
    | cons c cs =>
      by_cases hc : isDigit c
      · simpa [hc, Nat.lt_succ_iff] using length_dropWhile_le isDigit cs
      · simp [hc] at hd

theorem fraction?_length {cs : List Char} {r : Option (List Char) × List Char}
    (h : fraction? cs = some r) : r.2.length ≤ cs.length := by
  unfold fraction? at h
  split at h
  · obtain ⟨q, hq, rfl⟩ := Option.map_eq_some_iff.1 h
    have := digits?_length hq
    simp
    omega
  · simp at h; subst h; simp

theorem exponent?_length {cs : List Char} {r : Option (Bool × List Char) × List Char}
    (h : exponent? cs = some r) : r.2.length ≤ cs.length := by
  unfold exponent? at h
  split at h
  · split at h
    · split at h <;>
      · obtain ⟨q, hq, rfl⟩ := Option.map_eq_some_iff.1 h
        have := digits?_length hq
        simp
        omega
    · simp at h; subst h; simp
  · simp at h; subst h; simp

theorem unsigned?_length {negative : Bool} {cs : List Char} {r : Numeral × List Char}
    (h : unsigned? negative cs = some r) : r.2.length < cs.length := by
  simp only [unsigned?, Option.bind_eq_bind, Option.bind_eq_some_iff] at h
  obtain ⟨d, hd, h⟩ := h
  have h1 := digits?_length hd
  split at h
  · simp at h
  · simp only [Option.pure_def, Option.bind_eq_some_iff] at h
    obtain ⟨f, hf, e, he, h⟩ := h
    have h2 := fraction?_length hf
    have h3 := exponent?_length he
    simp only [Option.some.injEq] at h
    subst h
    simp only
    omega

theorem next?_length {c : Char} {rest : List Char} {r : Token × List Char}
    (h : next? c rest = some r) : r.2.length ≤ rest.length := by
  unfold next? at h
  split at h
  case h_7 =>
    obtain ⟨q, hq, rfl⟩ := Option.map_eq_some_iff.1 h
    have := literal?_length hq
    simp
    omega
  case h_11 =>
    obtain ⟨q, hq, rfl⟩ := Option.map_eq_some_iff.1 h
    have := unsigned?_length hq
    simp
    omega
  case h_12 =>
    obtain ⟨q, hq, rfl⟩ := Option.map_eq_some_iff.1 h
    have := unsigned?_length hq
    simp at *
    omega
  all_goals first
    | (simp at h; subst h; simp)
    | (split at h <;> simp at h; subst h; simp; omega)

/-- The tokens of a text, added to `done` (last first); none if the text cannot be cut. -/
def scan? (done : List Token) : List Char → Option (List Token)
  | [] => some done.reverse
  | c :: rest =>
    if isBlank c then scan? done rest
    else match _h : next? c rest with
      | none => none
      | some (t, rest') => scan? (t :: done) rest'
termination_by cs => cs.length
decreasing_by
  · simp
  · have := next?_length _h
    simp at *
    omega

end Token

end Interpose
