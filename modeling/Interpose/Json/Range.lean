import Interpose.Json.Basic

/-!
Which numerals have a finite value in double precision.

A numeral is read as a significand of at most 64 bits and a power of ten, each rounded to 53
bits, and their product is rounded once more; the numeral is out of range when a product or a
power leaves the finite doubles.
-/

namespace Interpose.Numeral

/-- `n` rounded to 53 significant bits, a tie going to the even neighbour. -/
def round53 (n : Nat) : Nat :=
  let shift := n.log2 + 1 - 53
  let unit := Nat.pow 2 shift
  let kept := n / unit
  let rest := n % unit
  let up := 2 * rest > unit || (2 * rest == unit && kept % 2 == 1)
  (if up then kept + 1 else kept) * unit

/-- The digits that still fit into 64 bits, read as a number, and how many digits did not. -/
def significand : (read : Nat) → (digits : List Char) → Nat × Nat
  | n, [] => (n, 0)
  | n, c :: rest =>
    let next := 10 * n + (c.toNat - '0'.toNat)
    if next < 2 ^ 64 then significand next rest else (n, rest.length + 1)

/-- The significand and the power of ten that belong to a numeral. Digits of the whole part
that do not fit count into the power; those of the fraction that do not fit are dropped. -/
def scaled (x : Numeral) : Nat × Int :=
  let (whole, dropped) := significand 0 x.whole
  let fraction := x.fraction.getD []
  let (value, left) := significand whole fraction
  let kept := fraction.length - left
  let power := match x.exponent with
    | none => 0
    | some (true, digits) => -(digitsValue digits : Int)
    | some (false, digits) => (digitsValue digits : Int)
  (value, (dropped : Int) - kept + power)

/-- The largest power of ten among the finite doubles. -/
def largestPower : Nat := 308

/-- The numeral has a finite value in double precision. -/
def isFinite (x : Numeral) : Bool :=
  let (value, power) := x.scaled
  match power with
  | .negSucc _ => true
  | .ofNat p => value == 0 ||
      (decide (p ≤ largestPower) && decide (round53 (round53 value * round53 (Nat.pow 10 p)) <
        Nat.pow 2 1024))

end Interpose.Numeral
