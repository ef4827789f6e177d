/-
**Decimal numerals: reading them and rounding them to doubles.**

A numeral has an optional sign, digits with an optional point among them, and an optional power of
ten.  It denotes an exact decimal number; the double it stands for is the nearest one, a tie going
to the even neighbour.

Main definitions:

* `Decimal` — a sign, a whole number of digits and a power of ten;
* `Decimal.read?` — the decimal that a numeral writes;
* `Decimal.toDouble` — the double nearest to a decimal.
-/
import Waymark.Number.Double
import Waymark.Text.Pattern

set_option relaxedAutoImplicit false
set_option autoImplicit false

namespace Waymark

/-- The number `± digits · 10 ^ exponent`. -/
structure Decimal where
  /-- Whether a minus sign is written. -/
  negative : Bool
  /-- All written digits as one number. -/
  digits : Nat
  /-- The power of ten that belongs to the last written digit. -/
  exponent : Int
deriving DecidableEq

namespace Decimal

/-! ### The nearest double -/

/-- The magnitude nearest to `digits · 10 ^ exponent`.  From `10 ^ 400` on everything is infinite,
and what lies below `10 ^ (-400)` is nearest to zero, so powers of ten outside those bounds need
not be formed. -/
def magnitude (digits : Nat) (exponent : Int) : Magnitude :=
  if digits = 0 then Magnitude.zero
  else if 400 < exponent then Magnitude.infinity
  else if exponent < -(400 + (digits.log2 : Int)) then Magnitude.zero
  else if 0 ≤ exponent then Magnitude.ofRatio (digits * Nat.pow 10 exponent.toNat) 1
  else Magnitude.ofRatio digits (Nat.pow 10 (-exponent).toNat)

/-- The double nearest to a decimal. -/
def toDouble (d : Decimal) : Double :=
  .signed d.negative (magnitude d.digits d.exponent)

/-! ### Numerals -/

/-- The optional sign at the start of a numeral, and the text after it. -/
def readSign (cs : List Char) : Bool × List Char :=
  match cs with
  | '-' :: rest => (true, rest)
  | '+' :: rest => (false, rest)
  | rest => (false, rest)

/-- The fraction after the whole digits: the digits behind a point, if there is one, and the text
after them. -/
def readFraction (cs : List Char) : List Char × List Char :=
  match cs with
  | '.' :: rest => (rest.takeWhile Char.isDigit, rest.dropWhile Char.isDigit)
  | rest => ([], rest)

/-- The power of ten that ends a numeral; it must reach the end of the text. -/
def readPower? (cs : List Char) : Option Int :=
  match cs with
  | [] => some 0
  | c :: rest =>
    if c = 'e' ∨ c = 'E' then
      let (negative, rest) := readSign rest
      match Text.digits? rest with
      | some (ds, []) =>
        let n : Int := Text.digitsValue ds
        some (if negative then -n else n)
      | _ => none
    else none

/-- The decimal that a numeral writes.  There is a digit before or behind the point. -/
def read? (cs : List Char) : Option Decimal :=
  let (negative, cs) := readSign cs
  let whole := cs.takeWhile Char.isDigit
  let (fraction, rest) := readFraction (cs.dropWhile Char.isDigit)
  match whole ++ fraction with
  | [] => none
  | ds =>
    match readPower? rest with
    | none => none
    | some power => some ⟨negative, Text.digitsValue ds, power - fraction.length⟩

end Decimal

/-- The double that a numeral stands for. -/
def Double.read? (cs : List Char) : Option Double :=
  (Decimal.read? cs).map Decimal.toDouble

end Waymark
