/-
**The shortest decimal text of a double.**

A double is written with the fewest digits whose reading gives it back.  For `1, 2, … 17` digits
the two neighbours of the value on that decimal grid are tried, the nearer one first; the first
text that reads back is taken.  The exact decimal expansion, which always reads back, closes the
list.

Numbers from `10 ^ (-4)` up to `10 ^ 16` are written with a point and at least one digit on either
side of it, all others with one digit before the point and a power of ten that has a sign and at
least two digits.

Main definitions:

* `Numeral.layout` — digits and the place of the first one, written out;
* `Double.decimalPlace` — the power of ten of the leading digit of a value;
* `Double.text` — the text of a double.
-/
import Waymark.Number.Decimal

set_option relaxedAutoImplicit false
set_option autoImplicit false

namespace Waymark

namespace Numeral

/-- The decimal digits of a natural number. -/
def digitsOf (n : Nat) : List Char := Nat.toDigits 10 n

/-- The digits of an integer, after a minus sign if it is negative. -/
def integer (n : Int) : List Char :=
  if n < 0 then '-' :: digitsOf n.natAbs else digitsOf n.natAbs

/-- Digits without the zeros they end in. -/
def dropFinalZeros (ds : List Char) : List Char :=
  (ds.reverse.dropWhile (fun c => c == '0')).reverse

/-- The power of ten at the end of a numeral: a sign and at least two digits. -/
def power (place : Int) : List Char :=
  let ds := digitsOf place.natAbs
  'e' :: (if place < 0 then '-' else '+') :: (List.replicate (2 - ds.length) '0' ++ ds)

/-- Digits with a point: the first digit belongs to `10 ^ place`. -/
def positional (ds : List Char) (place : Int) : List Char :=
  if place < 0 then
    '0' :: '.' :: (List.replicate (-place - 1).toNat '0' ++ ds)
  else
    let width := place.toNat + 1
    let whole := ds.take width
    let fraction := ds.drop width
    whole ++ List.replicate (width - whole.length) '0' ++ '.' ::
      (if fraction.isEmpty then ['0'] else fraction)

/-- Digits with a power of ten: the first digit belongs to `10 ^ place`. -/
def scientific (ds : List Char) (place : Int) : List Char :=
  match ds with
  | [] => []
  | [d] => d :: power place
  | d :: rest => d :: '.' :: (rest ++ power place)

/-- Digits written out, the first of them belonging to `10 ^ place`. -/
def layout (ds : List Char) (place : Int) : List Char :=
  if -4 ≤ place ∧ place < 16 then positional ds place else scientific ds place

/-- The number `n · 10 ^ exponent` written out, without superfluous zeros. -/
def ofScaled (n : Nat) (exponent : Int) : List Char :=
  let ds := digitsOf n
  layout (dropFinalZeros ds) (exponent + ds.length - 1)

end Numeral

namespace Double

/-- The power of ten of the leading digit of `units` units, which are not zero. -/
def decimalPlace (units : Nat) : Int :=
  if Magnitude.one ≤ units then
    (Numeral.digitsOf (units / Magnitude.one)).length - 1
  else
    -((Numeral.digitsOf ((Magnitude.one + units - 1) / units - 1)).length : Int)

/-- The value of `units` units as a fraction, measured in steps of `10 ^ exponent`. -/
def inSteps (units : Nat) (exponent : Int) : Nat × Nat :=
  if 0 ≤ exponent then (units, Magnitude.one * Nat.pow 10 exponent.toNat)
  else (units * Nat.pow 10 (-exponent).toNat, Magnitude.one)

/-- The texts of the two neighbours of a value with `count` digits, the nearer one first; of two
that are equally near, the one whose last digit is even comes first. -/
def neighbours (units : Nat) (count : Nat) : List (List Char) :=
  let exponent := decimalPlace units - (count - 1 : Nat)
  let (num, den) := inSteps units exponent
  let below := num / den
  let rest := 2 * (num % den)
  let low := Numeral.ofScaled below exponent
  let high := Numeral.ofScaled (below + 1) exponent
  if rest < den ∨ (rest = den ∧ below % 2 = 0) then [low, high] else [high, low]

/-- The exact decimal expansion of a value: a unit is `5 ^ 1074` times `10 ^ (-1074)`. -/
def expansion (units : Nat) : List Char :=
  Numeral.ofScaled (units * Nat.pow 5 1074) (-1074)

/-- Whether a text reads as the magnitude `m`. -/
def readsAs (m : Magnitude) (text : List Char) : Bool :=
  read? text == some (.signed false m)

/-- The shortest text that reads as the finite magnitude `m`, which is not zero. -/
def shortest (m : Magnitude) : List Char :=
  match (List.range 17).findSome? (fun n => (neighbours m.units (n + 1)).find? (readsAs m)) with
  | some text => text
  | none => expansion m.units

/-- The text of a magnitude. -/
def magnitudeText (m : Magnitude) : List Char :=
  if m.rank = 0 then "0.0".toList
  else if m.isInfinite then "inf".toList
  else shortest m

/-- The text of a double. -/
def text (x : Double) : List Char :=
  match x with
  | .nan => "nan".toList
  | .signed true m => '-' :: magnitudeText m
  | .signed false m => magnitudeText m

/-- The double that a text written by `Double.text` stands for; besides numerals these are the
names of NaN and of the infinities. -/
def ofText? (cs : List Char) : Option Double :=
  let (negative, rest) := Decimal.readSign cs
  if rest = "nan".toList then some .nan
  else if rest = "inf".toList then some (infinity negative)
  else read? cs

/-! ### Written texts read back -/

theorem readsAs_iff {m : Magnitude} {text : List Char} :
    readsAs m text = true ↔ read? text = some (.signed false m) := by
  simp [readsAs]

/-- A shortest text that was found among the neighbours reads back. -/
theorem read?_of_findSome? {m : Magnitude} {text : List Char}
    (h : (List.range 17).findSome?
      (fun n => (neighbours m.units (n + 1)).find? (readsAs m)) = some text) :
    read? text = some (.signed false m) := by
  obtain ⟨n, _, hn⟩ := List.exists_of_findSome?_eq_some h
  exact readsAs_iff.1 (List.find?_some hn)

end Double

end Waymark
