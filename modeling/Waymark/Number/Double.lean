/-
**Double-precision numbers as exact values.**

A double is NaN, or a sign and a magnitude.  Nothing is rounded except where a number of another
kind is brought in, so the order and the equality of doubles are those of the numbers they stand
for: the two zeros are equal, and NaN is neither equal to, below nor above anything.

Main definitions:

* `Double` — NaN or a signed magnitude;
* `Double.ofInt?` — the double nearest to an integer, unless it is too large for a finite one;
* `Double.toInt?` — the integer that a double is, if it is one;
* `Double.lt`, `Double.same` — order and equality as numbers.
-/
import Waymark.Number.Magnitude

set_option relaxedAutoImplicit false
set_option autoImplicit false

namespace Waymark

/-- A double-precision number. -/
inductive Double where
  /-- The result that is no number. -/
  | nan
  /-- A magnitude, zero and infinity included, with a sign. -/
  | signed (negative : Bool) (magnitude : Magnitude)
deriving DecidableEq

namespace Double

/-- Positive zero. -/
def zero : Double := .signed false Magnitude.zero

/-- The number one. -/
def one : Double := .signed false (Magnitude.ofRatio 1 1)

/-- Infinity with a sign. -/
def infinity (negative : Bool) : Double := .signed negative Magnitude.infinity

/-- Whether a double is NaN. -/
def isNaN (x : Double) : Bool :=
  match x with
  | .nan => true
  | .signed _ _ => false

/-- Whether a double is a zero of either sign. -/
def isZero (x : Double) : Bool :=
  match x with
  | .nan => false
  | .signed _ m => m.rank == 0

/-- The double nearest to a natural number. -/
def ofNat (n : Nat) : Double := .signed false (Magnitude.ofRatio n 1)

/-- The double nearest to an integer.  An integer whose nearest double would be infinite has
none. -/
def ofInt? (n : Int) : Option Double :=
  let m := Magnitude.ofRatio n.natAbs 1
  if m.isInfinite then none else some (.signed (decide (n < 0)) m)

/-- The integer that a double is, if it is one. -/
def toInt? (x : Double) : Option Int :=
  match x with
  | .nan => none
  | .signed negative m =>
    match m.toNat? with
    | none => none
    | some n => some (if negative then -(n : Int) else n)

/-! ### Order and equality -/

/-- The place of a number in the order of all doubles that are numbers; both zeros stand at `0`. -/
def place? (x : Double) : Option Int :=
  match x with
  | .nan => none
  | .signed negative m => some (if negative then -(m.rank : Int) else m.rank)

/-- Whether `x` is below `y`; never if one of them is NaN. -/
def lt (x y : Double) : Bool :=
  match x.place?, y.place? with
  | some a, some b => decide (a < b)
  | _, _ => false

/-- Whether `x` and `y` are the same number; never if one of them is NaN. -/
def same (x y : Double) : Bool :=
  match x.place?, y.place? with
  | some a, some b => decide (a = b)
  | _, _ => false

/-- Whether `x` is the integer `n`. -/
def isInt (x : Double) (n : Int) : Bool :=
  x.toInt? == some n

end Double

end Waymark
