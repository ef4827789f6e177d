/-
**Coercions of values.**

A comparison sees its operands through a coercion: as texts, as numbers or as clock times.  Each
coercion is defined for every value, with one exception: a whole number that lies beyond the range
of doubles has no text, no number and no truth, and the coercion then gives no result.

Main definitions:

* `Value.toText?` — the text of a value;
* `Value.toNumber?` — the number that a value stands for, NaN if it stands for none;
* `Value.toMinutes?` — the minutes since midnight that a value stands for, NaN if for none;
* `Value.isTrue?` — whether a value counts as true.
-/
import Waymark.Clock
import Waymark.Value.Basic

set_option relaxedAutoImplicit false
set_option autoImplicit false

namespace Waymark

namespace Value

/-! ### Texts -/

/-- The text of a double: whole numbers are written without a point. -/
def doubleText (x : Double) : List Char :=
  match x with
  | .nan => "NaN".toList
  | .signed negative m =>
    if m.isInfinite then (if negative then "-Infinity" else "Infinity").toList
    else
      match (Double.signed negative m).toInt? with
      | some n => Numeral.integer n
      | none => (Double.signed negative m).text

/-- The text of a whole number, if it lies in the range of doubles. -/
def intText? (n : Int) : Option (List Char) :=
  match Double.ofInt? n with
  | none => none
  | some _ => some (Numeral.integer n)

/-- The text of a value that is neither a number, a truth value nor absent: a text is its own text,
a member of a vocabulary is its word, and everything else is written as in messages. -/
def plainText (value : Value) : List Char :=
  match value with
  | .text s => s.toList
  | .operator op => op.word.toList
  | .preference p => p.word.toList
  | .avoidance a => a.word.toList
  | v => v.literal

/-- The text of a value. -/
def toText? (value : Value) : Option (List Char) :=
  match value with
  | .null => some "null".toList
  | .bool true => some "true".toList
  | .bool false => some "false".toList
  | .int n => intText? n
  | .float x => some (doubleText x)
  | v => some v.plainText

/-! ### Numbers -/

/-- The number that a text stands for: zero for a blank text, and NaN for a text that is no
numeral. -/
def numberOfText (cs : List Char) : Double :=
  let trimmed := Text.strip cs
  if trimmed = [] then Double.zero
  else if trimmed = "Infinity".toList ∨ trimmed = "+Infinity".toList then Double.infinity false
  else if trimmed = "-Infinity".toList then Double.infinity true
  else
    match Double.read? trimmed with
    | some x => x
    | none => .nan

/-- The number that a value stands for. -/
def toNumber? (value : Value) : Option Double :=
  match value with
  | .null => some Double.zero
  | .bool true => some Double.one
  | .bool false => some Double.zero
  | .int n => Double.ofInt? n
  | .float x => some x
  | v => some (numberOfText v.plainText)

/-! ### Clock times -/

/-- The word that stands for the current clock time. -/
def currentTime : String := "time"

/-- The minutes since midnight that a text stands for: the word `time` reads the clock, a clock
reading tells its own time, and any other text gives NaN. -/
def minutesOfText (now : Clock) (cs : List Char) : Double :=
  if cs = currentTime.toList then Double.ofNat now.minutes
  else
    match Text.clock? cs with
    | some ((a, b, c, d), rest) =>
      if Text.atEnd rest then Double.ofNat (Clock.twoDigits a b * 60 + Clock.twoDigits c d)
      else .nan
    | none => .nan

/-- The minutes since midnight that a value stands for. -/
def toMinutes? (now : Clock) (value : Value) : Option Double :=
  match value.toText? with
  | none => none
  | some cs => some (minutesOfText now cs)

/-! ### Truth -/

/-- Whether a value counts as true: absence, falsehood, zero, NaN and what is empty do not. -/
def isTrue? (value : Value) : Option Bool :=
  match value with
  | .null => some false
  | .bool b => some b
  | .int n => if n = 0 then some false else (Double.ofInt? n).map (fun _ => true)
  | .float x => some (!x.isZero && !x.isNaN)
  | .text s => some (s != "")
  | .list items => some (!items.isEmpty)
  | .block items => some (!items.isEmpty)
  | _ => some true

end Value

end Waymark
