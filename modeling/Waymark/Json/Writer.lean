/-
**Writing JSON texts.**

A value is written in ASCII characters only, all others being given by escapes, a character outside
the basic plane by two of them.  The text is either one line or has every item and member on a line
of its own, indented by a fixed number of spaces for each level.

Main definitions:

* `Json.Layout` — one line, or lines with an indent;
* `Json.writeText` — a text between quotes;
* `Json.write` — the text of a value.
-/
import Waymark.Json.Basic

set_option relaxedAutoImplicit false
set_option autoImplicit false

namespace Waymark

namespace Json

/-- How a JSON text is laid out. -/
inductive Layout where
  /-- All on one line. -/
  | line
  /-- Every item and member on a line of its own, each level indented by so many spaces more. -/
  | lines (step : Nat)
deriving DecidableEq

namespace Layout

/-- The layout with the given indent; a negative indent counts as none at all. -/
def ofIndent (indent : Option Int) : Layout :=
  match indent with
  | none => .line
  | some n => .lines n.toNat

/-- The break before an item or a closing bracket at the given level. -/
def lineBreak (layout : Layout) (level : Nat) : List Char :=
  match layout with
  | .line => []
  | .lines step => '\n' :: List.replicate (step * level) ' '

/-- What stands between two items at the given level. -/
def separator (layout : Layout) (level : Nat) : List Char :=
  match layout with
  | .line => [',', ' ']
  | .lines _ => ',' :: layout.lineBreak level

end Layout

/-! ### Texts -/

/-- The escape of one code of the basic plane. -/
def codeEscape (n : Nat) : List Char := '\\' :: 'u' :: Text.hex 4 n

/-- One character of a text. -/
def writeChar (c : Char) : List Char :=
  if c = '"' then ['\\', '"']
  else if c = '\\' then ['\\', '\\']
  else if c = '\n' then ['\\', 'n']
  else if c = '\r' then ['\\', 'r']
  else if c = '\t' then ['\\', 't']
  else if c = '\x08' then ['\\', 'b']
  else if c = '\x0c' then ['\\', 'f']
  else if 0x20 ≤ c.toNat ∧ c.toNat ≤ 0x7E then [c]
  else if c.toNat < 0x10000 then codeEscape c.toNat
  else
    let n := c.toNat - 0x10000
    codeEscape (0xD800 + n / 0x400) ++ codeEscape (0xDC00 + n % 0x400)

/-- A text between quotes. -/
def writeText (cs : List Char) : List Char :=
  '"' :: (cs.flatMap writeChar ++ ['"'])

/-! ### Values -/

/-- A double; NaN and the infinities are given by name. -/
def writeDouble (x : Double) : List Char :=
  if x = .nan then "NaN".toList
  else if x = Double.infinity false then "Infinity".toList
  else if x = Double.infinity true then "-Infinity".toList
  else x.text

mutual

/-- The text of a value that stands at the given level. -/
def writeAt (layout : Layout) (level : Nat) (value : Json) : List Char :=
  match value with
  | .null => "null".toList
  | .bool true => "true".toList
  | .bool false => "false".toList
  | .int n => Numeral.integer n
  | .float x => writeDouble x
  | .text s => writeText s.toList
  | .array [] => ['[', ']']
  | .array (item :: items) =>
    '[' :: (layout.lineBreak (level + 1) ++ writeAt layout (level + 1) item
      ++ writeItems layout (level + 1) items ++ layout.lineBreak level ++ [']'])
  | .object [] => ['\x7b', '\x7d']
  | .object ((key, value) :: members) =>
    '\x7b' :: (layout.lineBreak (level + 1) ++ writeText key.toList ++ ':' :: ' ' ::
      (writeAt layout (level + 1) value ++ writeMembers layout (level + 1) members
        ++ layout.lineBreak level ++ ['\x7d']))

/-- Further items of an array, each after a separator. -/
def writeItems (layout : Layout) (level : Nat) (items : List Json) : List Char :=
  match items with
  | [] => []
  | item :: items =>
    layout.separator level ++ writeAt layout level item ++ writeItems layout level items

/-- Further members of an object, each after a separator. -/
def writeMembers (layout : Layout) (level : Nat) (members : List (String × Json)) : List Char :=
  match members with
  | [] => []
  | (key, value) :: members =>
    layout.separator level ++ writeText key.toList ++ ':' :: ' ' ::
      (writeAt layout level value ++ writeMembers layout level members)

end

/-- The text of a value. -/
def write (layout : Layout) (value : Json) : List Char := writeAt layout 0 value

end Json

end Waymark
