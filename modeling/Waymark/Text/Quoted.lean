/-
**Quoted texts.**

In messages a text is shown between quotes, with escapes for the characters that would not be
readable.  Single quotes are used unless the text holds a single quote and no double quote.  A
character that is not printable is shown by its code in hexadecimal digits, two, four or eight of
them.

Main definitions:

* `Text.hex` — a number in a given number of hexadecimal digits;
* `Text.quote` — a text between quotes.
-/
import Waymark.Text.Printable

set_option relaxedAutoImplicit false
set_option autoImplicit false

namespace Waymark

namespace Text

/-- The last `width` hexadecimal digits of `n`. -/
def hex (width n : Nat) : List Char :=
  match width with
  | 0 => []
  | width + 1 => hex width (n / 16) ++ [Nat.digitChar (n % 16)]

/-- The quote around a text. -/
def quoteFor (cs : List Char) : Char :=
  if cs.contains '\x27' && !cs.contains '"' then '"' else '\x27'

/-- One character of a text between `mark` quotes. -/
def quoteChar (mark c : Char) : List Char :=
  if c = mark ∨ c = '\\' then ['\\', c]
  else if c = '\n' then ['\\', 'n']
  else if c = '\r' then ['\\', 'r']
  else if c = '\t' then ['\\', 't']
  else if isPrintable c then [c]
  else if c.toNat < 0x100 then '\\' :: 'x' :: hex 2 c.toNat
  else if c.toNat < 0x10000 then '\\' :: 'u' :: hex 4 c.toNat
  else '\\' :: 'U' :: hex 8 c.toNat

/-- A text between quotes. -/
def quote (cs : List Char) : List Char :=
  let mark := quoteFor cs
  mark :: (cs.flatMap (quoteChar mark) ++ [mark])

end Text

end Waymark
