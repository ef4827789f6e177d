/-
**Line patterns: words, blanks, names, clocks and the rest of a line.**

The shapes of lines are described by small recognisers on lists of characters.  A recogniser takes
the text it stands at and either refuses it or gives what it found, often with the text that
follows.  A run of blanks is first taken as long as possible and then given back one by one until
the rest fits (`Text.afterBlanks`), so a recogniser finds the reading that skips most blanks.

A line ends where its text ends or before one last line break (`Text.atEnd`).

Main definitions:

* `Text.dropWord?` — the text after a keyword;
* `Text.afterBlanks`, `Text.afterOptionalBlanks` — skip blanks, then go on;
* `Text.restOfLine?` — all that is left of the line;
* `Text.name?`, `Text.clock?`, `Text.digits?` — a name, a clock reading, a run of digits;
* `Text.splitAt?` — the shortest left part before a separator.
-/
import Waymark.Text.Blank
import Waymark.Text.Letter

set_option relaxedAutoImplicit false
set_option autoImplicit false

namespace Waymark

namespace Text

/-- A line ends at the end of the text or before one last line break. -/
def atEnd (cs : List Char) : Bool :=
  match cs with
  | [] => true
  | ['\n'] => true
  | _ => false

/-- The text after the keyword `word`, in any letter case. -/
def dropWord? (word : List Char) (cs : List Char) : Option (List Char) :=
  match word, cs with
  | [], cs => some cs
  | _ :: _, [] => none
  | letter :: word, c :: cs => if isLetter letter c then dropWord? word cs else none

/-- One or more blanks and then `next`; more blanks are tried before fewer. -/
def afterBlanks {α : Type} (next : List Char → Option α) (cs : List Char) : Option α :=
  match cs with
  | [] => none
  | c :: cs =>
    if isBlank c then
      match afterBlanks next cs with
      | some found => some found
      | none => next cs
    else none

/-- Any number of blanks and then `next`; more blanks are tried before fewer. -/
def afterOptionalBlanks {α : Type} (next : List Char → Option α) (cs : List Char) : Option α :=
  match afterBlanks next cs with
  | some found => some found
  | none => next cs

/-- A keyword and then `next`. -/
def afterWord {α : Type} (word : String) (next : List Char → Option α) (cs : List Char) :
    Option α :=
  match dropWord? word.toList cs with
  | some rest => next rest
  | none => none

/-- All that is left of the line, at least one character. -/
def restOfLine? (cs : List Char) : Option (List Char) :=
  match cs.takeWhile (fun c => c != '\n') with
  | [] => none
  | line => if atEnd (cs.dropWhile (fun c => c != '\n')) then some line else none

/-- What follows a keyword on its line: blanks and then text, given without outer blanks. -/
def argument? (cs : List Char) : Option (List Char) :=
  (afterBlanks restOfLine? cs).map strip

/-- The longest name at the start of a text, and the text after it. -/
def name? (cs : List Char) : Option (List Char × List Char) :=
  match cs with
  | [] => none
  | c :: cs =>
    if isNameStart c then some (c :: cs.takeWhile isNamePart, cs.dropWhile isNamePart) else none

/-- The longest run of digits at the start of a text, at least one, and the text after it. -/
def digits? (cs : List Char) : Option (List Char × List Char) :=
  match cs.takeWhile Char.isDigit with
  | [] => none
  | ds => some (ds, cs.dropWhile Char.isDigit)

/-- A clock reading at the start of a text, two digits, a colon and two digits, and the text after
it.  The digits are given as four characters. -/
def clock? (cs : List Char) : Option ((Char × Char × Char × Char) × List Char) :=
  match cs with
  | a :: b :: ':' :: c :: d :: rest =>
    if a.isDigit && b.isDigit && c.isDigit && d.isDigit then some ((a, b, c, d), rest) else none
  | _ => none

/-- The shortest left part, at least one character and within the line, that is followed by what
`separator` recognises; the result holds the left part and what `separator` found. -/
def splitAt? {α : Type} (separator : List Char → Option α) (cs : List Char) :
    Option (List Char × α) :=
  match cs with
  | [] => none
  | c :: cs =>
    if c = '\n' then none
    else
      match separator cs with
      | some found => some ([c], found)
      | none =>
        match splitAt? separator cs with
        | some (left, found) => some (c :: left, found)
        | none => none

/-- The number that a run of digits writes. -/
def digitsValue (ds : List Char) : Nat :=
  ds.foldl (fun n d => 10 * n + (d.toNat - 48)) 0

end Text

end Waymark
