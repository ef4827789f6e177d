/-
**Significant lines of a source.**

The language is line oriented.  A source is cut at its line breaks; lines that are blank or hold a
comment only are dropped, and every other line is given with its number, its indent and its text
without outer blanks.  A tab in the indent of a significant line is refused.

Main definitions:

* `Line` — a significant line;
* `Source.physicalLines` — the lines of a source, significant or not;
* `Line.ofPhysical` — the significant line that a physical one holds, if any;
* `Source.lines` — the significant lines of a source, or the number of the first line whose indent
  holds a tab.
-/
import Waymark.Text.Blank

set_option relaxedAutoImplicit false
set_option autoImplicit false

namespace Waymark

/-- A significant line of a source. -/
structure Line where
  /-- The number of the line, counted from one in a source. -/
  number : Int
  /-- The number of blanks before the text. -/
  indent : Int
  /-- The text of the line without outer blanks. -/
  text : String
  /-- The whole physical line. -/
  raw : String := ""
deriving DecidableEq

/-- What a physical line holds. -/
inductive Line.Reading where
  /-- Nothing of significance. -/
  | skipped
  /-- Text behind an indent with a tab in it. -/
  | tabbed
  /-- A significant line. -/
  | significant (line : Line)

namespace Source

/-- A text in which every carriage return before a line break is left out. -/
def joinBreaks (cs : List Char) : List Char :=
  match cs with
  | [] => []
  | '\r' :: '\n' :: rest => '\n' :: joinBreaks rest
  | c :: rest => c :: joinBreaks rest

/-- The pieces of a text between its line breaks, given the piece at its start in reverse. -/
def splitFrom (piece : List Char) (cs : List Char) : List (List Char) :=
  match cs with
  | [] => [piece.reverse]
  | c :: rest =>
    if c = '\n' then piece.reverse :: splitFrom [] rest else splitFrom (c :: piece) rest

/-- The pieces of a text between its line breaks. -/
def splitLines (cs : List Char) : List (List Char) := splitFrom [] cs

/-- The lines of a source, significant or not. -/
def physicalLines (source : List Char) : List (List Char) := splitLines (joinBreaks source)

end Source

namespace Line

/-- Whether a physical line is of no significance: blank, or a comment. -/
def isSkipped (raw : List Char) : Bool :=
  match raw.dropWhile Text.isBlank with
  | [] => true
  | c :: _ => c == '#'

/-- What the physical line with the given number holds. -/
def ofPhysical (number : Nat) (raw : List Char) : Reading :=
  if isSkipped raw then .skipped
  else
    let indent := raw.takeWhile Text.isBlank
    if indent.contains '\t' then .tabbed
    else .significant ⟨number, indent.length, String.ofList (Text.strip raw), String.ofList raw⟩

end Line

namespace Source

/-- The significant lines among physical lines that are numbered from `number` on, or the number of
the first one whose indent holds a tab. -/
def linesFrom (number : Nat) (raws : List (List Char)) : Except Nat (List Line) :=
  match raws with
  | [] => .ok []
  | raw :: raws =>
    match Line.ofPhysical number raw with
    | .skipped => linesFrom (number + 1) raws
    | .tabbed => .error number
    | .significant line =>
      match linesFrom (number + 1) raws with
      | .error n => .error n
      | .ok lines => .ok (line :: lines)

/-- The significant lines of a source, or the number of the first line whose indent holds a tab. -/
def lines (source : String) : Except Nat (List Line) :=
  linesFrom 1 (physicalLines source.toList)

end Source

end Waymark
