/-
**A cursor over lines.**

A cursor stands before a line or behind the last one and only moves forward.

Main definitions:

* `Cursor` — how many lines lie behind, and the lines ahead;
* `Cursor.peek?`, `Cursor.advance?` — the line ahead, without and with a move;
* `Cursor.describe` — where the cursor stands, in words.
-/
import Waymark.Line

set_option relaxedAutoImplicit false
set_option autoImplicit false

namespace Waymark

/-- A place among lines. -/
structure Cursor where
  /-- How many lines lie behind. -/
  position : Nat
  /-- The lines ahead. -/
  ahead : List Line

namespace Cursor

/-- The cursor before the first line. -/
def start (lines : List Line) : Cursor := ⟨0, lines⟩

/-- Whether no line is ahead. -/
def atEnd (c : Cursor) : Bool := c.ahead.isEmpty

/-- The line ahead. -/
def peek? (c : Cursor) : Option Line := c.ahead.head?

/-- The line ahead and the cursor behind it. -/
def advance? (c : Cursor) : Option (Line × Cursor) :=
  match c.ahead with
  | [] => none
  | line :: ahead => some (line, ⟨c.position + 1, ahead⟩)

/-- The number of all lines, behind and ahead. -/
def size (c : Cursor) : Nat := c.position + c.ahead.length

/-- Where the cursor stands. -/
def describe (c : Cursor) : String :=
  "LineCursor(pos=" ++ toString c.position ++ ", tokens=" ++ toString c.size ++ ")"

/-- What is said about a move beyond the last line. -/
def pastEnd : String := "LineCursor advanced past the last token"

/-- A move keeps the number of lines and takes the cursor one line on. -/
theorem size_of_advance? {c d : Cursor} {line : Line} (h : c.advance? = some (line, d)) :
    d.size = c.size ∧ d.position = c.position + 1 := by
  unfold advance? at h
  split at h
  · simp at h
  · rename_i l ahead heq
    simp only [Option.some.injEq, Prod.mk.injEq] at h
    rw [← h.2]
    simp only [size, heq, List.length_cons, and_true]
    omega

end Cursor

end Waymark
