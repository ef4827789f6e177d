/-
**Blank characters and the trimming of text.**

A text is worked on as its list of characters, so that positions, lengths and indents count
characters.  A *blank* is any character that separates words; what counts as one is a fixed table
of ranges.

Main definitions:

* `Text.isBlank` — the blank characters;
* `Text.strip` — a text without the blanks at its two ends;
* `Text.firstWord?` — the first maximal run of characters that are not blank.
-/

set_option relaxedAutoImplicit false
set_option autoImplicit false

namespace Waymark

namespace Text

/-- The blank characters: the ASCII controls from tab to carriage return and from file separator
to unit separator, the space, and the Unicode spaces and separators. -/
def isBlank (c : Char) : Bool :=
  let n := c.toNat
  (0x09 ≤ n && n ≤ 0x0D) || (0x1C ≤ n && n ≤ 0x20) || n == 0x85 || n == 0xA0 || n == 0x1680
    || (0x2000 ≤ n && n ≤ 0x200A) || n == 0x2028 || n == 0x2029 || n == 0x202F || n == 0x205F
    || n == 0x3000

/-- A text without the blanks it ends in. -/
def stripEnd (cs : List Char) : List Char :=
  (cs.reverse.dropWhile isBlank).reverse

/-- A text without the blanks at its two ends. -/
def strip (cs : List Char) : List Char :=
  stripEnd (cs.dropWhile isBlank)

/-- The first word of a text: its first maximal run of characters that are not blank. -/
def firstWord? (cs : List Char) : Option (List Char) :=
  match (cs.dropWhile isBlank).takeWhile (fun c => !isBlank c) with
  | [] => none
  | word => some word

/-! ### Blanks and trimming -/

@[simp] theorem stripEnd_nil : stripEnd [] = [] := rfl

@[simp] theorem strip_nil : strip [] = [] := rfl

end Text

end Waymark
