/-
**The lines of a source that is written row by row.**

A source is written as rows, each a text behind two spaces for every level of nesting, with line
breaks between them.  This module shows that such a source is cut back into its rows: nothing is
skipped, no row is refused for its indent, and every line has the depth and the text of its row.

Main definitions:

* `Layout.Row` — a depth and a text, with the physical line that it is (`Layout.Row.raw`) and the
  significant line that it holds (`Layout.Row.line`);
* `Layout.numbered` — the significant lines of rows;
* `Layout.write` — rows as one text.

Main results:

* `Source.physicalLines_break` — a source is cut at its first line break;
* `Layout.lines_write` — **the lines of a source are the rows it is written from**.
-/
import Waymark.Line
import Waymark.Proofs.Pattern

set_option relaxedAutoImplicit false
set_option autoImplicit false

namespace Waymark

/-! ### Cutting a source at line breaks -/

namespace Source

/-- A character is kept unless it is a carriage return before a line break. -/
theorem joinBreaks_cons {c : Char} {rest : List Char}
    (h : c = '\r' → rest.head? ≠ some '\n') : joinBreaks (c :: rest) = c :: joinBreaks rest := by
  rw [joinBreaks]
  intro rest' hc hrest
  exact h hc (by rw [hrest]; rfl)

/-- A line that does not end in a carriage return is kept up to its line break. -/
theorem joinBreaks_break {raw : List Char} (h : '\n' ∉ raw) (hlast : raw.getLast? ≠ some '\r')
    (rest : List Char) : joinBreaks (raw ++ '\n' :: rest) = raw ++ '\n' :: joinBreaks rest := by
  induction raw with
  | nil => exact joinBreaks_cons (by simp)
  | cons c raw ih =>
      have hraw : '\n' ∉ raw := fun hmem => h (List.mem_cons_of_mem c hmem)
      cases raw with
      | nil =>
          -- only the last character stands before the line break
          have hc : c ≠ '\r' := by simpa using hlast
          rw [List.singleton_append, joinBreaks_cons fun heq => absurd heq hc]
          exact congrArg (c :: ·) (joinBreaks_cons (by simp))
      | cons d raw =>
          have hd : d ≠ '\n' := fun heq => hraw (heq ▸ List.mem_cons_self)
          rw [List.cons_append, joinBreaks_cons fun _ => by simpa using hd,
            ih hraw (by simpa using hlast)]
          rfl

/-- A line without a line break is kept. -/
theorem joinBreaks_eq {raw : List Char} (h : '\n' ∉ raw) : joinBreaks raw = raw := by
  induction raw with
  | nil => rfl
  | cons c raw ih =>
      have hraw : '\n' ∉ raw := fun hmem => h (List.mem_cons_of_mem c hmem)
      rw [joinBreaks_cons fun _ hhead => hraw (List.mem_of_mem_head? hhead), ih hraw]

/-- The piece up to the first line break. -/
theorem splitFrom_break {raw : List Char} (h : '\n' ∉ raw) (piece rest : List Char) :
    splitFrom piece (raw ++ '\n' :: rest) = (piece.reverse ++ raw) :: splitFrom [] rest := by
  induction raw generalizing piece with
  | nil => simp [splitFrom]
  | cons c raw ih =>
      have hc : c ≠ '\n' := fun heq => h (heq ▸ List.mem_cons_self)
      simp [splitFrom, hc, ih fun hmem => h (List.mem_cons_of_mem c hmem)]

/-- The last piece. -/
theorem splitFrom_eq {raw : List Char} (h : '\n' ∉ raw) (piece : List Char) :
    splitFrom piece raw = [piece.reverse ++ raw] := by
  induction raw generalizing piece with
  | nil => simp [splitFrom]
  | cons c raw ih =>
      have hc : c ≠ '\n' := fun heq => h (heq ▸ List.mem_cons_self)
      simp [splitFrom, hc, ih fun hmem => h (List.mem_cons_of_mem c hmem)]

/-- **A source is cut at its first line break.** -/
theorem physicalLines_break {raw : List Char} (h : '\n' ∉ raw) (hlast : raw.getLast? ≠ some '\r')
    (rest : List Char) : physicalLines (raw ++ '\n' :: rest) = raw :: physicalLines rest := by
  rw [physicalLines, joinBreaks_break h hlast, splitLines, splitFrom_break h]
  rfl

/-- A source without line breaks is one line. -/
theorem physicalLines_eq {raw : List Char} (h : '\n' ∉ raw) : physicalLines raw = [raw] := by
  rw [physicalLines, joinBreaks_eq h, splitLines, splitFrom_eq h]
  rfl

end Source

/-! ### Texts behind spaces -/

/-- Behind spaces, a phrase is one line of its own. -/
theorem Text.IsPhrase.spaces_solid {text : List Char} (h : Text.IsPhrase text) (indent : Nat) :
    '\n' ∉ List.replicate indent ' ' ++ text ∧
      (List.replicate indent ' ' ++ text).getLast? ≠ some '\r' := by
  constructor
  · simp [h.no_break]
  · intro hlast
    rw [List.getLast?_append_of_ne_nil _ h.ne_nil] at hlast
    have := h.ends '\r' (by simpa using hlast)
    exact absurd this (by decide)

/-- The spaces before a phrase that is no comment are its indent. -/
theorem Line.ofPhysical_spaces {text : List Char} (hphrase : Text.IsPhrase text)
    (hcomment : text.head? ≠ some '#') (number indent : Nat) :
    ofPhysical number (List.replicate indent ' ' ++ text) =
      .significant ⟨number, indent, String.ofList text,
        String.ofList (List.replicate indent ' ' ++ text)⟩ := by
  have hblank : ∀ c ∈ List.replicate indent ' ', Text.isBlank c = true := by
    intro c hc
    rw [List.eq_of_mem_replicate hc]
    rfl
  have hdrop : (List.replicate indent ' ' ++ text).dropWhile Text.isBlank = text := by
    rw [List.dropWhile_append_of_pos hblank, hphrase.starts.dropWhile_eq]
  have htake : (List.replicate indent ' ' ++ text).takeWhile Text.isBlank =
      List.replicate indent ' ' := by
    rw [List.takeWhile_append_of_pos hblank, hphrase.starts.takeWhile_eq, List.append_nil]
  have hskip : isSkipped (List.replicate indent ' ' ++ text) = false := by
    rw [isSkipped, hdrop]
    cases htext : text with
    | nil => exact absurd htext hphrase.ne_nil
    | cons c cs =>
        rw [htext] at hcomment
        simpa using hcomment
  have htab : (List.replicate indent ' ').contains '\t' = false := by
    simp
  have hstrip : Text.strip (List.replicate indent ' ' ++ text) = text := by
    rw [Text.strip, hdrop, Text.stripEnd, hphrase.ends.dropWhile_eq, List.reverse_reverse]
  simp only [ofPhysical, hskip, htake, htab, hstrip, List.length_replicate]
  simp

/-! ### Rows -/

namespace Layout

/-- A row of a written source. -/
structure Row where
  /-- The level of nesting. -/
  depth : Nat
  /-- The text behind the indent. -/
  text : List Char

/-- The physical line that a row is. -/
def Row.raw (row : Row) : List Char := List.replicate (2 * row.depth) ' ' ++ row.text

/-- The significant line that a row holds, under the given number. -/
def Row.line (number : Nat) (row : Row) : Line :=
  ⟨number, 2 * row.depth, String.ofList row.text, String.ofList row.raw⟩

/-- A row that is not skipped: its text is a phrase and no comment. -/
def Row.IsSignificant (row : Row) : Prop :=
  Text.IsPhrase row.text ∧ row.text.head? ≠ some '#'

/-- The significant lines of rows that are numbered from `number` on. -/
def numbered (number : Nat) (rows : List Row) : List Line :=
  match rows with
  | [] => []
  | row :: rows => row.line number :: numbered (number + 1) rows

/-- Rows as one text, with a line break between two rows and, if `final` is set, one at the end. -/
def write (final : Bool) (rows : List Row) : List Char :=
  List.intercalate ['\n'] (rows.map Row.raw) ++ if final then ['\n'] else []

theorem numbered_append (number : Nat) (rows more : List Row) :
    numbered number (rows ++ more) =
      numbered number rows ++ numbered (number + rows.length) more := by
  induction rows generalizing number with
  | nil => rfl
  | cons row rows ih =>
      rw [List.cons_append, numbered, ih (number + 1), numbered, List.cons_append, List.length_cons,
        Nat.add_assoc, Nat.add_comm 1]

/-- The spaces before the text of a row are its indent. -/
theorem Row.ofPhysical_raw {row : Row} (h : row.IsSignificant) (number : Nat) :
    Line.ofPhysical number row.raw = .significant (row.line number) := by
  have hread := Line.ofPhysical_spaces h.1 h.2 number (2 * row.depth)
  rwa [Int.natCast_mul] at hread

/-- A row holds one line of its own. -/
theorem Row.raw_solid {row : Row} (h : row.IsSignificant) :
    '\n' ∉ row.raw ∧ row.raw.getLast? ≠ some '\r' :=
  h.1.spaces_solid (2 * row.depth)

/-- The lines of rows, with or without an empty line behind them. -/
theorem linesFrom_raw {rows : List Row} (h : ∀ row ∈ rows, row.IsSignificant) (number : Nat)
    (final : Bool) :
    Source.linesFrom number (rows.map Row.raw ++ if final then [[]] else []) =
      .ok (numbered number rows) := by
  induction rows generalizing number with
  | nil => cases final <;> rfl
  | cons row rows ih =>
      have hrow := Row.ofPhysical_raw (h row List.mem_cons_self) number
      have hrows := ih (fun r hr => h r (List.mem_cons_of_mem row hr)) (number + 1)
      simp only [List.map_cons, List.cons_append, Source.linesFrom, hrow, hrows, numbered]

/-- The physical lines of rows, of which there is at least one. -/
theorem physicalLines_write {row : Row} {rows : List Row}
    (h : ∀ r ∈ row :: rows, r.IsSignificant) (final : Bool) :
    Source.physicalLines (write final (row :: rows)) =
      (row :: rows).map Row.raw ++ if final then [[]] else [] := by
  induction rows generalizing row with
  | nil =>
      obtain ⟨hbreak, hlast⟩ := Row.raw_solid (h row List.mem_cons_self)
      -- behind a line break at the end there is one more line, which is empty
      cases final with
      | false => simpa [write] using Source.physicalLines_eq hbreak
      | true =>
          have hnil : Source.physicalLines [] = [[]] := rfl
          simpa [write, hnil] using Source.physicalLines_break hbreak hlast []
  | cons next rows ih =>
      obtain ⟨hbreak, hlast⟩ := Row.raw_solid (h row List.mem_cons_self)
      have hwrite : write final (row :: next :: rows) =
          row.raw ++ '\n' :: write final (next :: rows) := by
        simp [write, List.intercalate_cons_cons]
      rw [hwrite, Source.physicalLines_break hbreak hlast,
        ih fun r hr => h r (List.mem_cons_of_mem row hr)]
      rfl

/-- **The lines of a source are the rows it is written from.** -/
theorem lines_write {rows : List Row} (h : ∀ row ∈ rows, row.IsSignificant) (final : Bool) :
    Source.lines (String.ofList (write final rows)) = .ok (numbered 1 rows) := by
  rw [Source.lines, String.toList_ofList]
  cases rows with
  | nil => cases final <;> rfl
  | cons row rows => rw [physicalLines_write h, linesFrom_raw h]

end Layout

end Waymark
