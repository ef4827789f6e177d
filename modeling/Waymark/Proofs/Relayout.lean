/-
**What may be changed about the layout of a source.**

Blank lines and comments, blanks at the ends of lines, and the choice between two forms of line
break carry no meaning.  This module says what an edit of the layout is, text against text, together
with the number that every line has afterwards, and shows that no sequence of such edits changes the
program of a source: it stays the same program, or the source is refused for the same reason at the
line that was moved to.

An edit acts on characters while the reader sees lines, so the argument goes through the physical
lines.  After an edit they are those before it, each with other blanks at its end, and with lines of
no significance among them; that is all the reader of lines can notice, and of what it hands on only
the numbers differ.

Main definitions:

* `Layout.Edit`, `Layout.Edits` — one edit of a text, and any number of them, with the new number of
  every line;
* `Layout.Follows` — physical lines before and after an edit;
* `Parse.Fault.renumber`, `Diagnostic.renumber` — faults and diagnostics under other line numbers.

Main results:

* `Source.physicalLines_append` — a source is cut at any of its line breaks;
* `Layout.Edit.follows` — what an edit does to the physical lines;
* `Layout.Follows.linesFrom` — what is then read of them;
* `Program.parse_edits` — **the layout of a source does not matter**.
-/
import Mathlib.Data.List.Induction
import Waymark.Proofs.Layout
import Waymark.Proofs.Moved

set_option relaxedAutoImplicit false
set_option autoImplicit false

namespace Waymark

/-! ### Cutting a source at any line break -/

namespace Source

/-- Up to a line break, a text without its carriage returns does not depend on what follows. -/
theorem joinBreaks_append (pre : List Char) :
    ∃ kept, kept.count '\n' = pre.count '\n' ∧
      ∀ post, joinBreaks (pre ++ '\n' :: post) = kept ++ '\n' :: joinBreaks post := by
  fun_induction joinBreaks pre with
  | case1 => exact ⟨[], rfl, fun post => joinBreaks_cons (by simp)⟩
  | case2 rest ih =>
      obtain ⟨kept, hcount, hkept⟩ := ih
      refine ⟨'\n' :: kept, by simpa using hcount, fun post => ?_⟩
      rw [List.cons_append, List.cons_append, joinBreaks, hkept]
      rfl
  | case3 c rest hbreak ih =>
      obtain ⟨kept, hcount, hkept⟩ := ih
      by_cases hlast : c = '\r' ∧ rest = []
      · -- the carriage return goes with the line break behind it
        obtain ⟨rfl, rfl⟩ := hlast
        exact ⟨[], rfl, fun post => rfl⟩
      · refine ⟨c :: kept, by simp [List.count_cons, hcount], fun post => ?_⟩
        rw [List.cons_append, joinBreaks_cons, hkept]
        · rfl
        · rintro rfl hhead
          cases rest with
          | nil => exact hlast ⟨rfl, rfl⟩
          | cons d rest =>
              simp only [List.cons_append, List.head?_cons, Option.some.injEq] at hhead
              exact hbreak rest rfl (by rw [hhead])

/-- The pieces of a text are those before and those behind a line break. -/
theorem splitFrom_append (piece cs rest : List Char) :
    splitFrom piece (cs ++ '\n' :: rest) = splitFrom piece cs ++ splitFrom [] rest := by
  induction cs generalizing piece with
  | nil => simp [splitFrom]
  | cons c cs ih =>
      rw [List.cons_append, splitFrom, splitFrom, ih, ih]
      split <;> rfl

theorem length_splitFrom (piece cs : List Char) :
    (splitFrom piece cs).length = cs.count '\n' + 1 := by
  induction cs generalizing piece with
  | nil => rfl
  | cons c cs ih =>
      rw [splitFrom]
      split
      · rename_i hc
        simp [hc, ih]
      · rename_i hc
        rw [ih, List.count_cons_of_ne (by simpa using hc)]

/-- **A source is cut at any of its line breaks**: the lines up to there do not depend on what
follows. -/
theorem physicalLines_append (pre : List Char) :
    ∃ raws, raws.length = pre.count '\n' + 1 ∧
      ∀ post, physicalLines (pre ++ '\n' :: post) = raws ++ physicalLines post := by
  obtain ⟨kept, hcount, hkept⟩ := joinBreaks_append pre
  refine ⟨splitFrom [] kept, by rw [length_splitFrom, hcount], fun post => ?_⟩
  rw [physicalLines, hkept, splitLines, splitFrom_append]
  rfl

/-- A line is kept up to the carriage return before its line break. -/
theorem joinBreaks_carriage {raw : List Char} (h : '\n' ∉ raw) (rest : List Char) :
    joinBreaks (raw ++ '\r' :: '\n' :: rest) = raw ++ '\n' :: joinBreaks rest := by
  induction raw with
  | nil => rfl
  | cons c raw ih =>
      have hraw : '\n' ∉ raw := fun hmem => h (List.mem_cons_of_mem c hmem)
      rw [List.cons_append, joinBreaks_cons, ih hraw]
      · rfl
      · intro _ hhead
        cases raw with
        | nil => simp at hhead
        | cons d raw =>
            simp only [List.cons_append, List.head?_cons, Option.some.injEq] at hhead
            exact hraw (by simp [hhead])

end Source

/-! ### Blanks at the end of a line -/

namespace Source

/-- Up to a line break there is one line, up to the blanks at its end. -/
theorem physicalLines_line {raw : List Char} (h : '\n' ∉ raw) (rest : List Char) :
    ∃ kept, Text.stripEnd kept = Text.stripEnd raw ∧
      physicalLines (raw ++ '\n' :: rest) = kept :: physicalLines rest := by
  by_cases hlast : raw.getLast? = some '\r'
  · obtain ⟨kept, rfl⟩ := List.getLast?_eq_some_iff.1 hlast
    have hkept : '\n' ∉ kept := fun hmem => h (List.mem_append_left _ hmem)
    refine ⟨kept, (Text.stripEnd_append (by decide) kept).symm, ?_⟩
    rw [List.append_assoc, List.singleton_append, physicalLines, joinBreaks_carriage hkept,
      splitLines, splitFrom_break hkept]
    rfl
  · exact ⟨raw, rfl, physicalLines_break h hlast rest⟩

end Source

namespace Line

section Blanks

variable {blanks : List Char} (h : ∀ c ∈ blanks, Text.isBlank c = true) (raw : List Char)

include h

/-- Behind its indent, a line goes on with the blanks at its end, unless it is blank. -/
theorem dropWhile_append_blanks :
    (raw ++ blanks).dropWhile Text.isBlank =
      if raw.dropWhile Text.isBlank = [] then [] else raw.dropWhile Text.isBlank ++ blanks := by
  simp only [List.dropWhile_append, List.isEmpty_iff, List.dropWhile_eq_nil_iff.2 h]

theorem isSkipped_append_blanks : isSkipped (raw ++ blanks) = isSkipped raw := by
  rw [isSkipped, isSkipped, dropWhile_append_blanks h]
  cases raw.dropWhile Text.isBlank <;> rfl

theorem strip_append_blanks : Text.strip (raw ++ blanks) = Text.strip raw := by
  rw [Text.strip, Text.strip, dropWhile_append_blanks h]
  split
  · rename_i hnil
    rw [hnil]
  · exact Text.stripEnd_append h _

omit h in
/-- A line that is not blank keeps its indent. -/
theorem takeWhile_append_blanks (hskip : isSkipped raw = false) :
    (raw ++ blanks).takeWhile Text.isBlank = raw.takeWhile Text.isBlank := by
  rw [List.takeWhile_append, if_neg]
  intro hlength
  have hall : raw.takeWhile Text.isBlank = raw :=
    (List.takeWhile_prefix Text.isBlank).eq_of_length hlength
  have hdrop : raw.dropWhile Text.isBlank = [] :=
    List.dropWhile_eq_nil_iff.2 (List.takeWhile_eq_self_iff.1 hall)
  simp [isSkipped, hdrop] at hskip

end Blanks

/-- Lines that differ in the blanks at their end only are both skipped, or have the same text behind
the same indent. -/
theorem reads_of_stripEnd_eq {raw raw' : List Char}
    (h : Text.stripEnd raw' = Text.stripEnd raw) :
    isSkipped raw' = isSkipped raw ∧ Text.strip raw' = Text.strip raw ∧
      (isSkipped raw = false →
        raw'.takeWhile Text.isBlank = raw.takeWhile Text.isBlank) := by
  obtain ⟨blanks, hblanks, hraw⟩ := Text.exists_stripEnd_append raw
  obtain ⟨blanks', hblanks', hraw'⟩ := Text.exists_stripEnd_append raw'
  rw [h] at hraw'
  generalize Text.stripEnd raw = text at hraw hraw'
  subst hraw hraw'
  rw [isSkipped_append_blanks hblanks, isSkipped_append_blanks hblanks',
    strip_append_blanks hblanks, strip_append_blanks hblanks']
  refine ⟨rfl, rfl, fun hskip => ?_⟩
  rw [takeWhile_append_blanks text hskip, takeWhile_append_blanks text hskip]

end Line

/-! ### Edits -/

namespace Layout

/-- A text up to the start of a line. -/
def AtLineStart (pre : List Char) : Prop := pre = [] ∨ pre.getLast? = some '\n'

/-- A text from a line's end on: a line break, alone or behind a carriage return, or nothing. -/
def AtLineEnd (post : List Char) : Prop :=
  post = [] ∨ post.head? = some '\n' ∨ ∃ rest, post = '\r' :: '\n' :: rest

/-- A line of no significance, which may stand anywhere. -/
def IsIdle (line : List Char) : Prop := '\n' ∉ line ∧ Line.isSkipped line = true

/-- The number of a line after another one is put behind the first `k` lines. -/
def insertAfter (k : Nat) (number : Int) : Int := if number ≤ k then number else number + 1

/-- An edit of the layout of a text, with the number that each of its lines has afterwards. -/
inductive Edit : (Int → Int) → List Char → List Char → Prop
  /-- A line of no significance is put before any line. -/
  | insert {pre line post : List Char} : AtLineStart pre → IsIdle line →
      Edit (insertAfter (pre.count '\n')) (pre ++ post) (pre ++ line ++ '\n' :: post)
  /-- A line of no significance is put behind the last line. -/
  | append {source line : List Char} : IsIdle line → Edit id source (source ++ '\n' :: line)
  /-- A line of no significance is put behind the last line break. -/
  | finish {source line : List Char} : AtLineStart source → IsIdle line →
      Edit id source (source ++ line)
  /-- Blanks are put at the end of a line. -/
  | pad {pre blanks post : List Char} :
      (∀ c ∈ blanks, Text.isBlank c = true ∧ c ≠ '\n') → AtLineEnd post →
      Edit id (pre ++ post) (pre ++ blanks ++ post)
  /-- A carriage return is put before a line break. -/
  | carry {pre post : List Char} : Edit id (pre ++ '\n' :: post) (pre ++ '\r' :: '\n' :: post)

/-- Any number of edits, one after the other. -/
inductive Edits : (Int → Int) → List Char → List Char → Prop
  | refl (source : List Char) : Edits id source source
  | step {f g : Int → Int} {source source' source'' : List Char} :
      Edits f source source' → Edit g source' source'' → Edits (g ∘ f) source source''

/-! ### Physical lines before and after an edit -/

/-- Lines numbered from `n` on, and from `n'` on after an edit: a line is kept, up to the blanks at
its end, under the number that `f` gives it; lines of no significance are put in or exchanged. -/
inductive Follows (f : Int → Int) : Nat → Nat → List (List Char) → List (List Char) → Prop
  | nil (n n' : Nat) : Follows f n n' [] []
  | keep {n n' : Nat} {raw raw' : List Char} {raws raws' : List (List Char)} :
      f n = n' → Text.stripEnd raw' = Text.stripEnd raw →
      Follows f (n + 1) (n' + 1) raws raws' → Follows f n n' (raw :: raws) (raw' :: raws')
  | insert {n n' : Nat} {raw' : List Char} {raws raws' : List (List Char)} :
      Line.isSkipped raw' = true → Follows f n (n' + 1) raws raws' →
      Follows f n n' raws (raw' :: raws')
  | exchange {n n' : Nat} {raw raw' : List Char} {raws raws' : List (List Char)} :
      Line.isSkipped raw = true → Line.isSkipped raw' = true →
      Follows f (n + 1) (n' + 1) raws raws' → Follows f n n' (raw :: raws) (raw' :: raws')

variable {f : Int → Int}

/-- Lines that are left as they are. -/
theorem Follows.refl {n n' : Nat} (raws : List (List Char)) (h : ∀ i : Nat, f (n + i) = n' + i) :
    Follows f n n' raws raws := by
  induction raws generalizing n n' with
  | nil => exact .nil n n'
  | cons raw raws ih =>
      refine .keep (by simpa using h 0) rfl (ih fun i => ?_)
      have := h (i + 1)
      push_cast at this ⊢
      rw [show (n : Int) + 1 + i = n + (i + 1) by omega, this]
      omega

/-- Lines before those that an edit concerns. -/
theorem Follows.append_left {n : Nat} {raws raws' : List (List Char)}
    (before : List (List Char)) (h : ∀ i : Nat, i < before.length → f (n + i) = n + i)
    (hfollows : Follows f (n + before.length) (n + before.length) raws raws') :
    Follows f n n (before ++ raws) (before ++ raws') := by
  induction before generalizing n with
  | nil => exact hfollows
  | cons raw before ih =>
      refine .keep (by simpa using h 0 (by simp)) rfl (ih (fun i hi => ?_) ?_)
      · have := h (i + 1) (by simpa using hi)
        push_cast at this ⊢
        rw [show (n : Int) + 1 + i = n + (i + 1) by omega, this]
      · rw [List.length_cons] at hfollows
        rwa [show n + 1 + before.length = n + (before.length + 1) by omega]

/-- The lines before the start of a line do not depend on what follows. -/
theorem AtLineStart.physicalLines_append {pre : List Char} (h : AtLineStart pre) :
    ∃ before, before.length = pre.count '\n' ∧
      ∀ post, Source.physicalLines (pre ++ post) = before ++ Source.physicalLines post := by
  rcases h with rfl | hlast
  · exact ⟨[], rfl, fun post => rfl⟩
  · obtain ⟨pre, rfl⟩ := List.getLast?_eq_some_iff.1 hlast
    obtain ⟨before, hlength, hbefore⟩ := Source.physicalLines_append pre
    refine ⟨before, by simp [hlength], fun post => ?_⟩
    rw [List.append_assoc, List.singleton_append, hbefore]

/-- Every place in a text lies on a line. -/
theorem exists_lineStart (pre : List Char) :
    ∃ start text, pre = start ++ text ∧ AtLineStart start ∧ '\n' ∉ text := by
  induction pre using List.reverseRecOn with
  | nil => exact ⟨[], [], rfl, .inl rfl, by simp⟩
  | append_singleton pre c ih =>
      by_cases hc : c = '\n'
      · exact ⟨pre ++ [c], [], by simp, .inr (by simp [hc]), by simp⟩
      · obtain ⟨start, text, rfl, hstart, htext⟩ := ih
        exact ⟨start, text ++ [c], by simp, hstart, by simp [htext, Ne.symm hc]⟩

/-- The end of a line closes one line, up to the blanks at its end. -/
theorem AtLineEnd.physicalLines_append {post : List Char} (h : AtLineEnd post) :
    ∃ after, ∀ text, '\n' ∉ text → ∃ raw, Text.stripEnd raw = Text.stripEnd text ∧
      Source.physicalLines (text ++ post) = raw :: after := by
  rcases h with rfl | hbreak | ⟨rest, rfl⟩
  · refine ⟨[], fun text htext => ⟨text, rfl, ?_⟩⟩
    rw [List.append_nil, Source.physicalLines_eq htext]
  · obtain ⟨rest, rfl⟩ := List.head?_eq_some_iff.1 hbreak
    exact ⟨Source.physicalLines rest, fun text htext => Source.physicalLines_line htext rest⟩
  · refine ⟨Source.physicalLines rest, fun text htext => ?_⟩
    have htext' : '\n' ∉ text ++ ['\r'] := by simpa using htext
    obtain ⟨raw, hraw, hlines⟩ := Source.physicalLines_line htext' rest
    rw [Text.stripEnd_append (by decide)] at hraw
    exact ⟨raw, hraw, by simpa using hlines⟩

/-- Lines before the place of an edit keep their number. -/
theorem insertAfter_of_le {k : Nat} {number : Int} (h : number ≤ k) :
    insertAfter k number = number := if_pos h

theorem insertAfter_of_lt {k : Nat} {number : Int} (h : k < number) :
    insertAfter k number = number + 1 := if_neg (by omega)

/-- Blanks at the end of a line. -/
theorem follows_pad (pre : List Char) {blanks post : List Char}
    (hblanks : ∀ c ∈ blanks, Text.isBlank c = true ∧ c ≠ '\n') (hpost : AtLineEnd post) :
    Follows id 1 1 (Source.physicalLines (pre ++ post))
      (Source.physicalLines (pre ++ blanks ++ post)) := by
  obtain ⟨start, text, rfl, hstart, htext⟩ := exists_lineStart pre
  obtain ⟨before, -, hbefore⟩ := hstart.physicalLines_append
  obtain ⟨after, hafter⟩ := hpost.physicalLines_append
  obtain ⟨raw, hraw, hlines⟩ := hafter text htext
  have htext' : '\n' ∉ text ++ blanks := by
    intro hmem
    rcases List.mem_append.1 hmem with hmem | hmem
    · exact htext hmem
    · exact (hblanks _ hmem).2 rfl
  obtain ⟨raw', hraw', hlines'⟩ := hafter (text ++ blanks) htext'
  rw [Text.stripEnd_append fun c hc => (hblanks c hc).1] at hraw'
  rw [List.append_assoc, List.append_assoc, List.append_assoc, hbefore, hbefore, hlines,
    ← List.append_assoc, hlines']
  apply Follows.append_left before (fun i _ => rfl)
  exact .keep rfl (by rw [hraw', hraw]) (.refl after fun i => rfl)

/-- **What an edit does to the physical lines.** -/
theorem Edit.follows {source source' : List Char} (h : Edit f source source') :
    Follows f 1 1 (Source.physicalLines source) (Source.physicalLines source') := by
  cases h with
  | @insert pre line post hpre hline =>
      obtain ⟨before, hlength, hbefore⟩ := hpre.physicalLines_append
      obtain ⟨raw, hraw, hlines⟩ := Source.physicalLines_line hline.1 post
      have hskip : Line.isSkipped raw = true := by
        rw [(Line.reads_of_stripEnd_eq hraw).1, hline.2]
      rw [List.append_assoc, hbefore, hbefore, hlines, ← hlength]
      apply Follows.append_left before
      · intro i hi
        exact insertAfter_of_le (by omega)
      · refine .insert hskip (.refl _ fun i => ?_)
        rw [insertAfter_of_lt (by omega)]
        push_cast
        omega
  | @append source line hline =>
      obtain ⟨start, text, rfl, hstart, htext⟩ := exists_lineStart source
      obtain ⟨before, -, hbefore⟩ := hstart.physicalLines_append
      obtain ⟨raw, hraw, hlines⟩ := Source.physicalLines_line htext line
      rw [List.append_assoc, hbefore, hbefore, hlines, Source.physicalLines_eq htext,
        Source.physicalLines_eq hline.1]
      apply Follows.append_left before (fun i _ => rfl)
      exact .keep rfl hraw (.insert hline.2 (.nil _ _))
  | @finish source line hsource hline =>
      obtain ⟨before, -, hbefore⟩ := hsource.physicalLines_append
      have hlast := hbefore []
      rw [List.append_nil] at hlast
      rw [hlast, hbefore, Source.physicalLines_eq hline.1]
      apply Follows.append_left before (fun i _ => rfl)
      exact .exchange rfl hline.2 (.nil _ _)
  | @pad pre blanks post hblanks hpost => exact follows_pad pre hblanks hpost
  | @carry pre post =>
      have hreturn : ∀ c ∈ ['\r'], Text.isBlank c = true ∧ c ≠ '\n' := by decide
      have hpost : AtLineEnd ('\n' :: post) := .inr (.inl rfl)
      simpa using follows_pad pre hreturn hpost

/-! ### Significant lines before and after an edit -/

/-- The reader of lines finds the same tab, under its new number, or the same lines. -/
theorem Follows.linesFrom {n n' : Nat} {raws raws' : List (List Char)}
    (h : Follows f n n' raws raws') :
    (∃ m m' : Nat, f m = m' ∧ Source.linesFrom n raws = .error m ∧
      Source.linesFrom n' raws' = .error m') ∨
    ∃ lines lines', Source.linesFrom n raws = .ok lines ∧
      Source.linesFrom n' raws' = .ok lines' ∧ List.Forall₂ (Line.Moved f 0) lines lines' := by
  induction h with
  | nil n n' => exact .inr ⟨[], [], rfl, rfl, .nil⟩
  | insert hskip _ ih => simpa [Source.linesFrom, Line.ofPhysical, hskip] using ih
  | exchange hskip hskip' _ ih =>
      simpa [Source.linesFrom, Line.ofPhysical, hskip, hskip'] using ih
  | @keep n n' raw raw' raws raws' hnumber hraw _ ih =>
      obtain ⟨hskip, hstrip, htake⟩ := Line.reads_of_stripEnd_eq hraw
      cases hidle : Line.isSkipped raw with
      | true => simpa [Source.linesFrom, Line.ofPhysical, hskip, hidle] using ih
      | false =>
          simp only [Source.linesFrom, Line.ofPhysical, hskip, hidle, htake hidle, hstrip]
          by_cases htab : (raw.takeWhile Text.isBlank).contains '\t' = true
          · simp only [htab]
            exact .inl ⟨n, n', hnumber, rfl, rfl⟩
          · simp only [htab]
            rcases ih with ⟨m, m', hm, hread, hread'⟩ | ⟨lines, lines', hread, hread', hlines⟩
            · simp only [hread, hread']
              exact .inl ⟨m, m', hm, rfl, rfl⟩
            · simp only [hread, hread']
              exact .inr ⟨_, _, rfl, rfl, .cons ⟨hnumber.symm, (Int.add_zero _).symm, rfl⟩ hlines⟩

/-- A line that is not skipped is found again under its new number. -/
theorem Follows.exists_line {n n' : Nat} {raws raws' : List (List Char)}
    (h : Follows f n n' raws raws') {i : Nat} {raw : List Char} (hraw : raws[i]? = some raw)
    (hskip : Line.isSkipped raw = false) :
    ∃ (j : Nat) (raw' : List Char), f (n + i) = n' + j ∧ raws'[j]? = some raw' ∧
      Text.stripEnd raw' = Text.stripEnd raw := by
  induction h generalizing i with
  | nil n n' => simp at hraw
  | @insert n n' raw' raws raws' _ _ ih =>
      obtain ⟨j, raw', hf, hget, hsame⟩ := ih hraw
      exact ⟨j + 1, raw', by rw [hf]; push_cast; omega, hget, hsame⟩
  | @exchange n n' first first' raws raws' hfirst _ _ ih =>
      cases i with
      | zero =>
          simp only [List.getElem?_cons_zero, Option.some.injEq] at hraw
          simp [hraw, hskip] at hfirst
      | succ i =>
          obtain ⟨j, raw', hf, hget, hsame⟩ := ih hraw
          refine ⟨j + 1, raw', ?_, hget, hsame⟩
          push_cast at hf ⊢
          rw [show (n : Int) + (i + 1) = n + 1 + i by omega, hf]
          omega
  | @keep n n' first first' raws raws' hnumber hfirst _ ih =>
      cases i with
      | zero =>
          simp only [List.getElem?_cons_zero, Option.some.injEq] at hraw
          exact ⟨0, first', by simpa using hnumber, rfl, by rw [hfirst, hraw]⟩
      | succ i =>
          obtain ⟨j, raw', hf, hget, hsame⟩ := ih hraw
          refine ⟨j + 1, raw', ?_, hget, hsame⟩
          push_cast at hf ⊢
          rw [show (n : Int) + (i + 1) = n + 1 + i by omega, hf]
          omega

/-- A line that is not skipped is found again after any number of edits. -/
theorem Edits.exists_line {source source' : List Char} (h : Edits f source source') {i : Nat}
    {raw : List Char} (hraw : (Source.physicalLines source)[i]? = some raw)
    (hskip : Line.isSkipped raw = false) :
    ∃ (j : Nat) (raw' : List Char), f (i + 1) = j + 1 ∧
      (Source.physicalLines source')[j]? = some raw' ∧
      Text.stripEnd raw' = Text.stripEnd raw := by
  induction h with
  | refl source => exact ⟨i, raw, rfl, hraw, rfl⟩
  | @step f g source source' source'' _ hedit ih =>
      obtain ⟨j, raw', hf, hget, hsame⟩ := ih hraw
      have hskip' : Line.isSkipped raw' = false := by
        rw [(Line.reads_of_stripEnd_eq hsame).1, hskip]
      obtain ⟨k, raw'', hg, hget', hsame'⟩ := hedit.follows.exists_line hget hskip'
      refine ⟨k, raw'', ?_, hget', by rw [hsame', hsame]⟩
      rw [Function.comp_apply, hf, Int.add_comm, Int.add_comm k]
      exact hg

end Layout

/-! ### Sources under other line numbers -/

/-- A fault under other line numbers. -/
def Parse.Fault.renumber (f : Int → Int) (fault : Fault) : Fault :=
  match fault with
  | .at line cause => .at (f line) cause
  | fault => fault

/-- A diagnostic under other line numbers. -/
def Diagnostic.renumber (f : Int → Int) (d : Diagnostic) : Diagnostic :=
  { d with line := d.line.map f }

theorem Parse.Fault.move_zero (f : Int → Int) (fault : Fault) :
    fault.move f 0 = fault.renumber f := by
  cases fault with
  | «at» line cause => exact congrArg (Fault.at (f line)) cause.shift_zero
  | foreignWord vocabulary word => rfl
  | tooManyDigits count => rfl
  | noWord => rfl

theorem Parse.Fault.renumber_id (fault : Fault) : fault.renumber id = fault := by
  cases fault <;> rfl

theorem Parse.Fault.renumber_comp (f g : Int → Int) (fault : Fault) :
    (fault.renumber f).renumber g = fault.renumber (g ∘ f) := by
  cases fault <;> rfl

/-- What is told about a cause depends on the line in nothing but its number. -/
theorem Parse.Cause.diagnostic_renumber (f : Int → Int) (line : Int) (cause : Cause) :
    (cause.diagnostic line).renumber f = cause.diagnostic (f line) := by
  simp only [diagnostic]
  cases cause.indents <;> rfl

namespace Program

open Parse Layout

/-- A source whose fault is renumbered is told so in its diagnostic. -/
theorem tryParse_renumber {f : Int → Int} {source source' : String}
    (h : parse source' = (parse source).mapError (Fault.renumber f)) :
    tryParse source' = (tryParse source).map (Except.mapError (Diagnostic.renumber f)) := by
  rw [tryParse, tryParse, h]
  cases parse source with
  | ok program => rfl
  | error fault =>
      cases fault with
      | «at» line cause =>
          simp [Except.mapError, Fault.renumber, Except.map, Cause.diagnostic_renumber]
      | foreignWord vocabulary word => rfl
      | tooManyDigits count => rfl
      | noWord => rfl

/-- **One edit of the layout**: the program is the same, or the fault is found at the line that was
moved to. -/
theorem parse_edit {f : Int → Int} {source source' : List Char} (h : Edit f source source') :
    parse (String.ofList source') =
      (parse (String.ofList source)).mapError (Fault.renumber f) := by
  rw [parse, parse, Source.lines, Source.lines, String.toList_ofList, String.toList_ofList]
  rcases h.follows.linesFrom with
    ⟨m, m', hm, hread, hread'⟩ | ⟨lines, lines', hread, hread', hlines⟩
  · simp only [hread, hread', Except.mapError, Fault.renumber, hm]
  · simp only [hread, hread', ofLines_moved hlines]
    cases ofLines lines with
    | ok program => rfl
    | error failure =>
        simp only [Except.mapError, Failure.move, Fault.move_zero]

/-- Any number of edits of the layout. -/
theorem parse_ofList_edits {f : Int → Int} {source source' : List Char}
    (h : Edits f source source') :
    parse (String.ofList source') =
      (parse (String.ofList source)).mapError (Fault.renumber f) := by
  induction h with
  | refl source =>
      cases parse (String.ofList source) with
      | ok program => rfl
      | error fault => simp [Except.mapError, Fault.renumber_id]
  | step _ hedit ih =>
      rw [parse_edit hedit, ih]
      cases parse (String.ofList _) with
      | ok program => rfl
      | error fault => simp [Except.mapError, Fault.renumber_comp]

/-- **The layout of a source does not matter.**  After any number of edits it is the same program,
or it is refused for the same reason, told in the same words, at the new number of the line; and
that number is where the line now stands. -/
theorem parse_edits {f : Int → Int} {source source' : String}
    (h : Edits f source.toList source'.toList) :
    parse source' = (parse source).mapError (Fault.renumber f) ∧
    tryParse source' = (tryParse source).map (Except.mapError (Diagnostic.renumber f)) ∧
    ∀ (i : Nat) (raw : List Char), (Source.physicalLines source.toList)[i]? = some raw →
      Line.isSkipped raw = false →
      ∃ (j : Nat) (raw' : List Char), f (i + 1) = j + 1 ∧
        (Source.physicalLines source'.toList)[j]? = some raw' ∧
        Text.stripEnd raw' = Text.stripEnd raw := by
  have hparse := parse_ofList_edits h
  rw [String.ofList_toList, String.ofList_toList] at hparse
  exact ⟨hparse, tryParse_renumber hparse, fun i raw hraw hskip => h.exists_line hraw hskip⟩

/-- A block that is indented by one space only is refused at its first line. -/
theorem parse_badStep : parse "when e\n show 1" = .error (.at 2 (.badStep "when" 2 1)) := by
  have hlines : Source.lines "when e\n show 1" =
      .ok [⟨1, 0, "when e", "when e"⟩, ⟨2, 1, "show 1", " show 1"⟩] := rfl
  have hheader : readHeader ⟨1, 0, "when e", "when e"⟩ = .ok (.when "e") := rfl
  have hopen : blockFault? ⟨1, 0, "when e", "when e"⟩ "when" 0 [⟨2, 1, "show 1", " show 1"⟩] =
      some (.at 2 (.badStep "when" 2 1)) := rfl
  have hread : readBlock 0 [⟨1, 0, "when e", "when e"⟩, ⟨2, 1, "show 1", " show 1"⟩] =
      .error ⟨.at 2 (.badStep "when" 2 1), []⟩ := by
    simp [readBlock_cons, readStatement_eq, hheader, readChild_eq, hopen]
  simp only [parse, hlines, ofLines, hread]

/-- A comment above, a blank behind the first line and another form of line break move the fault of
the second line to the third. -/
theorem parse_edits_comment :
    Edits (id ∘ id ∘ insertAfter 0 ∘ id) "when e\n show 1".toList
      "\t# note\nwhen e \r\n show 1".toList ∧
    parse "\t# note\nwhen e \r\n show 1" = .error (.at 3 (.badStep "when" 2 1)) := by
  have hidle : IsIdle "\t# note".toList := ⟨by decide, by decide⟩
  have hblank : ∀ c ∈ [' '], Text.isBlank c = true ∧ c ≠ '\n' := by decide
  have hend : AtLineEnd "\n show 1".toList := .inr (.inl rfl)
  have hnote : Edit (insertAfter 0) "when e\n show 1".toList "\t# note\nwhen e\n show 1".toList :=
    .insert (.inl rfl) hidle
  have hpad : Edit id ("\t# note\nwhen e".toList ++ "\n show 1".toList)
      ("\t# note\nwhen e".toList ++ [' '] ++ "\n show 1".toList) := .pad hblank hend
  have hcarry : Edit id ("\t# note\nwhen e ".toList ++ '\n' :: " show 1".toList)
      ("\t# note\nwhen e ".toList ++ '\r' :: '\n' :: " show 1".toList) := .carry
  have hedits : Edits (id ∘ id ∘ insertAfter 0 ∘ id) "when e\n show 1".toList
      "\t# note\nwhen e \r\n show 1".toList :=
    (((Edits.refl _).step hnote).step hpad).step hcarry
  refine ⟨hedits, ?_⟩
  rw [(parse_edits hedits).1, parse_badStep]
  rfl

end Program

end Waymark
