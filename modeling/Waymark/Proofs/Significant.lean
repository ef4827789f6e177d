/-
**What the significant lines of a source are.**

`Source.lines` goes through a source once, from line to line, and looks at each line from its left
end.  This module says what it gives without following it.  A source is cut at its line breaks, to
which a carriage return right before them belongs; the pieces are numbered from one; blank pieces and
comments are passed over; and each of the others is an indent, a text and blanks.

The facts that are stated of a line determine it, so that they are not only true of what is read but
say which lines are read.

Main definitions:

* `Line.IsBlank`, `Line.IsComment`, `Line.IsSignificant` — the kinds of physical lines;
* `Line.HasTab` — a tab among the blanks that a line starts with;
* `Line.Holds` — the significant line that a physical line holds;
* `Source.unified`, `Source.significant` — the numbered lines of a source that are of significance;
* `Source.IsReading`, `Source.IsFirstTab` — the two ways in which reading a source ends.

Main results:

* `Source.physicalLines_eq_splitOn` — a source is cut at its line breaks;
* `Line.Holds.eq_cut` — **what is known of a line determines it**;
* `Source.lines_are_the_significant_ones` — **a source has one line for each significant physical line,
  and is refused exactly for the first of them that has a tab in its indent**.
-/
import Mathlib.Data.List.Infix
import Waymark.Proofs.Layout
import Waymark.Proofs.SourceLine

set_option relaxedAutoImplicit false
set_option autoImplicit false

namespace Waymark

open Text (isBlank)

/-! ### Physical lines -/

namespace Line

/-- A line of blanks only. -/
def IsBlank (raw : List Char) : Prop := ∀ c ∈ raw, isBlank c = true

/-- A line whose first character that is no blank is a hash. -/
def IsComment (raw : List Char) : Prop :=
  ∃ blanks rest, raw = blanks ++ '#' :: rest ∧ ∀ b ∈ blanks, isBlank b = true

/-- A line that is neither blank nor a comment. -/
def IsSignificant (raw : List Char) : Prop := ¬ IsBlank raw ∧ ¬ IsComment raw

/-- A line with a tab among the blanks that it starts with. -/
def HasTab (raw : List Char) : Prop :=
  ∃ blanks rest, raw = blanks ++ '\t' :: rest ∧ ∀ b ∈ blanks, isBlank b = true

/-- `Holds number raw line`: the physical line `raw` is an indent, the text of `line` and blanks, and
`line` has the given number.  The indent is all blanks that `raw` starts with; the text is not empty,
keeps to the line, has no blanks at its ends and is no comment. -/
structure Holds (number : Nat) (raw : List Char) (line : Line) : Prop where
  number_eq : line.number = number
  raw_eq : line.raw = String.ofList raw
  parts : ∃ blanks behind, raw = blanks ++ (line.text.toList ++ behind) ∧
    line.indent = blanks.length ∧ (∀ b ∈ blanks, isBlank b = true) ∧ ∀ b ∈ behind, isBlank b = true
  longest : ∀ blanks rest, raw = blanks ++ rest → (∀ b ∈ blanks, isBlank b = true) →
    blanks.length ≤ line.indent
  phrase : Text.IsPhrase line.text.toList
  no_comment : line.text.toList.head? ≠ some '#'

theorem isSkipped_iff {raw : List Char} : isSkipped raw = true ↔ IsBlank raw ∨ IsComment raw := by
  rw [isSkipped]
  constructor
  · intro h
    split at h
    · rename_i hdrop
      exact .inl (List.dropWhile_eq_nil_iff.1 hdrop)
    · rename_i c rest hdrop
      have hcut : raw = raw.takeWhile isBlank ++ raw.dropWhile isBlank :=
        List.takeWhile_append_dropWhile.symm
      rw [hdrop, beq_iff_eq.1 h] at hcut
      exact .inr ⟨_, rest, hcut, fun b hb => List.mem_takeWhile_imp hb⟩
  · rintro (h | ⟨blanks, rest, rfl, hblanks⟩)
    · rw [List.dropWhile_eq_nil_iff.2 h]
    · rw [List.dropWhile_append_of_pos hblanks]
      rfl

theorem isSkipped_eq_false_iff {raw : List Char} :
    isSkipped raw = false ↔ IsSignificant raw := by
  rw [IsSignificant, ← not_or, ← isSkipped_iff, Bool.not_eq_true]

instance (raw : List Char) : Decidable (IsSignificant raw) :=
  decidable_of_iff _ isSkipped_eq_false_iff

/-- A tab is looked for in the whole indent. -/
theorem contains_tab_iff {raw : List Char} :
    (raw.takeWhile isBlank).contains '\t' = true ↔ HasTab raw := by
  rw [List.contains_iff_mem]
  constructor
  · intro h
    obtain ⟨blanks, rest, hcut⟩ := List.append_of_mem h
    refine ⟨blanks, rest ++ raw.dropWhile isBlank, ?_, ?_⟩
    · rw [← List.cons_append, ← List.append_assoc, ← hcut, List.takeWhile_append_dropWhile]
    · intro b hb
      have hmem : b ∈ raw.takeWhile isBlank := by
        rw [hcut]
        exact List.mem_append_left _ hb
      exact List.mem_takeWhile_imp hmem
  · rintro ⟨blanks, rest, rfl, hblanks⟩
    have htab : isBlank '\t' = true := rfl
    rw [List.takeWhile_append_of_pos hblanks, List.takeWhile_cons_of_pos htab]
    simp

instance (raw : List Char) : Decidable (HasTab raw) := decidable_of_iff _ contains_tab_iff

/-! ### The line that a physical line holds -/

/-- The significant line of a physical line that has one. -/
def cut (number : Nat) (raw : List Char) : Line :=
  ⟨number, (raw.takeWhile isBlank).length, String.ofList (Text.strip raw), String.ofList raw⟩

theorem ofPhysical_of_not_isSignificant {raw : List Char} (h : ¬ IsSignificant raw)
    (number : Nat) : ofPhysical number raw = .skipped := by
  rw [← isSkipped_eq_false_iff, Bool.not_eq_false] at h
  rw [ofPhysical, if_pos h]

theorem ofPhysical_of_isSignificant {raw : List Char} (h : IsSignificant raw) (number : Nat) :
    ofPhysical number raw =
      if HasTab raw then .tabbed else .significant (cut number raw) := by
  rw [← isSkipped_eq_false_iff] at h
  simp only [ofPhysical, h, Bool.false_eq_true, if_false, contains_tab_iff]
  rfl

/-- A physical line of significance holds a line. -/
theorem holds_cut {raw : List Char} (h : IsSignificant raw) (hbreak : '\n' ∉ raw)
    (number : Nat) : Holds number raw (cut number raw) := by
  have hskip := isSkipped_eq_false_iff.2 h
  have hphrase := Text.isPhrase_strip hbreak (strip_ne_nil hskip)
  obtain ⟨behind, hbehind, hdrop⟩ := Text.exists_stripEnd_append (raw.dropWhile isBlank)
  rw [← Text.strip] at hdrop
  have hraw : raw = raw.takeWhile isBlank ++ (Text.strip raw ++ behind) := by
    rw [← hdrop, List.takeWhile_append_dropWhile]
  have hblanks : ∀ b ∈ raw.takeWhile isBlank, isBlank b = true :=
    fun b hb => List.mem_takeWhile_imp hb
  constructor
  case number_eq => rfl
  case raw_eq => rfl
  case parts =>
    refine ⟨_, behind, ?_, rfl, hblanks, hbehind⟩
    rwa [cut, String.toList_ofList]
  case longest =>
    intro blanks rest hcut hall
    have htake : raw.takeWhile isBlank = blanks ++ rest.takeWhile isBlank := by
      rw [hcut, List.takeWhile_append_of_pos hall]
    have hlength := congrArg List.length htake
    rw [List.length_append] at hlength
    simp only [cut]
    omega
  case phrase => rwa [cut, String.toList_ofList]
  case no_comment =>
    rw [cut, String.toList_ofList]
    intro hhash
    obtain ⟨rest, hstrip⟩ := List.head?_eq_some_iff.1 hhash
    rw [hstrip, List.cons_append] at hraw
    exact h.2 ⟨_, _, hraw, hblanks⟩

/-- **What is known of a line determines it.** -/
theorem Holds.eq_cut {number : Nat} {raw : List Char} {line : Line} (h : Holds number raw line) :
    line = cut number raw := by
  obtain ⟨hnumber, hrawline, ⟨blanks, behind, hraw, hindent, hblanks, hbehind⟩, -, hphrase, -⟩ := h
  have hsolid := hphrase.starts.append hphrase.ne_nil behind
  have htake : raw.takeWhile isBlank = blanks := by
    rw [hraw, List.takeWhile_append_of_pos hblanks, hsolid.takeWhile_eq, List.append_nil]
  have hstrip : Text.strip raw = line.text.toList := by
    rw [hraw, Text.strip, List.dropWhile_append_of_pos hblanks, hsolid.dropWhile_eq,
      Text.stripEnd_append hbehind, Text.stripEnd, hphrase.ends.dropWhile_eq, List.reverse_reverse]
  cases line with
  | mk lineNumber indent text rawText =>
      simp only at hnumber hrawline hindent hstrip
      rw [cut, htake, hstrip, String.ofList_toList, hnumber, hrawline, hindent]

end Line

/-! ### The lines of a source -/

namespace Source

/-- A text without the carriage returns that stand right before a line break: of each place in it the
character that stands there, unless both stand there. -/
def unified (cs : List Char) : List Char :=
  cs.tails.filterMap fun rest => if ['\r', '\n'] <+: rest then none else rest.head?

/-- Numbered physical lines, those that are of significance. -/
def significantFrom (number : Nat) (raws : List (List Char)) : List (List Char × Nat) :=
  (raws.zipIdx number).filter fun entry => Line.IsSignificant entry.1

/-- The lines of a source that are of significance, with their numbers: it is cut at its line breaks,
and the pieces are numbered from one. -/
def significant (source : String) : List (List Char × Nat) :=
  significantFrom 1 ((unified source.toList).splitOn '\n')

/-- `IsReading source lines`: what is read of a source.  No line of significance has a tab in its
indent, each of them holds one of the lines, in order, and the numbers of the lines increase. -/
structure IsReading (source : String) (lines : List Line) : Prop where
  untabbed : ∀ entry ∈ significant source, ¬ Line.HasTab entry.1
  held : List.Forall₂ (fun entry line => Line.Holds entry.2 entry.1 line) (significant source) lines
  increasing : lines.Pairwise fun first second => first.number < second.number

/-- `IsFirstTab source number`: the given line is the first of significance that has a tab in its
indent. -/
def IsFirstTab (source : String) (number : Nat) : Prop :=
  ∃ before raw after, significant source = before ++ (raw, number) :: after ∧ Line.HasTab raw ∧
    ∀ entry ∈ before, ¬ Line.HasTab entry.1

theorem joinBreaks_eq_unified (cs : List Char) : joinBreaks cs = unified cs := by
  induction cs with
  | nil => simp [unified, joinBreaks]
  | cons c rest ih =>
      rw [unified, List.tails_cons, List.filterMap_cons]
      by_cases hprefix : ['\r', '\n'] <+: c :: rest
      · -- the carriage return is left out, and the line break is kept as it is without it
        simp only [if_pos hprefix]
        obtain ⟨more, hmore⟩ := hprefix
        obtain ⟨rfl, rfl⟩ := List.cons.inj hmore
        calc joinBreaks ('\r' :: ([] ++ '\n' :: more))
            = '\n' :: joinBreaks more := joinBreaks.eq_2 more
          _ = joinBreaks ('\n' :: more) := (joinBreaks_cons (by simp)).symm
          _ = unified ('\n' :: more) := ih
      · simp only [if_neg hprefix, List.head?_cons]
        rw [joinBreaks_cons, ih, unified]
        rintro rfl hhead
        cases rest with
        | nil => simp at hhead
        | cons d rest =>
            obtain rfl := Option.some.inj hhead
            exact hprefix ⟨rest, rfl⟩

theorem splitFrom_eq_splitOnPPrepend (piece cs : List Char) :
    splitFrom piece cs = cs.splitOnPPrepend (fun c => c == '\n') piece := by
  induction cs generalizing piece with
  | nil => rfl
  | cons c cs ih =>
      rw [splitFrom, ih, ih, List.splitOnPPrepend]
      simp only [beq_iff_eq]

/-- **A source is cut at its line breaks.** -/
theorem physicalLines_eq_splitOn (cs : List Char) :
    physicalLines cs = (unified cs).splitOn '\n' := by
  rw [physicalLines, splitLines, splitFrom_eq_splitOnPPrepend, joinBreaks_eq_unified]
  rfl

section Cons

variable {number : Nat} {raw : List Char} (raws : List (List Char))

theorem significantFrom_cons_of_not (h : ¬ Line.IsSignificant raw) :
    significantFrom number (raw :: raws) = significantFrom (number + 1) raws := by
  rw [significantFrom, List.zipIdx_cons, List.filter_cons_of_neg (by simpa using h)]
  rfl

theorem significantFrom_cons (h : Line.IsSignificant raw) :
    significantFrom number (raw :: raws) =
      (raw, number) :: significantFrom (number + 1) raws := by
  rw [significantFrom, List.zipIdx_cons, List.filter_cons_of_pos (by simpa using h)]
  rfl

end Cons

/-- Physical lines without a tab in their indents are read as the lines that they hold. -/
theorem linesFrom_eq_ok_iff {number : Nat} {raws : List (List Char)}
    (hbreak : ∀ raw ∈ raws, '\n' ∉ raw) {lines : List Line} :
    linesFrom number raws = .ok lines ↔
      (∀ entry ∈ significantFrom number raws, ¬ Line.HasTab entry.1) ∧
      List.Forall₂ (fun entry line => Line.Holds entry.2 entry.1 line)
        (significantFrom number raws) lines := by
  induction raws generalizing number lines with
  | nil =>
      have hnone : significantFrom number [] = [] := rfl
      simp [linesFrom, hnone, eq_comm]
  | cons raw raws ih =>
      obtain ⟨hraw, hraws⟩ := List.forall_mem_cons.1 hbreak
      by_cases hsig : Line.IsSignificant raw
      · rw [linesFrom, Line.ofPhysical_of_isSignificant hsig, significantFrom_cons raws hsig]
        by_cases htab : Line.HasTab raw
        · simp [htab]
        · rw [if_neg htab, List.forall_mem_cons, and_iff_right htab, List.forall₂_cons_left_iff]
          have hcut := Line.holds_cut hsig hraw number
          constructor
          · intro h
            cases hmore : linesFrom (number + 1) raws with
            | error n => simp [hmore] at h
            | ok more =>
                simp only [hmore, Except.ok.injEq] at h
                obtain ⟨huntabbed, hheld⟩ := (ih hraws).1 hmore
                exact ⟨huntabbed, _, more, hcut, hheld, h.symm⟩
          · rintro ⟨huntabbed, line, more, hline, hheld, rfl⟩
            rw [(ih hraws).2 ⟨huntabbed, hheld⟩, hline.eq_cut]
      · rw [linesFrom, Line.ofPhysical_of_not_isSignificant hsig,
          significantFrom_cons_of_not raws hsig]
        exact ih hraws

/-- Physical lines are refused for the first one with a tab in its indent. -/
theorem linesFrom_eq_error_iff {number n : Nat} {raws : List (List Char)} :
    linesFrom number raws = .error n ↔
      ∃ raw, (significantFrom number raws).find? (fun entry => Line.HasTab entry.1) =
        some (raw, n) := by
  induction raws generalizing number with
  | nil =>
      have hnone : significantFrom number [] = [] := rfl
      simp [linesFrom, hnone]
  | cons raw raws ih =>
      by_cases hsig : Line.IsSignificant raw
      · rw [linesFrom, Line.ofPhysical_of_isSignificant hsig, significantFrom_cons raws hsig]
        by_cases htab : Line.HasTab raw
        · simp [htab]
        · rw [if_neg htab, List.find?_cons_of_neg (by simpa using htab), ← ih]
          cases linesFrom (number + 1) raws with
          | error m => rfl
          | ok more => simp
      · rw [linesFrom, Line.ofPhysical_of_not_isSignificant hsig,
          significantFrom_cons_of_not raws hsig]
        exact ih

/-- The numbers of lines are those of the physical lines that hold them. -/
theorem map_number_of_held {entries : List (List Char × Nat)} {lines : List Line}
    (h : List.Forall₂ (fun entry line => Line.Holds entry.2 entry.1 line) entries lines) :
    lines.map Line.number = entries.map fun entry => (entry.2 : Int) := by
  induction h with
  | nil => rfl
  | cons hline _ ih => rw [List.map_cons, List.map_cons, hline.number_eq, ih]

/-- The numbers of lines increase. -/
theorem increasing_of_held {number : Nat} {raws : List (List Char)} {lines : List Line}
    (h : List.Forall₂ (fun entry line => Line.Holds entry.2 entry.1 line)
      (significantFrom number raws) lines) :
    lines.Pairwise fun first second => first.number < second.number := by
  have hentries : (significantFrom number raws).Pairwise fun first second =>
      first.2 < second.2 := by
    refine List.Pairwise.filter _ ?_
    rw [← List.pairwise_map (f := Prod.snd) (R := fun m n => m < n), List.zipIdx_map_snd]
    exact List.pairwise_lt_range' 1
  rw [← List.pairwise_map (f := Line.number) (R := fun m n => m < n), map_number_of_held h,
    List.pairwise_map]
  exact hentries.imp fun hlt => Int.ofNat_lt.2 hlt

/-- The first line with a tab in its indent is found. -/
theorem exists_find?_iff {source : String} {number : Nat} :
    (∃ raw, (significant source).find? (fun entry => Line.HasTab entry.1) = some (raw, number)) ↔
      IsFirstTab source number := by
  simp only [List.find?_eq_some_iff_append, decide_eq_true_eq, Bool.not_eq_true',
    decide_eq_false_iff_not, IsFirstTab]
  constructor
  · rintro ⟨raw, htab, before, after, hlist, hbefore⟩
    exact ⟨before, raw, after, hlist, htab, hbefore⟩
  · rintro ⟨before, raw, after, hlist, htab, hbefore⟩
    exact ⟨raw, htab, before, after, hlist, hbefore⟩

/-- **A source has one line for each physical line of significance.**  What is read of a source is one
line for each of its lines that is neither blank nor a comment, with the number, the indent and the
text that it has there; and a source is refused exactly if one of these lines has a tab in its indent,
with the number of the first one. -/
theorem lines_are_the_significant_ones (source : String) :
    (∀ lines, Source.lines source = .ok lines ↔ IsReading source lines) ∧
    (∀ number, Source.lines source = .error number ↔ IsFirstTab source number) ∧
    ((∃ number, Source.lines source = .error number) ↔
      ∃ entry ∈ significant source, Line.HasTab entry.1) := by
  have hbreak : ∀ raw ∈ physicalLines source.toList, '\n' ∉ raw :=
    fun raw hraw => no_break_of_mem_physicalLines hraw
  have hsignificant : significantFrom 1 (physicalLines source.toList) = significant source := by
    rw [physicalLines_eq_splitOn]
    rfl
  have herror : ∀ number, Source.lines source = .error number ↔ IsFirstTab source number := by
    intro number
    rw [Source.lines, linesFrom_eq_error_iff, hsignificant, exists_find?_iff]
  refine ⟨fun lines => ?_, herror, ?_⟩
  · rw [Source.lines, linesFrom_eq_ok_iff hbreak, hsignificant]
    constructor
    · rintro ⟨huntabbed, hheld⟩
      rw [← hsignificant] at hheld
      exact ⟨huntabbed, hsignificant ▸ hheld, increasing_of_held hheld⟩
    · intro h
      exact ⟨h.untabbed, h.held⟩
  · simp only [herror]
    constructor
    · rintro ⟨number, before, raw, after, hlist, htab, -⟩
      exact ⟨(raw, number), by rw [hlist]; simp, htab⟩
    · rintro ⟨entry, hentry, htab⟩
      have hfound : ((significant source).find? fun entry => Line.HasTab entry.1).isSome = true := by
        rw [List.find?_isSome]
        exact ⟨entry, hentry, decide_eq_true htab⟩
      obtain ⟨⟨raw, number⟩, hfound⟩ := Option.isSome_iff_exists.1 hfound
      exact ⟨number, exists_find?_iff.1 ⟨raw, hfound⟩⟩

-- a carriage return that stands alone counts as a blank, and a tab before a comment does not matter
example : Source.lines "\t# a\n\r b \r\n" = .ok [⟨2, 2, "b", "\r b "⟩] := by rfl

end Source

end Waymark
