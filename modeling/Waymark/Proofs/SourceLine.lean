/-
**Where the lines of a source come from.**

Every significant line that is read of a source is what one physical line holds, and keeps its
number; its indent counts characters, and its text is a phrase: not empty, on one line, and without
blanks at its ends.  A line that is refused for a tab is a physical line of significance as well.

Main results:

* `Source.no_break_of_mem_physicalLines` — no line break is left in a physical line;
* `Text.isPhrase_strip` — what remains of a line without outer blanks is a phrase;
* `Source.exists_raw_of_mem`, `Source.exists_raw_of_error` — **the physical line behind a
  significant line, and behind a tab**;
* `Source.isPhrase_text`, `Source.indent_nonneg` — the text and the indent of a line of a source.
-/
import Waymark.Line
import Waymark.Proofs.Pattern

set_option relaxedAutoImplicit false
set_option autoImplicit false

namespace Waymark

/-! ### Texts without outer blanks -/

namespace Text

theorem startsSolid_dropWhile (cs : List Char) : StartsSolid (cs.dropWhile isBlank) := by
  intro c hc
  have hhead := List.head?_dropWhile_not isBlank cs
  rw [Option.mem_def.1 hc] at hhead
  simpa using hhead

theorem mem_of_mem_stripEnd {cs : List Char} {c : Char} (h : c ∈ stripEnd cs) : c ∈ cs := by
  rw [stripEnd, List.mem_reverse] at h
  exact List.mem_reverse.1 ((List.dropWhile_sublist isBlank).mem h)

theorem mem_of_mem_strip {cs : List Char} {c : Char} (h : c ∈ strip cs) : c ∈ cs :=
  (List.dropWhile_sublist isBlank).mem (mem_of_mem_stripEnd h)

/-- A text that does not start with a blank keeps its first character without outer blanks. -/
theorem exists_strip_eq {raw rest : List Char} {c : Char}
    (h : raw.dropWhile isBlank = c :: rest) :
    isBlank c = false ∧ ∃ more, strip raw = c :: more := by
  have hc : isBlank c = false := startsSolid_dropWhile raw c (by rw [h]; rfl)
  have hend : [c].dropWhile isBlank = [c] := by simp [hc]
  refine ⟨hc, ?_⟩
  rw [strip, h, stripEnd, List.reverse_cons, List.dropWhile_append, hend]
  split
  · exact ⟨[], rfl⟩
  · exact ⟨_, List.reverse_append⟩

/-- **A line without outer blanks is a phrase**, unless nothing is left of it. -/
theorem isPhrase_strip {raw : List Char} (hbreak : '\n' ∉ raw) (hne : strip raw ≠ []) :
    IsPhrase (strip raw) where
  ne_nil := hne
  no_break hmem := hbreak (mem_of_mem_strip hmem)
  starts := by
    cases hdrop : raw.dropWhile isBlank with
    | nil => simp [strip, hdrop] at hne
    | cons c rest =>
        obtain ⟨hc, more, hstrip⟩ := exists_strip_eq hdrop
        rw [hstrip]
        rintro d ⟨rfl⟩
        exact hc
  ends := by
    rw [strip, stripEnd, List.reverse_reverse]
    exact startsSolid_dropWhile _

end Text

/-! ### Physical lines -/

namespace Source

theorem no_break_of_mem_splitFrom {piece cs raw : List Char} (hpiece : '\n' ∉ piece)
    (h : raw ∈ splitFrom piece cs) : '\n' ∉ raw := by
  induction cs generalizing piece with
  | nil =>
      rw [splitFrom, List.mem_singleton] at h
      simpa [h] using hpiece
  | cons c cs ih =>
      rw [splitFrom] at h
      split at h
      · rcases List.mem_cons.1 h with rfl | h
        · simpa using hpiece
        · exact ih (by simp) h
      · rename_i hc
        exact ih (by simpa [Ne.symm hc] using hpiece) h

/-- No line break is left in a physical line. -/
theorem no_break_of_mem_physicalLines {source raw : List Char} (h : raw ∈ physicalLines source) :
    '\n' ∉ raw :=
  no_break_of_mem_splitFrom (by simp) h

end Source

/-! ### Significant lines -/

namespace Line

/-- A physical line that holds a significant one is not skipped, and gives it its number, an indent
and what remains of it without outer blanks. -/
theorem of_ofPhysical {number : Nat} {raw : List Char} {line : Line}
    (h : ofPhysical number raw = .significant line) :
    isSkipped raw = false ∧ line.number = number ∧ 0 ≤ line.indent ∧
      line.text = String.ofList (Text.strip raw) := by
  rw [ofPhysical] at h
  split at h
  · simp at h
  · rename_i hskip
    simp only at h
    split at h
    · simp at h
    · simp only [Reading.significant.injEq] at h
      subst h
      exact ⟨by simpa using hskip, rfl, Int.natCast_nonneg _, rfl⟩

/-- A physical line that is refused for a tab is not skipped. -/
theorem isSkipped_of_tabbed {number : Nat} {raw : List Char}
    (h : ofPhysical number raw = .tabbed) : isSkipped raw = false := by
  rw [ofPhysical] at h
  split at h
  · simp at h
  · rename_i hskip
    simpa using hskip

/-- A physical line that holds nothing is skipped. -/
theorem isSkipped_of_skipped {number : Nat} {raw : List Char}
    (h : ofPhysical number raw = .skipped) : isSkipped raw = true := by
  rw [ofPhysical] at h
  split at h
  · assumption
  · simp only at h
    split at h <;> simp at h

/-- Something remains of a line that is not skipped. -/
theorem strip_ne_nil {raw : List Char} (h : isSkipped raw = false) : Text.strip raw ≠ [] := by
  cases hdrop : raw.dropWhile Text.isBlank with
  | nil => simp [isSkipped, hdrop] at h
  | cons c rest =>
      obtain ⟨-, more, hstrip⟩ := Text.exists_strip_eq hdrop
      rw [hstrip]
      exact List.cons_ne_nil c more

end Line

namespace Source

/-- **The physical line behind a significant line.** -/
theorem exists_raw_of_mem {number : Nat} {raws : List (List Char)} {lines : List Line}
    (h : linesFrom number raws = .ok lines) {line : Line} (hline : line ∈ lines) :
    ∃ (i : Nat) (raw : List Char), raws[i]? = some raw ∧
      Line.ofPhysical (number + i) raw = .significant line := by
  induction raws generalizing number lines with
  | nil =>
      simp only [linesFrom, Except.ok.injEq] at h
      simp [← h] at hline
  | cons raw raws ih =>
      -- a line behind the first one has its place in the rest
      have hlater : ∀ {more : List Line}, linesFrom (number + 1) raws = .ok more → line ∈ more →
          ∃ (i : Nat) (raw' : List Char), (raw :: raws)[i]? = some raw' ∧
            Line.ofPhysical (number + i) raw' = .significant line := by
        intro more hmore hmem
        obtain ⟨i, raw', hget, hread⟩ := ih hmore hmem
        exact ⟨i + 1, raw', hget, by rwa [show number + (i + 1) = number + 1 + i by omega]⟩
      rw [linesFrom] at h
      cases hraw : Line.ofPhysical number raw with
      | skipped =>
          simp only [hraw] at h
          exact hlater h hline
      | tabbed => simp [hraw] at h
      | significant first =>
          cases hmore : linesFrom (number + 1) raws with
          | error n => simp [hraw, hmore] at h
          | ok more =>
              simp only [hraw, hmore, Except.ok.injEq] at h
              rw [← h] at hline
              rcases List.mem_cons.1 hline with rfl | hline
              · exact ⟨0, raw, rfl, hraw⟩
              · exact hlater hmore hline

/-- **The physical line behind a tab.** -/
theorem exists_raw_of_error {number n : Nat} {raws : List (List Char)}
    (h : linesFrom number raws = .error n) :
    ∃ (i : Nat) (raw : List Char), n = number + i ∧ raws[i]? = some raw ∧
      Line.ofPhysical n raw = .tabbed := by
  induction raws generalizing number with
  | nil => simp [linesFrom] at h
  | cons raw raws ih =>
      have hlater : linesFrom (number + 1) raws = .error n →
          ∃ (i : Nat) (raw' : List Char), n = number + i ∧ (raw :: raws)[i]? = some raw' ∧
            Line.ofPhysical n raw' = .tabbed := by
        intro hmore
        obtain ⟨i, raw', hn, hget, hread⟩ := ih hmore
        exact ⟨i + 1, raw', by omega, hget, hread⟩
      rw [linesFrom] at h
      cases hraw : Line.ofPhysical number raw with
      | skipped =>
          simp only [hraw] at h
          exact hlater h
      | tabbed =>
          simp only [hraw, Except.error.injEq] at h
          exact ⟨0, raw, h.symm, rfl, h ▸ hraw⟩
      | significant first =>
          cases hmore : linesFrom (number + 1) raws with
          | error m =>
              simp only [hraw, hmore, Except.error.injEq] at h
              exact hlater (h ▸ hmore)
          | ok more => simp [hraw, hmore] at h

/-- A physical line that is not skipped leaves a significant line. -/
theorem ne_nil_of_linesFrom {number : Nat} {raws : List (List Char)} {lines : List Line}
    (h : linesFrom number raws = .ok lines) {raw : List Char} (hraw : raw ∈ raws)
    (hskip : Line.isSkipped raw = false) : lines ≠ [] := by
  induction raws generalizing number with
  | nil => simp at hraw
  | cons first raws ih =>
      rw [linesFrom] at h
      cases hfirst : Line.ofPhysical number first with
      | skipped =>
          simp only [hfirst] at h
          rcases List.mem_cons.1 hraw with rfl | hraw
          · simp [Line.isSkipped_of_skipped hfirst] at hskip
          · exact ih h hraw
      | tabbed => simp [hfirst] at h
      | significant line =>
          cases hmore : linesFrom (number + 1) raws with
          | error n => simp [hfirst, hmore] at h
          | ok more =>
              simp only [hfirst, hmore, Except.ok.injEq] at h
              rw [← h]
              exact List.cons_ne_nil line more

section Lines

variable {source : String} {lines : List Line} (h : Source.lines source = .ok lines) {line : Line}
  (hline : line ∈ lines)

include h hline

/-- The text of a line of a source is a phrase. -/
theorem isPhrase_text : Text.IsPhrase line.text.toList := by
  obtain ⟨i, raw, hget, hread⟩ := exists_raw_of_mem h hline
  obtain ⟨hskip, -, -, htext⟩ := Line.of_ofPhysical hread
  have hbreak := no_break_of_mem_physicalLines (List.mem_of_getElem? hget)
  rw [htext, String.toList_ofList]
  exact Text.isPhrase_strip hbreak (Line.strip_ne_nil hskip)

/-- The indent of a line of a source counts characters. -/
theorem indent_nonneg : 0 ≤ line.indent := by
  obtain ⟨i, raw, -, hread⟩ := exists_raw_of_mem h hline
  obtain ⟨-, -, hindent, -⟩ := Line.of_ofPhysical hread
  exact hindent

end Lines

end Source

end Waymark
