/-
**A source as the block of an event rule.**

A source that is moved to the right by one step and put below the header of an event rule is the
block of that rule.  Where it stands does not change what it says: the rule has the statements of
the source for its body, and a source that is refused is refused one line further down, for a
reason of the same kind, with every indent that is cited one step greater.

There is one place where the two sources are checked in different ways.  A source whose first line
is indented has a line that is too deep for the outermost block; as the block of a rule it does
not start one step deeper than the header.  Both are told as a wrong indent.

Main definitions:

* `Source.nest` — a header and a source below it, one step further to the right;
* `Parse.Fault.Nested` — a fault of a source, and of the source as the block of a rule;
* `Diagnostic.OneStepIn` — diagnostics one line further down and one step further to the right.

Main results:

* `Source.physicalLines_nest` — the physical lines of a nested source;
* `Source.lines_nest` — its significant lines, or its tab;
* `Program.parse_nest` — **what is read of a nested source**;
* `Program.nesting_is_position_independent` — the same, told as diagnostics.
-/
import Waymark.Proofs.Grammar
import Waymark.Proofs.Relayout
import Waymark.Proofs.SourceLine
import Waymark.Proofs.WrittenLine

set_option relaxedAutoImplicit false
set_option autoImplicit false

namespace Waymark

/-! ### Nested sources -/

namespace Source

/-- A line that is moved to the right by one step. -/
def stepIn (raw : List Char) : List Char := ' ' :: ' ' :: raw

/-- The header of an event rule, and a source below it, each line of which is moved to the right by
one step. -/
def nest (event source : String) : String :=
  String.ofList (("when".toList ++ ' ' :: event.toList) ++
    (splitLines source.toList).flatMap fun raw => '\n' :: stepIn raw)

theorem toList_nest (event source : String) :
    (nest event source).toList = ("when".toList ++ ' ' :: event.toList) ++
      (splitLines source.toList).flatMap fun raw => '\n' :: stepIn raw :=
  String.toList_ofList

/-- A text in which every line but the first is moved to the right by one step. -/
def widen (cs : List Char) : List Char :=
  match cs with
  | [] => []
  | c :: rest => if c = '\n' then c :: stepIn (widen rest) else c :: widen rest

/-- The lines of a text, each moved and behind a line break. -/
theorem flatMap_splitFrom (piece cs : List Char) :
    ((splitFrom piece cs).flatMap fun raw => '\n' :: stepIn raw) =
      '\n' :: stepIn (piece.reverse ++ widen cs) := by
  induction cs generalizing piece with
  | nil => simp [splitFrom, widen]
  | cons c cs ih =>
      rw [splitFrom, widen]
      split
      · rename_i hc
        rw [List.flatMap_cons, ih, hc]
        rfl
      · rw [ih]
        simp

theorem head?_widen (cs : List Char) : (widen cs).head? = cs.head? := by
  cases cs with
  | nil => rfl
  | cons c cs =>
      rw [widen]
      split <;> rfl

/-- Carriage returns before line breaks are left out of moved lines as of any others. -/
theorem joinBreaks_widen (cs : List Char) : joinBreaks (widen cs) = widen (joinBreaks cs) := by
  fun_induction joinBreaks cs with
  | case1 => rfl
  | case2 rest ih =>
      have hreturn : widen ('\r' :: '\n' :: rest) = '\r' :: '\n' :: stepIn (widen rest) := rfl
      rw [hreturn, joinBreaks, stepIn, joinBreaks_cons (by simp), joinBreaks_cons (by simp), ih]
      rfl
  | case3 c rest hbreak ih =>
      by_cases hc : c = '\n'
      · subst hc
        have hbreak' : widen ('\n' :: rest) = '\n' :: stepIn (widen rest) := rfl
        rw [hbreak', joinBreaks_cons (by simp), stepIn, joinBreaks_cons (by simp),
          joinBreaks_cons (by simp), ih]
        rfl
      · rw [widen, if_neg hc, joinBreaks_cons, ih, widen, if_neg hc]
        rintro rfl hhead
        rw [head?_widen] at hhead
        obtain ⟨rest', rfl⟩ := List.head?_eq_some_iff.1 hhead
        exact hbreak rest' rfl rfl

/-- The pieces of a text whose lines are moved are the moved pieces. -/
theorem splitFrom_widen (piece cs : List Char) :
    splitFrom (piece ++ [' ', ' ']) (widen cs) = (splitFrom piece cs).map stepIn := by
  induction cs generalizing piece with
  | nil => simp [splitFrom, widen, stepIn]
  | cons c cs ih =>
      by_cases hc : c = '\n'
      · have hnext := ih []
        rw [List.nil_append] at hnext
        simp [splitFrom, widen, stepIn, hc, hnext]
      · have hnext := ih (c :: piece)
        rw [List.cons_append] at hnext
        simp [splitFrom, widen, hc, hnext]

/-- The header of an event rule is a phrase. -/
theorem isPhrase_when {event : String} (h : Text.IsPhrase event.toList) :
    Text.IsPhrase ("when".toList ++ ' ' :: event.toList) := by
  have hword : Text.Spells "when" "when".toList := by decide
  exact (hword.isPhrase (by decide)).append h

/-- The lines of a text whose first line is moved with the others. -/
theorem physicalLines_widen (cs : List Char) :
    physicalLines (stepIn (widen cs)) = (physicalLines cs).map stepIn := by
  have hjoin : joinBreaks (stepIn (widen cs)) = stepIn (widen (joinBreaks cs)) := by
    rw [stepIn, joinBreaks_cons (by simp), joinBreaks_cons (by simp), joinBreaks_widen]
    rfl
  rw [physicalLines, hjoin]
  exact splitFrom_widen [] (joinBreaks cs)

/-- A phrase is a line of its own. -/
theorem physicalLines_phrase {raw : List Char} (h : Text.IsPhrase raw) (rest : List Char) :
    physicalLines (raw ++ '\n' :: rest) = raw :: physicalLines rest := by
  apply physicalLines_break h.no_break
  intro hlast
  have hsolid := h.ends '\r' (by simpa using hlast)
  exact absurd hsolid (by decide)

/-- The lines of a source below a phrase, each of them moved. -/
theorem physicalLines_below {raw : List Char} (h : Text.IsPhrase raw) (cs : List Char) :
    physicalLines (raw ++ (splitLines cs).flatMap fun line => '\n' :: stepIn line) =
      raw :: (physicalLines cs).map stepIn := by
  rw [splitLines, flatMap_splitFrom, physicalLines_phrase h, List.reverse_nil, List.nil_append,
    physicalLines_widen]

/-- **The physical lines of a nested source** are the header and the moved lines of the source. -/
theorem physicalLines_nest {event : String} (h : Text.IsPhrase event.toList) (source : String) :
    physicalLines (nest event source).toList =
      ("when".toList ++ ' ' :: event.toList) :: (physicalLines source.toList).map stepIn := by
  rw [toList_nest]
  exact physicalLines_below (isPhrase_when h) source.toList

/-! ### The lines of a nested source -/

/-- Behind the two spaces, a moved line is what it was. -/
theorem dropWhile_stepIn (raw : List Char) :
    (stepIn raw).dropWhile Text.isBlank = raw.dropWhile Text.isBlank := by
  have hspace : Text.isBlank ' ' = true := rfl
  simp only [stepIn, List.dropWhile_cons, hspace, if_true]

/-- The two spaces count for the indent of a moved line. -/
theorem takeWhile_stepIn (raw : List Char) :
    (stepIn raw).takeWhile Text.isBlank = stepIn (raw.takeWhile Text.isBlank) := by
  have hspace : Text.isBlank ' ' = true := rfl
  simp only [stepIn, List.takeWhile_cons, hspace, if_true]

theorem isSkipped_stepIn (raw : List Char) :
    Line.isSkipped (stepIn raw) = Line.isSkipped raw := by
  rw [Line.isSkipped, Line.isSkipped, dropWhile_stepIn]

theorem strip_stepIn (raw : List Char) : Text.strip (stepIn raw) = Text.strip raw := by
  rw [Text.strip, Text.strip, dropWhile_stepIn]

theorem contains_stepIn (raw : List Char) : (stepIn raw).contains '\t' = raw.contains '\t' := by
  simp [stepIn]

/-- The reader of lines finds the same tab one line further down, or the same lines one step further
to the right. -/
theorem linesFrom_stepIn (number : Nat) (raws : List (List Char)) :
    (∃ n, linesFrom number raws = .error n ∧
      linesFrom (number + 1) (raws.map stepIn) = .error (n + 1)) ∨
    ∃ lines lines', linesFrom number raws = .ok lines ∧
      linesFrom (number + 1) (raws.map stepIn) = .ok lines' ∧
      List.Forall₂ (Line.Moved (· + 1) Parse.indentStep) lines lines' := by
  induction raws generalizing number with
  | nil => exact .inr ⟨[], [], rfl, rfl, .nil⟩
  | cons raw raws ih =>
      have ih := ih (number + 1)
      simp only [List.map_cons, linesFrom, Line.ofPhysical, isSkipped_stepIn, takeWhile_stepIn,
        contains_stepIn, strip_stepIn]
      by_cases hskip : Line.isSkipped raw = true
      · simp only [hskip, if_true]
        exact ih
      by_cases htab : (raw.takeWhile Text.isBlank).contains '\t' = true
      · simp only [hskip, htab]
        exact .inl ⟨number, rfl, rfl⟩
      simp only [hskip, htab]
      rcases ih with ⟨n, hread, hread'⟩ | ⟨lines, lines', hread, hread', hmoved⟩
      · simp only [hread, hread']
        exact .inl ⟨n, rfl, rfl⟩
      · simp only [hread, hread']
        refine .inr ⟨_, _, rfl, rfl, .cons ⟨?_, ?_, rfl⟩ hmoved⟩
        · exact Int.natCast_succ number
        · simp [stepIn, Parse.indentStep]
          omega

/-- The header of an event rule, at the left margin. -/
def whenRow (event : String) : Layout.Row := ⟨0, "when".toList ++ ' ' :: event.toList⟩

/-- The line that the header of an event rule is. -/
def whenLine (event : String) : Line := (whenRow event).line 1

theorem ofPhysical_when {event : String} (h : Text.IsPhrase event.toList) :
    Line.ofPhysical 1 ("when".toList ++ ' ' :: event.toList) = .significant (whenLine event) := by
  have hsignificant : (whenRow event).IsSignificant := by
    refine ⟨isPhrase_when h, ?_⟩
    simp [whenRow]
  exact Layout.Row.ofPhysical_raw hsignificant 1

theorem readHeader_whenLine {event : String} (h : Text.IsPhrase event.toList) :
    Parse.readHeader (whenLine event) = .ok (.when event) := by
  have hword : Text.Spells "when" "when".toList := by decide
  have hline : Render.HeaderLine (.when event) (whenLine event).text.toList := by
    rw [whenLine, Layout.Row.line, String.toList_ofList]
    exact .when hword
  exact hline.readHeader_eq h

/-- **The significant lines of a nested source** are the header and the lines of the source, one
line further down and one step further to the right; or both have a tab there. -/
theorem lines_nest {event : String} (h : Text.IsPhrase event.toList) (source : String) :
    (∃ n, lines source = .error n ∧ lines (nest event source) = .error (n + 1)) ∨
    ∃ outer inner, lines source = .ok outer ∧
      lines (nest event source) = .ok (whenLine event :: inner) ∧
      List.Forall₂ (Line.Moved (· + 1) Parse.indentStep) outer inner := by
  rw [lines, lines, physicalLines_nest h, linesFrom, ofPhysical_when h]
  rcases linesFrom_stepIn 1 (physicalLines source.toList) with
    ⟨n, hread, hread'⟩ | ⟨outer, inner, hread, hread', hmoved⟩
  · exact .inl ⟨n, hread, by simp only [hread']⟩
  · exact .inr ⟨outer, inner, hread, by simp only [hread'], hmoved⟩

end Source

/-! ### Faults of a nested source -/

/-- A fault of a source, and the fault of the source as the block of an event rule.  A first line
that is indented is refused by the block and not by the header above it. -/
inductive Parse.Fault.Nested : Fault → Fault → Prop
  | moved (fault : Fault) : Nested fault (fault.move (· + 1) indentStep)
  | first (line found : Int) :
      Nested (.at line (.deeper 0 found))
        (.at (line + 1) (.badStep "when" indentStep (found + indentStep)))

/-- A diagnostic one line further down and one step further to the right: the same is told about it,
up to the numbers in its message. -/
structure Diagnostic.OneStepIn (d d' : Diagnostic) : Prop where
  kind : d'.kind = d.kind
  line : d'.line = d.line.map (· + 1)
  code : d'.code = d.code
  found : d'.found = d.found
  suggestion : d'.suggestion = d.suggestion
  expectedIndent : d'.expectedIndent = d.expectedIndent.map (· + 2)
  foundIndent : d'.foundIndent = d.foundIndent.map (· + 2)

namespace Parse

theorem Cause.diagnostic_shift (line : Int) (cause : Cause) :
    (cause.diagnostic line).OneStepIn ((cause.shift indentStep).diagnostic (line + 1)) := by
  cases cause with
  | _ => exact ⟨rfl, rfl, rfl, rfl, rfl, rfl, rfl⟩

/-- A fault at a line is a fault one line further down, and told as such. -/
theorem Fault.Nested.exists_at {line : Int} {cause : Cause} {fault : Fault}
    (h : Nested (.at line cause) fault) :
    ∃ cause', fault = .at (line + 1) cause' ∧
      (cause.diagnostic line).OneStepIn (cause'.diagnostic (line + 1)) := by
  cases h with
  | moved => exact ⟨cause.shift indentStep, rfl, cause.diagnostic_shift line⟩
  | first line found => exact ⟨_, rfl, ⟨rfl, rfl, rfl, rfl, rfl, rfl, rfl⟩⟩

end Parse

/-! ### Programs -/

namespace Program

open Parse Grammar

section Lines

variable {header : Line} {event : String} (hheader : HeaderAt 0 header (.when event))
  {outer inner : List Line}

include hheader

/-- An event rule and nothing else, if its block is read to the last line. -/
theorem ofLines_when {body : List Stmt} (h : readChild header "when" 0 inner = .ok (body, [])) :
    ofLines (header :: inner) = .ok ⟨[.when event body]⟩ := by
  have hstmt : readStatement 0 header inner = .ok (.when event body, []) := by
    simp only [readStatement_eq, hheader.2, h]
  have hread := readBlock_cons_of_readStatement hheader.1 hstmt (readBlock_nil 0)
  rw [ofLines, hread]

/-- An event rule whose block is refused. -/
theorem ofLines_when_error {failure : Failure}
    (h : readChild header "when" 0 inner = .error failure) :
    ofLines (header :: inner) = .error failure := by
  have hstmt : readStatement 0 header inner = .error failure := by
    simp only [readStatement_eq, hheader.2, h]
  rw [ofLines, readBlock_cons, hheader.1, hstmt]
  rfl

/-- **Lines below a header, one step further to the right**, are the block of the rule, or refused
where they are refused without it. -/
theorem ofLines_nest (hne : outer ≠ []) (hindent : ∀ line ∈ outer, 0 ≤ line.indent)
    (hmoved : List.Forall₂ (Line.Moved (· + 1) indentStep) outer inner) :
    (∃ body, ofLines outer = .ok ⟨body⟩ ∧ ofLines (header :: inner) = .ok ⟨[.when event body]⟩) ∨
    ∃ failure failure', ofLines outer = .error failure ∧
      ofLines (header :: inner) = .error failure' ∧ failure.fault.Nested failure'.fault := by
  have hblock := readBlock_moved (· + 1) indentStep outer 0 inner hmoved
  cases hmoved with
  | nil => exact absurd rfl hne
  | @cons line line' rest rest' hline hrest =>
      have hnonneg := hindent line List.mem_cons_self
      by_cases hfirst : line.indent = 0
      · -- both are read as blocks, one of them one step deeper
        have hopen : blockFault? header "when" 0 (line' :: rest') = none :=
          blockFault?_eq_none_iff.2 ⟨line', rest', rfl, by rw [hline.indent_eq, hfirst]⟩
        have hchild : readChild header "when" 0 (line' :: rest') =
            readBlock (0 + indentStep) (line' :: rest') := by
          rw [readChild_eq, hopen]
        rw [← hchild] at hblock
        generalize hread : readBlock 0 (line :: rest) = result at hblock
        generalize hread' : readChild header "when" 0 (line' :: rest') = result' at hblock
        cases hblock with
        | error failure =>
            refine .inr ⟨failure, _, ?_, ofLines_when_error hheader hread', .moved failure.fault⟩
            rw [ofLines, hread]
        | @ok body left left' hleft =>
            have hnil := eq_nil_of_readBlock hindent hread
            subst hnil
            cases hleft
            refine .inl ⟨body, ?_, ofLines_when hheader hread'⟩
            rw [ofLines, hread]
      · -- the outermost block refuses the line for its indent, and so does the header
        have hmore : 0 < line.indent := by omega
        have hstep : 0 < line'.indent ∧ line'.indent ≠ 0 + indentStep := by
          rw [hline.indent_eq, indentStep]
          omega
        have hread : readBlock 0 (line :: rest) =
            .error ⟨.at line.number (.deeper 0 line.indent), []⟩ := by
          rw [readBlock_cons, if_neg (by omega), if_pos hmore]
        have hread' : readChild header "when" 0 (line' :: rest') =
            .error ⟨.at line'.number (.badStep "when" (0 + indentStep) line'.indent), []⟩ := by
          rw [readChild_eq, blockFault?, if_neg (by omega), if_pos hstep.2]
        refine .inr ⟨_, _, by rw [ofLines, hread], ofLines_when_error hheader hread', ?_⟩
        rw [hline.number_eq, hline.indent_eq, Int.zero_add]
        exact .first line.number line.indent

end Lines

/-- **What is read of a nested source**: the event rule with the statements of the source, or the
fault of the source one line further down. -/
theorem parse_nest {event source : String} (hevent : Text.IsPhrase event.toList)
    (hsource : ∃ raw ∈ Source.physicalLines source.toList, Line.isSkipped raw = false) :
    (∃ body, parse source = .ok ⟨body⟩ ∧
      parse (Source.nest event source) = .ok ⟨[.when event body]⟩) ∨
    ∃ fault fault', parse source = .error fault ∧
      parse (Source.nest event source) = .error fault' ∧ fault.Nested fault' := by
  rw [parse, parse]
  rcases Source.lines_nest hevent source with
    ⟨n, hread, hread'⟩ | ⟨outer, inner, hread, hread', hmoved⟩
  · rw [hread, hread']
    exact .inr ⟨_, _, rfl, rfl, .moved (.at n .tab)⟩
  · have hheader : HeaderAt 0 (Source.whenLine event) (.when event) :=
      ⟨rfl, Source.readHeader_whenLine hevent⟩
    obtain ⟨raw, hraw, hskip⟩ := hsource
    have hne : outer ≠ [] := Source.ne_nil_of_linesFrom hread hraw hskip
    have hindent : ∀ line ∈ outer, 0 ≤ line.indent := fun line => Source.indent_nonneg hread
    rw [hread, hread']
    rcases ofLines_nest hheader hne hindent hmoved with
      ⟨body, hok, hok'⟩ | ⟨failure, failure', herror, herror', hnested⟩
    · simp only [hok, hok']
      exact .inl ⟨body, rfl, rfl⟩
    · simp only [herror, herror']
      exact .inr ⟨_, _, rfl, rfl, hnested⟩

/-- **Nesting is position independent.**  A source with a significant line, put below the header
of an event rule, is that rule with the statements of the source; and if the source is refused at
a line, the nested one is refused one line further down, for a reason of the same kind, with the
expected and the found indent, if there are any, two columns greater. -/
theorem nesting_is_position_independent {event source : String}
    (hevent : Text.IsPhrase event.toList)
    (hsource : ∃ raw ∈ Source.physicalLines source.toList, Line.isSkipped raw = false) :
    (∀ program, parse source = .ok program →
      parse (Source.nest event source) = .ok ⟨[.when event program.body]⟩) ∧
    ∀ line cause, parse source = .error (.at line cause) →
      ∃ cause', parse (Source.nest event source) = .error (.at (line + 1) cause') ∧
        (cause.diagnostic line).OneStepIn (cause'.diagnostic (line + 1)) := by
  rcases parse_nest hevent hsource with
    ⟨body, hok, hok'⟩ | ⟨fault, fault', herror, herror', hnested⟩
  · constructor
    · intro program h
      rw [hok, Except.ok.injEq] at h
      rw [hok', ← h]
    · intro line cause h
      simp [hok] at h
  · constructor
    · intro program h
      simp [herror] at h
    · intro line cause h
      rw [herror, Except.error.injEq] at h
      subst h
      obtain ⟨cause', rfl, htold⟩ := hnested.exists_at
      exact ⟨cause', herror', htold⟩

/-- A source whose first significant line is indented: the line is too deep for the outermost block,
and does not open the block of a rule. -/
theorem nesting_is_position_independent_indented :
    Source.nest "e" "\n show 1" = "when e\n  \n   show 1" ∧
    parse "\n show 1" = .error (.at 2 (.deeper 0 1)) ∧
    ∃ cause, parse "when e\n  \n   show 1" = .error (.at 3 cause) ∧
      (Cause.diagnostic 2 (.deeper 0 1)).OneStepIn (cause.diagnostic 3) := by
  have hnest : Source.nest "e" "\n show 1" = "when e\n  \n   show 1" := by decide
  have hlines : Source.lines "\n show 1" = .ok [⟨2, 1, "show 1", " show 1"⟩] := rfl
  have hparse : parse "\n show 1" = .error (.at 2 (.deeper 0 1)) := by
    simp [parse, hlines, ofLines, readBlock_cons]
  have hevent : Text.IsPhrase "e".toList := Text.isPhrase_of_no_blank (by decide) (by decide)
  have hsource : ∃ raw ∈ Source.physicalLines "\n show 1".toList, Line.isSkipped raw = false :=
    ⟨" show 1".toList, by decide, by decide⟩
  have hnested := (nesting_is_position_independent hevent hsource).2 2 (.deeper 0 1) hparse
  rw [hnest] at hnested
  exact ⟨hnest, hparse, hnested⟩

end Program

end Waymark
