/-
**Reading does not depend on where lines stand.**

The reader of blocks compares indents with one another and passes line numbers on to its faults; it
does nothing else with either.  So if every line is given another number and all of them are moved
to the right by the same number of columns, then the same statements are read from the same lines,
and a fault changes only in the number and the indents that it cites.

The facts are proved from the readers of single lines upwards: headers, options, route blocks,
blocks, and whole programs for lines that keep their indent.

Main definitions:

* `Line.Moved` — a line under another number and further to the right;
* `Parse.Fault.move` — a fault of moved lines;
* `Parse.Alike` — results that differ by such a move only.

Main results:

* `Parse.readHeader_moved`, `Parse.readOption_moved` — what a moved line says;
* `Parse.readBlock_moved` — **moved lines are read alike**;
* `Program.ofLines_moved` — a program under other line numbers.
-/
import Mathlib.Data.List.Forall2
import Waymark.Parse.Block

set_option relaxedAutoImplicit false
set_option autoImplicit false

namespace Waymark

/-- A line under the number that `f` gives it, `k` columns further to the right. -/
structure Line.Moved (f : Int → Int) (k : Int) (line line' : Line) : Prop where
  number_eq : line'.number = f line.number
  indent_eq : line'.indent = line.indent + k
  text_eq : line'.text = line.text

namespace Parse

/-! ### Moved faults -/

/-- The cause of a fault of lines that are `k` columns further to the right. -/
def Cause.shift (k : Int) (cause : Cause) : Cause :=
  match cause with
  | .deeper expected found => .deeper (expected + k) (found + k)
  | .deeperOption expected found => .deeperOption (expected + k) (found + k)
  | .badStep keyword expected found => .badStep keyword (expected + k) (found + k)
  | cause => cause

/-- The fault of lines under other numbers, `k` columns further to the right. -/
def Fault.move (f : Int → Int) (k : Int) (fault : Fault) : Fault :=
  match fault with
  | .at line cause => .at (f line) (cause.shift k)
  | fault => fault

/-- The failure of lines under other numbers, `k` columns further to the right. -/
def Failure.move (f : Int → Int) (k : Int) (failure : Failure) : Failure :=
  { failure with fault := failure.fault.move f k }

theorem Cause.shift_zero (cause : Cause) : cause.shift 0 = cause := by
  cases cause <;> simp [shift]

/-- The fault of an atom cites no indent. -/
theorem shift_of_readAtom {cs : List Char} {cause : Cause} (h : readAtom cs = .error cause)
    (k : Int) : cause.shift k = cause := by
  simp only [readAtom] at h
  split at h
  · simp at h
  · simp only [Except.error.injEq] at h
    rw [← h]
    rfl

/-- The fault of an expression cites no indent. -/
theorem shift_of_readExpr {cs : List Char} {cause : Cause} (h : readExpr cs = .error cause)
    (k : Int) : cause.shift k = cause := by
  rw [readExpr] at h
  split at h
  · exact shift_of_readAtom h k
  · rename_i left op right hsplit
    cases hleft : readAtom left with
    | error c =>
        simp only [hleft, Except.error.injEq] at h
        exact h ▸ shift_of_readAtom hleft k
    | ok l =>
        cases hright : readAtom right with
        | error c =>
            simp only [hleft, hright, Except.error.injEq] at h
            exact h ▸ shift_of_readAtom hright k
        | ok r => simp [hleft, hright] at h

/-! ### Single lines -/

section Lines

variable {f : Int → Int} {k : Int} {line line' : Line} (h : line.Moved f k line')

include h

theorem exprAt_moved (cs : List Char) :
    exprAt line' cs = (exprAt line cs).mapError (Fault.move f k) := by
  rw [exprAt, exprAt, h.number_eq]
  cases hexpr : readExpr cs with
  | ok e => rfl
  | error cause => simp [Except.mapError, Fault.move, shift_of_readExpr hexpr k]

theorem isElse_moved : isElse line' = isElse line := by
  rw [isElse, isElse, h.text_eq]

theorem unknownStatement_moved :
    unknownStatement line' = (unknownStatement line).move f k := by
  rw [unknownStatement, unknownStatement, h.text_eq, h.number_eq]
  cases Keyword.suggest .statement line.text <;> rfl

theorem unknownOption_moved : unknownOption line' = (unknownOption line).move f k := by
  rw [unknownOption, unknownOption, h.text_eq, h.number_eq]
  cases Keyword.suggest .option line.text <;> rfl

/-- A header with an expression has the faults of the expression. -/
theorem match_exprAt_moved (cs : List Char) (header : Expr → Header) :
    (match exprAt line' cs with
      | .error fault => Except.error fault
      | .ok e => Except.ok (header e)) =
    (match exprAt line cs with
      | .error fault => Except.error fault
      | .ok e => Except.ok (header e)).mapError (Fault.move f k) := by
  rw [exprAt_moved h]
  cases exprAt line cs <;> rfl

theorem readWhen_moved : readWhen line' = (readWhen line).mapError (Fault.move f k) := by
  rw [readWhen, readWhen, h.text_eq, h.number_eq]
  cases argumentOf? "when" line.text.toList <;> rfl

theorem readIf_moved : readIf line' = (readIf line).mapError (Fault.move f k) := by
  rw [readIf, readIf, h.text_eq, h.number_eq]
  cases argumentOf? "if" line.text.toList with
  | none => rfl
  | some test => exact match_exprAt_moved h test .branch

theorem readShow_moved : readShow line' = (readShow line).mapError (Fault.move f k) := by
  rw [readShow, readShow, h.text_eq, h.number_eq]
  cases argumentOf? "show" line.text.toList with
  | none => rfl
  | some value => exact match_exprAt_moved h value .display

theorem readSet_moved : readSet line' = (readSet line).mapError (Fault.move f k) := by
  rw [readSet, readSet, h.text_eq, h.number_eq]
  cases assignment? line.text.toList with
  | none => rfl
  | some parts => exact match_exprAt_moved h parts.2 (.assign (String.ofList parts.1))

theorem readRoute_moved : readRoute line' = (readRoute line).mapError (Fault.move f k) := by
  rw [readRoute, readRoute, h.text_eq, h.number_eq]
  cases routeName? line.text.toList <;> rfl

/-- **A moved line is the same header**, or refused for the same reason. -/
theorem readHeader_moved : readHeader line' = (readHeader line).mapError (Fault.move f k) := by
  simp only [readHeader, h.text_eq]
  repeat' split
  · exact readWhen_moved h
  · exact readIf_moved h
  · exact readShow_moved h
  · exact readSet_moved h
  · exact readRoute_moved h
  · exact congrArg Except.error (unknownStatement_moved h)

theorem readPlace_moved (keyword : String) (cs : List Char) :
    readPlace line' keyword cs = (readPlace line keyword cs).mapError (Fault.move f k) := by
  rw [readPlace, readPlace, exprAt_moved h, h.number_eq]
  cases exprAt line cs with
  | error fault => rfl
  | ok e => cases e <;> rfl

theorem map_readPlace_moved (keyword : String) (cs : List Char) (option : String → RouteOption) :
    (readPlace line' keyword cs).map option =
      ((readPlace line keyword cs).map option).mapError (Fault.move f k) := by
  rw [readPlace_moved h]
  cases readPlace line keyword cs <;> rfl

/-- **A moved line is the same option**, or refused for the same reason. -/
theorem readOption_moved : readOption line' = (readOption line).mapError (Fault.move f k) := by
  simp only [readOption, h.text_eq]
  split
  · rw [readAvoidance]
    split <;> rfl
  split
  · exact map_readPlace_moved h "from" _ .origin
  split
  · exact map_readPlace_moved h "to" _ .destination
  split
  · rw [readPreference]
    split <;> rfl
  split
  · rw [readStops]
    split <;> rfl
  split
  · rfl
  split
  · rfl
  · exact congrArg Except.error (unknownOption_moved h)

theorem addOption_moved (plan : Route) :
    addOption plan line' = (addOption plan line).mapError (Fault.move f k) := by
  rw [addOption, addOption, readOption_moved h, h.number_eq]
  cases readOption line with
  | error fault => rfl
  | ok option =>
      simp only [Except.mapError]
      cases plan.add option <;> rfl

end Lines

/-! ### Blocks -/

/-- Results for lines and for the same lines moved: the same is read, and what is left is moved as
well, or the fault is the moved one. -/
inductive Alike (f : Int → Int) (k : Int) {α : Type} :
    Except Failure (α × List Line) → Except Failure (α × List Line) → Prop
  | error (failure : Failure) : Alike f k (.error failure) (.error (failure.move f k))
  | ok (a : α) {left left' : List Line} :
      List.Forall₂ (Line.Moved f k) left left' → Alike f k (.ok (a, left)) (.ok (a, left'))

variable {f : Int → Int} {k : Int}

/-- The options of a route block: the same plan is read, or the fault is the moved one. -/
theorem readOptions_moved {lines lines' : List Line}
    (h : List.Forall₂ (Line.Moved f k) lines lines') (indent : Int) (plan : Route) :
    (∃ fault, readOptions indent plan lines = .error fault ∧
      readOptions (indent + k) plan lines' = .error (fault.move f k)) ∨
    ∃ plan' left left', readOptions indent plan lines = .ok (plan', left) ∧
      readOptions (indent + k) plan lines' = .ok (plan', left') ∧
      List.Forall₂ (Line.Moved f k) left left' := by
  induction h generalizing plan with
  | nil => exact .inr ⟨plan, [], [], rfl, rfl, .nil⟩
  | @cons line line' lines lines' hline hlines ih =>
      simp only [readOptions, hline.indent_eq, hline.number_eq, Int.add_lt_add_iff_right]
      by_cases hless : line.indent < indent
      · simp only [if_pos hless]
        exact .inr ⟨plan, _, _, rfl, rfl, .cons hline hlines⟩
      simp only [if_neg hless]
      by_cases hmore : indent < line.indent
      · simp only [if_pos hmore]
        exact .inl ⟨_, rfl, rfl⟩
      simp only [if_neg hmore, addOption_moved hline plan]
      cases addOption plan line with
      | error fault => exact .inl ⟨fault, rfl, rfl⟩
      | ok plan => exact ih plan

/-- Whether lines open the block of a header does not depend on where they stand. -/
theorem blockFault?_moved {header header' : Line} (hheader : header.Moved f k header')
    {lines lines' : List Line} (h : List.Forall₂ (Line.Moved f k) lines lines')
    (keyword : String) (indent : Int) :
    blockFault? header' keyword (indent + k) lines' =
      (blockFault? header keyword indent lines).map (Fault.move f k) := by
  cases h with
  | nil => simp [blockFault?, hheader.number_eq, Fault.move, Cause.shift]
  | @cons line line' lines lines' hline hlines =>
      have hstep : indent + k + indentStep = indent + indentStep + k := by omega
      simp only [blockFault?, hline.indent_eq, hline.number_eq, hheader.number_eq, hstep,
        Int.add_le_add_iff_right, ne_eq, Int.add_left_inj]
      split
      · rfl
      · split <;> rfl

/-- What is to be shown of the lines of a block. -/
def MovesWell (f : Int → Int) (k : Int) (lines : List Line) : Prop :=
  ∀ (base : Int) (lines' : List Line), List.Forall₂ (Line.Moved f k) lines lines' →
    Alike f k (readBlock base lines) (readBlock (base + k) lines')

/-- The block that a header opens, given that blocks are read alike. -/
theorem readChild_moved {header header' : Line} (hheader : header.Moved f k header')
    {lines lines' : List Line} (hwell : MovesWell f k lines)
    (h : List.Forall₂ (Line.Moved f k) lines lines') (keyword : String) (indent : Int) :
    Alike f k (readChild header keyword indent lines)
      (readChild header' keyword (indent + k) lines') := by
  rw [readChild_eq, readChild_eq, blockFault?_moved hheader h]
  cases blockFault? header keyword indent lines with
  | some fault => exact .error ⟨fault, []⟩
  | none =>
      have hstep : indent + k + indentStep = indent + indentStep + k := by omega
      simp only [Option.map_none, hstep]
      exact hwell (indent + indentStep) lines' h

/-- The alternative of a conditional, given that shorter blocks are read alike. -/
theorem readAlternative_moved {lines lines' : List Line}
    (hwell : ∀ lines'' : List Line, lines''.length ≤ lines.length → MovesWell f k lines'')
    (h : List.Forall₂ (Line.Moved f k) lines lines') (indent : Int) :
    Alike f k (readAlternative indent lines) (readAlternative (indent + k) lines') := by
  cases h with
  | nil =>
      rw [readAlternative_nil, readAlternative_nil]
      exact .ok none .nil
  | @cons line line' lines lines' hline hlines =>
      rw [readAlternative_cons, readAlternative_cons, hline.indent_eq, isElse_moved hline]
      simp only [Int.add_left_inj]
      split
      · have hchild := readChild_moved hline (hwell lines (by simp)) hlines "else" indent
        generalize readChild line "else" indent lines = result at hchild ⊢
        generalize readChild line' "else" (indent + k) lines' = result' at hchild ⊢
        cases hchild with
        | error failure => exact .error failure
        | ok body hleft => exact .ok (some body) hleft
      · exact .ok none (.cons hline hlines)

/-- A statement, given that the blocks in it are read alike. -/
theorem readStatement_moved {head head' : Line} (hhead : head.Moved f k head')
    {tail tail' : List Line}
    (hwell : ∀ lines : List Line, lines.length ≤ tail.length → MovesWell f k lines)
    (h : List.Forall₂ (Line.Moved f k) tail tail') (indent : Int) :
    Alike f k (readStatement indent head tail) (readStatement (indent + k) head' tail') := by
  rw [readStatement_eq, readStatement_eq, readHeader_moved hhead]
  cases readHeader head with
  | error fault => exact .error ⟨fault, []⟩
  | ok header =>
      simp only [Except.mapError]
      cases header with
      | display value => exact .ok (Stmt.display value) h
      | assign name value => exact .ok (Stmt.assign name value) h
      | when event =>
          have hchild := readChild_moved hhead (hwell tail (Nat.le_refl _)) h "when" indent
          generalize readChild head "when" indent tail = result at hchild ⊢
          generalize readChild head' "when" (indent + k) tail' = result' at hchild ⊢
          cases hchild with
          | error failure => exact .error failure
          | ok body hleft => exact .ok (Stmt.when event body) hleft
      | branch test =>
          have hchild := readChild_moved hhead (hwell tail (Nat.le_refl _)) h "if" indent
          generalize hresult : readChild head "if" indent tail = result at hchild ⊢
          generalize readChild head' "if" (indent + k) tail' = result' at hchild ⊢
          cases hchild with
          | error failure => exact .error failure
          | @ok body rest rest' hrest =>
              have hlen := length_le_of_readChild hresult
              have halt := readAlternative_moved
                (fun lines hle => hwell lines (Nat.le_trans hle hlen)) hrest indent
              simp only
              generalize readAlternative indent rest = result at halt ⊢
              generalize readAlternative (indent + k) rest' = result' at halt ⊢
              cases halt with
              | error failure => exact .error (failure.after (Stmt.routesOf body))
              | ok elseBody hleft => exact .ok (Stmt.branch test body elseBody) hleft
      | route name =>
          simp only [blockFault?_moved hhead h]
          cases blockFault? head "route" indent tail with
          | some fault => exact .error ⟨fault, []⟩
          | none =>
              have hstep : indent + k + indentStep = indent + indentStep + k := by omega
              have hoptions := readOptions_moved h (indent + indentStep) { name := name }
              simp only [Option.map_none, hstep]
              rcases hoptions with ⟨fault, hread, hread'⟩ |
                ⟨plan, left, left', hread, hread', hleft⟩
              · simp only [hread, hread']
                exact .error ⟨fault, []⟩
              · simp only [hread, hread']
                exact .ok (Stmt.route plan) hleft

/-- **Moved lines are read alike.** -/
theorem readBlock_moved (f : Int → Int) (k : Int) (lines : List Line) : MovesWell f k lines := by
  -- each statement leaves fewer lines than there were, so the induction is on their number
  induction hn : lines.length using Nat.strongRecOn generalizing lines with
  | _ n ih =>
      intro base lines' h
      cases h with
      | nil =>
          rw [readBlock_nil, readBlock_nil]
          exact .ok [] .nil
      | @cons head head' tail tail' hhead htail =>
          rw [List.length_cons] at hn
          rw [readBlock_cons, readBlock_cons, hhead.indent_eq, hhead.number_eq]
          simp only [Int.add_lt_add_iff_right]
          by_cases hless : head.indent < base
          · simp only [if_pos hless]
            exact .ok [] (.cons hhead htail)
          simp only [if_neg hless]
          by_cases hmore : base < head.indent
          · simp only [if_pos hmore]
            exact .error ⟨.at head.number (.deeper base head.indent), []⟩
          simp only [if_neg hmore]
          have hstmt := readStatement_moved hhead
            (fun lines hle => ih lines.length (by omega) lines rfl) htail base
          generalize hresult : readStatement base head tail = result at hstmt ⊢
          generalize readStatement (base + k) head' tail' = result' at hstmt ⊢
          cases hstmt with
          | error failure => exact .error failure
          | @ok stmt rest rest' hrest =>
              have hlen := length_le_of_readStatement hresult
              have hblock := ih rest.length (by omega) rest rfl base rest' hrest
              simp only
              generalize readBlock base rest = result at hblock ⊢
              generalize readBlock (base + k) rest' = result' at hblock ⊢
              cases hblock with
              | error failure => exact .error (failure.after stmt.routes)
              | ok stmts hleft => exact .ok (stmt :: stmts) hleft

end Parse

/-- **A program under other line numbers** is the same program, or refused for the same reason. -/
theorem Program.ofLines_moved {f : Int → Int} {lines lines' : List Line}
    (h : List.Forall₂ (Line.Moved f 0) lines lines') :
    Program.ofLines lines' = (Program.ofLines lines).mapError (Parse.Failure.move f 0) := by
  have hblock := Parse.readBlock_moved f 0 lines 0 lines' h
  rw [Program.ofLines, Program.ofLines]
  rw [show (0 : Int) + 0 = 0 from rfl] at hblock
  generalize Parse.readBlock 0 lines = result at hblock ⊢
  generalize Parse.readBlock 0 lines' = result' at hblock ⊢
  cases hblock with
  | error failure => rfl
  | ok body hleft =>
      cases hleft with
      | nil => rfl
      | cons hline _ =>
          simp [Except.mapError, Parse.Failure.move, Parse.Fault.move, Parse.Cause.shift,
            hline.number_eq, hline.text_eq]

end Waymark
