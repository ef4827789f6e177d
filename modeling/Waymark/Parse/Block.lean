/-
**Reading blocks of statements.**

The structure of a source comes from indents alone.  A block is a run of statements at one indent
and ends before the first line that is indented less.  A header opens a block that is indented by
one step more than the header, and the block has at least one line.

Reading moves forward only: each step gives the lines that are left, with the fact that they are not
more than before, and the recursion rests on that.  A failure carries, besides its fault, the route
plans that were complete when it arose.

Main definitions:

* `Parse.Failure` — a fault and the route plans that were complete before it;
* `Parse.blockFault?` — the fault of the lines after a header, if they do not open its block;
* `Parse.block`, `Parse.statement` — blocks and statements;
* `Parse.readBlock`, `Parse.readStatement` — the same without the bound on what is left;
* `Program.ofLines`, `Program.parse` — whole programs;
* `Program.tryParse` — whole programs, faults at lines being told as diagnostics.

Main results:

* `Parse.readBlock_cons`, `Parse.readStatement_eq` — what a block and a statement are made of.
-/
import Waymark.Parse.Option
import Waymark.Stmt

set_option relaxedAutoImplicit false
set_option autoImplicit false

namespace Waymark

namespace Parse

/-- The number of spaces by which a block is indented more than its header. -/
def indentStep : Int := 2

/-- A fault and the route plans that were complete when it arose. -/
structure Failure where
  fault : Fault
  routes : List Route := []

/-- A failure that arose after further route plans were complete. -/
def Failure.after (routes : List Route) (f : Failure) : Failure :=
  { f with routes := routes ++ f.routes }

/-- The fault of the lines after a header, if they do not open a block one step deeper than the
header. -/
def blockFault? (header : Line) (keyword : String) (indent : Int) (lines : List Line) :
    Option Fault :=
  match lines with
  | [] => some (.at header.number (.missingBlock keyword))
  | line :: _ =>
    if line.indent ≤ indent then some (.at header.number (.missingBlock keyword))
    else if line.indent ≠ indent + indentStep then
      some (.at line.number (.badStep keyword (indent + indentStep) line.indent))
    else none

/-- The lines that are left after a step, not more than before. -/
abbrev Left (lines : List Line) : Type := { rest : List Line // rest.length ≤ lines.length }

mutual

/-- The statements of a block at indent `base`, and the lines after it. -/
def block (base : Int) (lines : List Line) : Except Failure (List Stmt × Left lines) :=
  match lines with
  | [] => .ok ([], ⟨[], Nat.le_refl _⟩)
  | head :: tail =>
    if head.indent < base then .ok ([], ⟨head :: tail, Nat.le_refl _⟩)
    else if base < head.indent then
      .error { fault := .at head.number (.deeper base head.indent) }
    else
      match statement base head tail with
      | .error f => .error f
      | .ok (stmt, ⟨rest, hrest⟩) =>
        match block base rest with
        | .error f => .error (f.after stmt.routes)
        | .ok (stmts, ⟨left, hleft⟩) =>
          .ok (stmt :: stmts, ⟨left, Nat.le_trans hleft (Nat.le_succ_of_le hrest)⟩)
termination_by 3 * lines.length
decreasing_by
  · simp only [List.length_cons]; omega
  · simp only [List.length_cons]; omega

/-- The block that a header opens, and the lines after it. -/
def childBlock (header : Line) (keyword : String) (indent : Int) (lines : List Line) :
    Except Failure (List Stmt × Left lines) :=
  match blockFault? header keyword indent lines with
  | some fault => .error { fault := fault }
  | none => block (indent + indentStep) lines
termination_by 3 * lines.length + 1
decreasing_by omega

/-- The alternative of a conditional, if the lines start with one, and the lines after it. -/
def alternative (indent : Int) (lines : List Line) :
    Except Failure (Option (List Stmt) × Left lines) :=
  match lines with
  | [] => .ok (none, ⟨[], Nat.le_refl _⟩)
  | line :: rest =>
    if line.indent = indent ∧ isElse line = true then
      match childBlock line "else" indent rest with
      | .error f => .error f
      | .ok (body, ⟨left, h⟩) => .ok (some body, ⟨left, Nat.le_succ_of_le h⟩)
    else .ok (none, ⟨line :: rest, Nat.le_refl _⟩)
termination_by 3 * lines.length
decreasing_by simp only [List.length_cons]; omega

/-- The statement whose first line is `head`, and the lines after it. -/
def statement (indent : Int) (head : Line) (tail : List Line) :
    Except Failure (Stmt × Left tail) :=
  match readHeader head with
  | .error fault => .error { fault := fault }
  | .ok (.display value) => .ok (.display value, ⟨tail, Nat.le_refl _⟩)
  | .ok (.assign name value) => .ok (.assign name value, ⟨tail, Nat.le_refl _⟩)
  | .ok (.when event) =>
    match childBlock head "when" indent tail with
    | .error f => .error f
    | .ok (body, left) => .ok (.when event body, left)
  | .ok (.branch test) =>
    match childBlock head "if" indent tail with
    | .error f => .error f
    | .ok (thenBody, ⟨rest, hrest⟩) =>
      match alternative indent rest with
      | .error f => .error (f.after (Stmt.routesOf thenBody))
      | .ok (elseBody, ⟨left, hleft⟩) =>
        .ok (.branch test thenBody elseBody, ⟨left, Nat.le_trans hleft hrest⟩)
  | .ok (.route name) =>
    match blockFault? head "route" indent tail with
    | some fault => .error { fault := fault }
    | none =>
      match h : readOptions (indent + indentStep) { name := name } tail with
      | .error fault => .error { fault := fault }
      | .ok (plan, rest) => .ok (.route plan, ⟨rest, length_le_of_readOptions h⟩)
termination_by 3 * tail.length + 2
decreasing_by
  all_goals omega

end

/-! ### Reading, without the bound on what is left -/

/-- What was read and the lines that are left, without the fact that they are not more. -/
def forget {α : Type} {lines : List Line} (result : Except Failure (α × Left lines)) :
    Except Failure (α × List Line) :=
  match result with
  | .error f => .error f
  | .ok (a, ⟨left, _⟩) => .ok (a, left)

/-- The statements of a block at indent `base`, and the lines after it. -/
def readBlock (base : Int) (lines : List Line) : Except Failure (List Stmt × List Line) :=
  forget (block base lines)

/-- The block that a header opens, and the lines after it. -/
def readChild (header : Line) (keyword : String) (indent : Int) (lines : List Line) :
    Except Failure (List Stmt × List Line) :=
  forget (childBlock header keyword indent lines)

/-- The alternative of a conditional, if the lines start with one, and the lines after it. -/
def readAlternative (indent : Int) (lines : List Line) :
    Except Failure (Option (List Stmt) × List Line) :=
  forget (alternative indent lines)

/-- The statement whose first line is `head`, and the lines after it. -/
def readStatement (indent : Int) (head : Line) (tail : List Line) :
    Except Failure (Stmt × List Line) :=
  forget (statement indent head tail)

@[simp] theorem forget_error {α : Type} {lines : List Line} (f : Failure) :
    forget (.error f : Except Failure (α × Left lines)) = .error f := rfl

@[simp] theorem forget_ok {α : Type} {lines : List Line} (a : α) (left : Left lines) :
    forget (.ok (a, left)) = .ok (a, left.val) := rfl

/-- What is left after a step is not more than before. -/
theorem length_le_of_forget {α : Type} {lines left : List Line} {a : α}
    {result : Except Failure (α × Left lines)} (h : forget result = .ok (a, left)) :
    left.length ≤ lines.length := by
  cases result with
  | error f => simp at h
  | ok r =>
    obtain ⟨a', left', hle⟩ := r
    simp only [forget_ok, Except.ok.injEq, Prod.mk.injEq] at h
    rw [← h.2]
    exact hle

theorem length_le_of_readStatement {indent : Int} {head : Line} {tail left : List Line}
    {stmt : Stmt} (h : readStatement indent head tail = .ok (stmt, left)) :
    left.length ≤ tail.length :=
  length_le_of_forget h

theorem length_le_of_readChild {header : Line} {keyword : String} {indent : Int}
    {lines left : List Line} {stmts : List Stmt}
    (h : readChild header keyword indent lines = .ok (stmts, left)) :
    left.length ≤ lines.length :=
  length_le_of_forget h

@[simp] theorem readBlock_nil (base : Int) : readBlock base [] = .ok ([], []) := by
  rw [readBlock, block]
  rfl

/-- A block is empty if the first line is indented less, and otherwise a statement and the rest of
the block. -/
theorem readBlock_cons (base : Int) (head : Line) (tail : List Line) :
    readBlock base (head :: tail) =
      if head.indent < base then .ok ([], head :: tail)
      else if base < head.indent then
        .error { fault := .at head.number (.deeper base head.indent) }
      else
        match readStatement base head tail with
        | .error f => .error f
        | .ok (stmt, rest) =>
          match readBlock base rest with
          | .error f => .error (f.after stmt.routes)
          | .ok (stmts, left) => .ok (stmt :: stmts, left) := by
  rw [readBlock, block]
  split
  · rfl
  · split
    · rfl
    · rw [readStatement]
      cases statement base head tail with
      | error f => rfl
      | ok r =>
        obtain ⟨stmt, rest, hrest⟩ := r
        simp only [forget_ok, readBlock]
        cases block base rest with
        | error f => rfl
        | ok r => rfl

/-- A header opens a block that is indented by one step more. -/
theorem readChild_eq (header : Line) (keyword : String) (indent : Int) (lines : List Line) :
    readChild header keyword indent lines =
      match blockFault? header keyword indent lines with
      | some fault => .error { fault := fault }
      | none => readBlock (indent + indentStep) lines := by
  rw [readChild, childBlock]
  cases blockFault? header keyword indent lines <;> rfl

@[simp] theorem readAlternative_nil (indent : Int) :
    readAlternative indent [] = .ok (none, []) := by
  rw [readAlternative, alternative]
  rfl

/-- An alternative starts with a line of its own at the indent of the conditional. -/
theorem readAlternative_cons (indent : Int) (line : Line) (rest : List Line) :
    readAlternative indent (line :: rest) =
      if line.indent = indent ∧ isElse line = true then
        match readChild line "else" indent rest with
        | .error f => .error f
        | .ok (body, left) => .ok (some body, left)
      else .ok (none, line :: rest) := by
  rw [readAlternative, alternative, readChild]
  split
  · cases childBlock line "else" indent rest with
    | error f => rfl
    | ok r => rfl
  · rfl

/-- A statement is its header and the blocks that the header opens. -/
theorem readStatement_eq (indent : Int) (head : Line) (tail : List Line) :
    readStatement indent head tail =
      match readHeader head with
      | .error fault => .error { fault := fault }
      | .ok (.display value) => .ok (.display value, tail)
      | .ok (.assign name value) => .ok (.assign name value, tail)
      | .ok (.when event) =>
        match readChild head "when" indent tail with
        | .error f => .error f
        | .ok (body, left) => .ok (.when event body, left)
      | .ok (.branch test) =>
        match readChild head "if" indent tail with
        | .error f => .error f
        | .ok (thenBody, rest) =>
          match readAlternative indent rest with
          | .error f => .error (f.after (Stmt.routesOf thenBody))
          | .ok (elseBody, left) => .ok (.branch test thenBody elseBody, left)
      | .ok (.route name) =>
        match blockFault? head "route" indent tail with
        | some fault => .error { fault := fault }
        | none =>
          match readOptions (indent + indentStep) { name := name } tail with
          | .error fault => .error { fault := fault }
          | .ok (plan, rest) => .ok (.route plan, rest) := by
  rw [readStatement, statement]
  cases readHeader head with
  | error fault => rfl
  | ok header =>
    cases header with
    | display value => rfl
    | assign name value => rfl
    | when event =>
      simp only [readChild]
      cases childBlock head "when" indent tail with
      | error f => rfl
      | ok r => rfl
    | branch test =>
      simp only [readChild]
      cases childBlock head "if" indent tail with
      | error f => rfl
      | ok r =>
        obtain ⟨thenBody, rest, hrest⟩ := r
        simp only [forget_ok, readAlternative]
        cases alternative indent rest with
        | error f => rfl
        | ok r => rfl
    | route name =>
      simp only
      cases blockFault? head "route" indent tail with
      | some fault => rfl
      | none =>
        simp only
        split
        · rename_i fault h
          simp only [h, forget_error]
        · rename_i plan rest h
          simp only [h, forget_ok]

end Parse

namespace Program

/-- The program that significant lines are. -/
def ofLines (lines : List Line) : Except Parse.Failure Program :=
  match Parse.readBlock 0 lines with
  | .error f => .error f
  | .ok (body, []) => .ok ⟨body⟩
  | .ok (body, line :: _) =>
    .error ⟨.at line.number (.extraInput line.text), Stmt.routesOf body⟩

/-- The program that a source is, or why it is refused. -/
def parse (source : String) : Except Parse.Fault Program :=
  match Source.lines source with
  | .error number => .error (.at number .tab)
  | .ok lines =>
    match ofLines lines with
    | .error f => .error f.fault
    | .ok program => .ok program

/-- The program that a source is, a fault at a line being told as a diagnostic; the other faults
remain faults. -/
def tryParse (source : String) : Except Parse.Fault (Except Diagnostic Program) :=
  match parse source with
  | .ok program => .ok (.ok program)
  | .error (.at line cause) => .ok (.error (cause.diagnostic line))
  | .error fault => .error fault

end Program

end Waymark
