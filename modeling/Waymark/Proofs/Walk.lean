/-
**Reading with a cursor.**

The reader of blocks is given the lines that are left and takes them apart as lists.  The same can
be done with a cursor, which is asked for the line ahead and is moved behind it, and which cannot
answer when no line is left.  A walk is written in that way: it looks at a line before it decides,
it moves without asking whether it can, and an answer that is not there ends it.

No walk ends like that.  Whenever a line is asked for there is one, and a walk finds what the reader
of blocks finds.

Main definitions:

* `Walk.Slip` — how a walk ends early: the source is refused, there is no line to look at, or the
  cursor is moved beyond the last line;
* `Walk.look`, `Walk.take` — the line ahead, which must be there, without and with a move;
* `Walk.block`, `Walk.statement`, `Walk.options` — blocks, statements and route options;
* `Walk.program`, `Walk.parse` — whole programs.

Main results:

* `Walk.options_agrees`, `Walk.block_agrees` — a walk finds what the reader of blocks finds;
* `Walk.parse_eq` — **a walk over a source ends with its program or its fault**, never for want of a
  line.
-/
import Waymark.Cursor
import Waymark.Parse.Block

set_option relaxedAutoImplicit false
set_option autoImplicit false

namespace Waymark

namespace Walk

open Parse

/-! ### The cursor -/

/-- How a walk ends early. -/
inductive Slip where
  /-- The source is refused. -/
  | refused (fault : Fault)
  /-- A line is looked at, but none is ahead. -/
  | noLine
  /-- The cursor is moved beyond the last line. -/
  | pastEnd

/-- A cursor that is not before another one. -/
abbrev Onward (c : Cursor) : Type := { d : Cursor // d.ahead.length ≤ c.ahead.length }

/-- A cursor that is at least one line further on than another one. -/
abbrev Beyond (c : Cursor) : Type := { d : Cursor // d.ahead.length < c.ahead.length }

/-- A move leaves one line less ahead. -/
theorem length_lt_of_advance? {c d : Cursor} {line : Line} (h : c.advance? = some (line, d)) :
    d.ahead.length < c.ahead.length := by
  obtain ⟨hsize, hposition⟩ := Cursor.size_of_advance? h
  simp only [Cursor.size] at hsize
  omega

/-- The line ahead, which must be there. -/
def look (c : Cursor) : Except Slip Line :=
  match c.peek? with
  | none => .error .noLine
  | some line => .ok line

/-- The line ahead, which must be there, and the cursor behind it. -/
def take (c : Cursor) : Except Slip (Line × Beyond c) :=
  match h : c.advance? with
  | none => .error .pastEnd
  | some (line, d) => .ok (line, ⟨d, length_lt_of_advance? h⟩)

/-! ### Walks -/

/-- The options of a route block at the given indent, added to a route plan. -/
def options (indent : Int) (plan : Route) (c : Cursor) : Except Slip (Route × Onward c) :=
  if c.atEnd then .ok (plan, ⟨c, Nat.le_refl _⟩)
  else
    match look c with
    | .error slip => .error slip
    | .ok line =>
      if line.indent < indent then .ok (plan, ⟨c, Nat.le_refl _⟩)
      else if indent < line.indent then
        .error (.refused (.at line.number (.deeperOption indent line.indent)))
      else
        match take c with
        | .error slip => .error slip
        | .ok (_, ⟨d, hd⟩) =>
          match addOption plan line with
          | .error fault => .error (.refused fault)
          | .ok plan =>
            match options indent plan d with
            | .error slip => .error slip
            | .ok (plan, ⟨e, he⟩) => .ok (plan, ⟨e, Nat.le_trans he (Nat.le_of_lt hd)⟩)
termination_by c.ahead.length

/-- The fault of what follows a header, if it does not open a block one step deeper. -/
def openFault? (header : Line) (keyword : String) (indent : Int) (following : Option Line) :
    Option Fault :=
  match following with
  | none => some (.at header.number (.missingBlock keyword))
  | some line =>
    if line.indent ≤ indent then some (.at header.number (.missingBlock keyword))
    else if line.indent ≠ indent + indentStep then
      some (.at line.number (.badStep keyword (indent + indentStep) line.indent))
    else none

/-- Whether a line starts with the keyword of a statement. -/
def startsStatement (line : Line) : Bool :=
  Keyword.statements.any (startsWith · line.text.toList)

mutual

/-- The statements of a block at indent `base`. -/
def block (base : Int) (c : Cursor) : Except Slip (List Stmt × Onward c) :=
  if c.atEnd then .ok ([], ⟨c, Nat.le_refl _⟩)
  else
    match look c with
    | .error slip => .error slip
    | .ok line =>
      if line.indent < base then .ok ([], ⟨c, Nat.le_refl _⟩)
      else if base < line.indent then
        .error (.refused (.at line.number (.deeper base line.indent)))
      else
        match statement base c with
        | .error slip => .error slip
        | .ok (stmt, ⟨d, hd⟩) =>
          match block base d with
          | .error slip => .error slip
          | .ok (stmts, ⟨e, he⟩) => .ok (stmt :: stmts, ⟨e, Nat.le_trans he (Nat.le_of_lt hd)⟩)
termination_by 3 * c.ahead.length + 1

/-- The block that a header opens. -/
def childBlock (header : Line) (keyword : String) (indent : Int) (c : Cursor) :
    Except Slip (List Stmt × Onward c) :=
  match openFault? header keyword indent c.peek? with
  | some fault => .error (.refused fault)
  | none => block (indent + indentStep) c
termination_by 3 * c.ahead.length + 2

/-- The alternative of a conditional, if the line ahead opens one. -/
def alternative (indent : Int) (c : Cursor) : Except Slip (Option (List Stmt) × Onward c) :=
  match c.peek? with
  | none => .ok (none, ⟨c, Nat.le_refl _⟩)
  | some line =>
    if line.indent = indent ∧ isElse line = true then
      match take c with
      | .error slip => .error slip
      | .ok (_, ⟨d, hd⟩) =>
        match childBlock line "else" indent d with
        | .error slip => .error slip
        | .ok (body, ⟨e, he⟩) => .ok (some body, ⟨e, Nat.le_trans he (Nat.le_of_lt hd)⟩)
    else .ok (none, ⟨c, Nat.le_refl _⟩)
termination_by 3 * c.ahead.length

/-- The statement that starts at the line ahead. -/
def statement (indent : Int) (c : Cursor) : Except Slip (Stmt × Beyond c) :=
  match look c with
  | .error slip => .error slip
  | .ok line =>
    if startsStatement line then
      match take c with
      | .error slip => .error slip
      | .ok (head, ⟨d, hd⟩) =>
        match readHeader head with
        | .error fault => .error (.refused fault)
        | .ok (.display value) => .ok (.display value, ⟨d, hd⟩)
        | .ok (.assign name value) => .ok (.assign name value, ⟨d, hd⟩)
        | .ok (.when event) =>
          match childBlock head "when" indent d with
          | .error slip => .error slip
          | .ok (body, ⟨e, he⟩) => .ok (.when event body, ⟨e, Nat.lt_of_le_of_lt he hd⟩)
        | .ok (.branch test) =>
          match childBlock head "if" indent d with
          | .error slip => .error slip
          | .ok (thenBody, ⟨e, he⟩) =>
            match alternative indent e with
            | .error slip => .error slip
            | .ok (elseBody, ⟨f, hf⟩) =>
              .ok (.branch test thenBody elseBody,
                ⟨f, Nat.lt_of_le_of_lt (Nat.le_trans hf he) hd⟩)
        | .ok (.route name) =>
          match openFault? head "route" indent d.peek? with
          | some fault => .error (.refused fault)
          | none =>
            match options (indent + indentStep) { name := name } d with
            | .error slip => .error slip
            | .ok (plan, ⟨e, he⟩) => .ok (.route plan, ⟨e, Nat.lt_of_le_of_lt he hd⟩)
    else .error (.refused (unknownStatement line))
termination_by 3 * c.ahead.length

end

/-- The program that significant lines are. -/
def program (lines : List Line) : Except Slip Program :=
  match block 0 (Cursor.start lines) with
  | .error slip => .error slip
  | .ok (body, ⟨c, _⟩) =>
    if c.atEnd then .ok ⟨body⟩
    else
      match look c with
      | .error slip => .error slip
      | .ok line => .error (.refused (.at line.number (.extraInput line.text)))

/-- The program that a source is. -/
def parse (source : String) : Except Slip Program :=
  match Source.lines source with
  | .error number => .error (.refused (.at number .tab))
  | .ok lines => program lines

/-! ### A walk finds what the reader finds -/

/-- A walk that ends as the reader of blocks does: with the same result and the same lines ahead, or
with the same fault. -/
inductive Agrees {α : Type} {p : Cursor → Prop} :
    Except Slip (α × { d : Cursor // p d }) → Except Failure (α × List Line) → Prop
  | refused (f : Failure) : Agrees (.error (.refused f.fault)) (.error f)
  | found (a : α) (d : { d : Cursor // p d }) : Agrees (.ok (a, d)) (.ok (a, d.val.ahead))

@[simp] theorem atEnd_cons (n : Nat) (line : Line) (rest : List Line) :
    Cursor.atEnd ⟨n, line :: rest⟩ = false := rfl

@[simp] theorem look_cons (n : Nat) (line : Line) (rest : List Line) :
    look ⟨n, line :: rest⟩ = .ok line := rfl

@[simp] theorem take_cons (n : Nat) (line : Line) (rest : List Line) :
    take ⟨n, line :: rest⟩ = .ok (line, ⟨⟨n + 1, rest⟩, Nat.lt_succ_self _⟩) := rfl

theorem openFault?_peek? (header : Line) (keyword : String) (indent : Int) (c : Cursor) :
    openFault? header keyword indent c.peek? = blockFault? header keyword indent c.ahead := by
  obtain ⟨n, lines⟩ := c
  cases lines with
  | nil => rfl
  | cons line rest => rfl

/-- **The options of a route block**: a line is taken only after it was looked at. -/
theorem options_agrees (indent : Int) (plan : Route) (n : Nat) (lines : List Line) :
    Agrees (options indent plan ⟨n, lines⟩)
      ((readOptions indent plan lines).mapError fun fault => { fault := fault }) := by
  induction lines generalizing plan n with
  | nil =>
      rw [options, readOptions]
      exact .found plan _
  | cons line rest ih =>
      rw [options, readOptions]
      simp only [atEnd_cons, Bool.false_eq_true, if_false, look_cons, take_cons]
      by_cases hless : line.indent < indent
      · simp only [if_pos hless]
        exact .found plan _
      simp only [if_neg hless]
      by_cases hmore : indent < line.indent
      · simp only [if_pos hmore]
        exact .refused { fault := .at line.number (.deeperOption indent line.indent) }
      simp only [if_neg hmore]
      cases addOption plan line with
      | error fault => exact .refused { fault := fault }
      | ok next =>
          have hrest := ih next (n + 1)
          simp only
          generalize options indent next ⟨n + 1, rest⟩ = walked at hrest ⊢
          generalize (readOptions indent next rest).mapError _ = read at hrest ⊢
          cases hrest with
          | refused f => exact .refused f
          | found plan' d => exact .found plan' _

/-- A line that starts no statement is refused as such. -/
theorem readHeader_of_not_startsStatement {line : Line} (h : startsStatement line = false) :
    readHeader line = .error (unknownStatement line) := by
  simp only [startsStatement, Keyword.statements, List.any_cons, List.any_nil, Bool.or_false,
    Bool.or_eq_false_iff] at h
  obtain ⟨hwhen, hif, hshow, hset, hroute⟩ := h
  simp only [readHeader, hwhen, hif, hshow, hset, hroute]
  rfl

/-- What is to be shown of the lines of a block. -/
def BlocksAgree (lines : List Line) : Prop :=
  ∀ (base : Int) (n : Nat), Agrees (block base ⟨n, lines⟩) (readBlock base lines)

theorem childBlock_agrees {lines : List Line} (hblocks : BlocksAgree lines) (header : Line)
    (keyword : String) (indent : Int) (n : Nat) :
    Agrees (childBlock header keyword indent ⟨n, lines⟩)
      (readChild header keyword indent lines) := by
  rw [childBlock, readChild_eq, openFault?_peek?]
  cases blockFault? header keyword indent lines with
  | some fault => exact .refused { fault := fault }
  | none => exact hblocks (indent + indentStep) n

theorem alternative_agrees {lines : List Line}
    (hblocks : ∀ rest : List Line, rest.length < lines.length → BlocksAgree rest)
    (indent : Int) (n : Nat) :
    Agrees (alternative indent ⟨n, lines⟩) (readAlternative indent lines) := by
  rw [alternative]
  cases lines with
  | nil =>
      rw [readAlternative_nil]
      exact .found none _
  | cons line rest =>
      rw [readAlternative_cons]
      simp only [Cursor.peek?, List.head?_cons, take_cons]
      split
      · have hchild :=
          childBlock_agrees (hblocks rest (by simp)) line "else" indent (n + 1)
        generalize childBlock line "else" indent ⟨n + 1, rest⟩ = walked at hchild ⊢
        generalize readChild line "else" indent rest = read at hchild ⊢
        cases hchild with
        | refused f => exact .refused f
        | found body d => exact .found (some body) _
      · exact .found none _

/-- A statement, given that the blocks in it are found. -/
theorem statement_agrees {head : Line} {tail : List Line}
    (hblocks : ∀ rest : List Line, rest.length ≤ tail.length → BlocksAgree rest)
    (indent : Int) (n : Nat) :
    Agrees (statement indent ⟨n, head :: tail⟩) (readStatement indent head tail) := by
  rw [statement, readStatement_eq]
  simp only [look_cons, take_cons]
  by_cases hstarts : startsStatement head = true
  · simp only [if_pos hstarts]
    cases readHeader head with
    | error fault => exact .refused { fault := fault }
    | ok header =>
        cases header with
        | display value => exact .found (Stmt.display value) _
        | assign name value => exact .found (Stmt.assign name value) _
        | when event =>
            have hchild :=
              childBlock_agrees (hblocks tail (Nat.le_refl _)) head "when" indent (n + 1)
            simp only
            generalize childBlock head "when" indent ⟨n + 1, tail⟩ = walked at hchild ⊢
            generalize readChild head "when" indent tail = read at hchild ⊢
            cases hchild with
            | refused f => exact .refused f
            | found body d => exact .found (Stmt.when event body) _
        | branch test =>
            have hchild :=
              childBlock_agrees (hblocks tail (Nat.le_refl _)) head "if" indent (n + 1)
            simp only
            generalize childBlock head "if" indent ⟨n + 1, tail⟩ = walked at hchild ⊢
            generalize readChild head "if" indent tail = read at hchild ⊢
            cases hchild with
            | refused f => exact .refused f
            | found body d =>
                obtain ⟨⟨m, rest⟩, hle⟩ := d
                have halt := alternative_agrees
                  (fun lines hlt => hblocks lines (Nat.le_trans (Nat.le_of_lt hlt) hle)) indent m
                simp only
                generalize alternative indent ⟨m, rest⟩ = walked at halt ⊢
                generalize readAlternative indent rest = read at halt ⊢
                cases halt with
                | refused f => exact .refused (f.after (Stmt.routesOf body))
                | found elseBody d => exact .found (Stmt.branch test body elseBody) _
        | route name =>
            simp only [openFault?_peek?]
            cases blockFault? head "route" indent tail with
            | some fault => exact .refused { fault := fault }
            | none =>
                have hoptions :=
                  options_agrees (indent + indentStep) { name := name } (n + 1) tail
                simp only
                generalize options (indent + indentStep) { name := name } ⟨n + 1, tail⟩ = walked
                  at hoptions ⊢
                cases hread : readOptions (indent + indentStep) { name := name } tail with
                | error fault =>
                    rw [hread] at hoptions
                    cases hoptions with
                    | refused f => exact .refused { fault := fault }
                | ok r =>
                    rw [hread] at hoptions
                    cases hoptions with
                    | found plan d => exact .found (Stmt.route plan) _
  · rw [readHeader_of_not_startsStatement (by simpa using hstarts), if_neg hstarts]
    exact .refused { fault := unknownStatement head }

/-- **A walk over a block finds what the reader of blocks finds.** -/
theorem block_agrees (lines : List Line) : BlocksAgree lines := by
  -- each statement leaves fewer lines ahead than there were, so the induction is on their number
  induction hn : lines.length using Nat.strongRecOn generalizing lines with
  | _ k ih =>
      intro base n
      rw [block]
      cases lines with
      | nil =>
          rw [readBlock_nil]
          exact .found [] _
      | cons head tail =>
          rw [List.length_cons] at hn
          rw [readBlock_cons]
          simp only [atEnd_cons, Bool.false_eq_true, if_false, look_cons]
          by_cases hless : head.indent < base
          · simp only [if_pos hless]
            exact .found [] _
          simp only [if_neg hless]
          by_cases hmore : base < head.indent
          · simp only [if_pos hmore]
            exact .refused { fault := .at head.number (.deeper base head.indent) }
          simp only [if_neg hmore]
          have hstmt : Agrees (statement base ⟨n, head :: tail⟩) (readStatement base head tail) :=
            statement_agrees (fun rest hle => ih rest.length (by omega) rest rfl) base n
          generalize statement base ⟨n, head :: tail⟩ = walked at hstmt ⊢
          generalize readStatement base head tail = read at hstmt ⊢
          cases hstmt with
          | refused f => exact .refused f
          | found stmt d =>
              obtain ⟨⟨m, rest⟩, hlt⟩ := d
              have hlength : rest.length < k := by
                have := hlt
                simp only [List.length_cons] at this
                omega
              have hblock := ih rest.length hlength rest rfl base m
              simp only
              generalize block base ⟨m, rest⟩ = walked at hblock ⊢
              generalize readBlock base rest = read at hblock ⊢
              cases hblock with
              | refused f => exact .refused (f.after stmt.routes)
              | found stmts d => exact .found (stmt :: stmts) _

/-! ### Whole programs -/

theorem program_eq (lines : List Line) :
    program lines = (Program.ofLines lines).mapError fun f => .refused f.fault := by
  have hblock : Agrees (block 0 (Cursor.start lines)) (readBlock 0 lines) :=
    block_agrees lines 0 0
  rw [program, Program.ofLines]
  generalize block 0 (Cursor.start lines) = walked at hblock ⊢
  generalize readBlock 0 lines = read at hblock ⊢
  cases hblock with
  | refused f => rfl
  | found body d =>
      obtain ⟨⟨n, left⟩, hle⟩ := d
      cases left with
      | nil => rfl
      | cons line left => rfl

/-- **A walk over a source ends with its program or its fault**: it never looks at a line that is
not there, and the cursor is never moved beyond the last line. -/
theorem parse_eq (source : String) :
    parse source = (Program.parse source).mapError .refused := by
  rw [parse, Program.parse]
  cases Source.lines source with
  | error number => rfl
  | ok lines =>
      simp only [program_eq]
      cases Program.ofLines lines with
      | error f => rfl
      | ok program => rfl

end Walk

end Waymark
