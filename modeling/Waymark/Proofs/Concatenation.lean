/-
**Concatenation is sequential composition.**

Two sources that are written one below the other are one source, and its program is the statements
of the first followed by those of the second.  Nothing at the end of the first source is left open
for what follows it: a block ends at the first line that is indented less, and the lines of the
second source start at indent zero with a statement, so none of them opens the alternative of a
conditional that ended the first.

What such a program does is what the two programs do one after the other, in one and the same state.

Main results:

* `Grammar.Block.append` — blocks at one indent, one below the other, are one block;
* `Source.linesFrom_append` — the significant lines of physical lines one below the other;
* `Source.lines_append` — the significant lines of two sources one below the other;
* `Program.parse_append` — **two sources one below the other are their statements in order**;
* `Program.concatenation_is_sequence` — the same for reading and for running.
-/
import Waymark.Proofs.Effects
import Waymark.Proofs.Grammar
import Waymark.Proofs.Relayout

set_option relaxedAutoImplicit false
set_option autoImplicit false

namespace Waymark

/-! ### Blocks one below the other -/

namespace Grammar

/-- **Blocks at one indent, one below the other, are one block.** -/
theorem Block.append {base : Int} {lines more : List Line} {stmts others : List Stmt}
    (h : Block base lines stmts) (hmore : Block base more others) :
    Block base (lines ++ more) (stmts ++ others) := by
  -- only the last block of the chain grows; the blocks inside a statement stay as they are
  induction h with
  | nil base => exact hmore
  | display hd _ ih => exact .display hd (ih hmore)
  | assign hd _ ih => exact .assign hd (ih hmore)
  | when hd hbody hne _ _ ih =>
      rw [List.cons_append, List.append_assoc]
      exact .when hd hbody hne (ih hmore)
  | branch hd hbody hne _ _ ih =>
      rw [List.cons_append, List.append_assoc]
      exact .branch hd hbody hne (ih hmore)
  | branchElse hd hbody hne helse hother hne' _ _ _ ih =>
      rw [List.cons_append, List.append_assoc, List.cons_append, List.append_assoc]
      exact .branchElse hd hbody hne helse hother hne' (ih hmore)
  | route hd hall hne hslots _ ih =>
      rw [List.cons_append, List.append_assoc]
      exact .route hd hall hne hslots (ih hmore)

end Grammar

/-! ### Lines one below the other -/

namespace Source

/-- The significant lines of physical lines one below the other; the first tab counts. -/
theorem linesFrom_append (number : Nat) (raws more : List (List Char)) :
    linesFrom number (raws ++ more) =
      match linesFrom number raws with
      | .error n => .error n
      | .ok upper =>
        match linesFrom (number + raws.length) more with
        | .error n => .error n
        | .ok lower => .ok (upper ++ lower) := by
  induction raws generalizing number with
  | nil =>
      simp only [List.nil_append, linesFrom, List.length_nil, Nat.add_zero]
      cases linesFrom number more <;> rfl
  | cons raw raws ih =>
      have hlength : number + (raw :: raws).length = number + 1 + raws.length := by
        rw [List.length_cons]
        omega
      rw [List.cons_append, linesFrom, linesFrom, ih (number + 1), hlength]
      cases Line.ofPhysical number raw with
      | skipped => rfl
      | tabbed => rfl
      | significant line =>
          cases linesFrom (number + 1) raws with
          | error n => rfl
          | ok upper =>
              simp only
              cases linesFrom (number + 1 + raws.length) more <;> rfl

/-- Physical lines after an edit hold the same significant lines, if those before it hold any. -/
theorem linesFrom_follows {f : Int → Int} {n n' : Nat} {raws raws' : List (List Char)}
    {lines : List Line} (hfollows : Layout.Follows f n n' raws raws')
    (h : linesFrom n raws = .ok lines) :
    ∃ lines', linesFrom n' raws' = .ok lines' ∧ List.Forall₂ (Line.Moved f 0) lines lines' := by
  rcases hfollows.linesFrom with ⟨m, _, -, hread, -⟩ | ⟨kept, lines', hread, hread', hmoved⟩
  · rw [h] at hread
    simp at hread
  · rw [h, Except.ok.injEq] at hread
    exact ⟨lines', hread', hread ▸ hmoved⟩

/-- Physical lines that stand further below hold the same significant lines, under greater
numbers. -/
theorem linesFrom_lower {number : Nat} {raws : List (List Char)} {lines : List Line}
    (h : linesFrom number raws = .ok lines) (k : Nat) :
    ∃ lines', linesFrom (number + k) raws = .ok lines' ∧
      List.Forall₂ (Line.Moved (· + k) 0) lines lines' := by
  have hfollows : Layout.Follows (· + (k : Int)) number (number + k) raws raws := by
    refine .refl raws fun i => ?_
    push_cast
    omega
  exact linesFrom_follows hfollows h

/-- A line break at the end of a source changes nothing about its significant lines. -/
theorem linesFrom_break {source : List Char} {lines : List Line}
    (h : linesFrom 1 (physicalLines source) = .ok lines) :
    ∃ lines', linesFrom 1 (physicalLines (source ++ ['\n'])) = .ok lines' ∧
      List.Forall₂ (Line.Moved id 0) lines lines' := by
  have hedit : Layout.Edit id source (source ++ ['\n']) := .append ⟨by simp, rfl⟩
  exact linesFrom_follows hedit.follows h

/-- **The significant lines of two sources one below the other** are those of the two, under other
numbers. -/
theorem lines_append {first second : String} {upper lower : List Line}
    (h : lines first = .ok upper) (h' : lines second = .ok lower) :
    ∃ (upper' lower' : List Line) (k : Nat),
      lines (first ++ "\n" ++ second) = .ok (upper' ++ lower') ∧
      List.Forall₂ (Line.Moved id 0) upper upper' ∧
      List.Forall₂ (Line.Moved (· + k) 0) lower lower' := by
  obtain ⟨raws, -, hraws⟩ := physicalLines_append first.toList
  obtain ⟨upper', hupper, hmoved⟩ := linesFrom_break h
  obtain ⟨lower', hlower, hmoved'⟩ := linesFrom_lower h' raws.length
  have hsource : (first ++ "\n" ++ second).toList = first.toList ++ '\n' :: second.toList := by
    simp
  rw [lines, hsource, hraws, linesFrom_append]
  -- behind the line break of the first source there would be an empty line, which is skipped
  rw [hraws, show physicalLines [] = [[]] from rfl, linesFrom_append] at hupper
  cases hread : linesFrom 1 raws with
  | error n => simp [hread] at hupper
  | ok kept =>
      have hidle : linesFrom (1 + raws.length) [[]] = .ok [] := rfl
      simp only [hread, hidle, List.append_nil, Except.ok.injEq] at hupper
      simp only [hlower]
      exact ⟨kept, lower', raws.length, rfl, hupper ▸ hmoved, hmoved'⟩

end Source

/-! ### Programs one after the other -/

namespace Program

open Grammar

/-- Lines under other numbers are the same block. -/
theorem block_moved {f : Int → Int} {lines lines' : List Line} {body : List Stmt}
    (h : Block 0 lines body) (hmoved : List.Forall₂ (Line.Moved f 0) lines lines') :
    Block 0 lines' body := by
  apply block_of_ofLines
  rw [ofLines_moved hmoved, h.ofLines_eq]
  rfl

/-- **Two sources one below the other are their statements in order.** -/
theorem parse_append {first second : String} {p q : Program} (h : parse first = .ok p)
    (h' : parse second = .ok q) : parse (first ++ "\n" ++ second) = .ok ⟨p.body ++ q.body⟩ := by
  obtain ⟨upper, hupper, hblock⟩ := parse_eq_ok_iff.1 h
  obtain ⟨lower, hlower, hblock'⟩ := parse_eq_ok_iff.1 h'
  obtain ⟨upper', lower', k, hlines, hmoved, hmoved'⟩ := Source.lines_append hupper hlower
  have happend := (block_moved hblock hmoved).append (block_moved hblock' hmoved')
  exact parse_eq_ok_iff.2 ⟨_, hlines, happend⟩

/-- **Concatenation is sequential composition.**  Two sources that are accepted are accepted one
below the other, as the statements of the first followed by those of the second.  A program made of
two lists of statements does what the two do one after the other in one state; and if the first ends
in a fault, the outcome and the state are those of the first alone. -/
theorem concatenation_is_sequence :
    (∀ (first second : String) (p q : Program), parse first = .ok p → parse second = .ok q →
      parse (first ++ "\n" ++ second) = .ok ⟨p.body ++ q.body⟩) ∧
    ∀ (ctx : Run.Context) (first second : List Value) (s : Run.State),
      Run.SameEffects (Run.run ctx (.programNode (.block (first ++ second))) s)
        (Run.runBoth ctx (.programNode (.block first)) (.programNode (.block second)) s) ∧
      ∀ fault, (Run.run ctx (.programNode (.block first)) s).2 = some fault →
        Run.run ctx (.programNode (.block (first ++ second))) s =
          Run.run ctx (.programNode (.block first)) s := by
  refine ⟨fun first second p q h h' => parse_append h h', fun ctx first second s => ⟨?_, ?_⟩⟩
  · exact Run.run_append ctx first second s
  · intro fault hfault
    exact Run.run_append_of_fault ctx first second hfault

/-- A source that ends within the block of a conditional, and one that goes on at indent zero. -/
theorem parse_halves :
    parse "if go\n  show \"x\"" =
      .ok ⟨[.branch (.identifier "go") [.display (.text "x")] none]⟩ ∧
    parse "# then\nset a to \"b\"" = .ok ⟨[.assign "a" (.text "b")]⟩ := by
  constructor
  · have hif : HeaderAt 0 ⟨1, 0, "if go", "if go"⟩ (.branch (.identifier "go")) := ⟨rfl, rfl⟩
    have hshow : Block (0 + Parse.indentStep) [⟨2, 2, "show \"x\"", "  show \"x\""⟩]
        [.display (.text "x")] := .display ⟨rfl, rfl⟩ (.nil _)
    exact parse_eq_ok_iff.2 ⟨_, rfl, .branch hif hshow (List.cons_ne_nil _ _) (.nil 0)⟩
  · have hset : HeaderAt 0 ⟨2, 0, "set a to \"b\"", "set a to \"b\""⟩ (.assign "a" (.text "b")) :=
      ⟨rfl, rfl⟩
    exact parse_eq_ok_iff.2 ⟨_, rfl, .assign hset (.nil 0)⟩

/-- The conditional takes nothing from the second source; and what is shown behind a value that the
listener fails on is never reached. -/
theorem concatenation_is_sequence_halves :
    parse ("if go\n  show \"x\"" ++ "\n" ++ "# then\nset a to \"b\"") =
      .ok ⟨[.branch (.identifier "go") [.display (.text "x")] none, .assign "a" (.text "b")]⟩ ∧
    Run.run { now := .midnight, listener := some fun _ _ => some "full" }
        (.programNode (.block [.displayNode (.textNode (.text "x")),
          .displayNode (.textNode (.text "y"))])) {} =
      Run.run { now := .midnight, listener := some fun _ _ => some "full" }
        (.programNode (.block [.displayNode (.textNode (.text "x"))])) {} := by
  obtain ⟨hparse, hrun⟩ := concatenation_is_sequence
  constructor
  · exact hparse _ _ _ _ parse_halves.1 parse_halves.2
  · exact (hrun _ [.displayNode (.textNode (.text "x"))] _ _).2 (.listenerFailed "full") rfl

end Program

end Waymark
