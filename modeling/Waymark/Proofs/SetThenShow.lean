/-
**What is set can be shown.**

The name in an assignment and the name in an expression are recognised by different readers.  The
first one folds letters and knows no truth values; the second one takes plain identifiers only, and
tries the truth values before them.  So there are names that can be set and are then read as
something else: `true` and `false` in any letter case, which are no reserved words, and names with a
letter that is folded.

For every other name the two agree.  A line that shows it can be put right below the line that sets
it, wherever in the source that is; the program is then the one with that statement right behind the
assignment, and what is shown is the value just set.

Main definitions:

* `Stmt.PutAfter` — a tree with a statement put right behind another one;
* `Grammar.HasPlace` — lines with a place for a line below one of them;
* `Source.Sets` — a line of a source that is an assignment;
* `Source.LineBelow` — a source with a line put right below the one with a given number;
* `Source.showing` — the line that shows a name.

Main results:

* `Text.isIdentifier_of_name?` — a name in ASCII is an identifier;
* `Grammar.Block.hasPlace` — where an assignment was read, and what a line below it adds;
* `Source.exists_lineBelow` — a source with a line below a significant one;
* `Run.shows_of_assign_display` — what is shown right after an assignment;
* `Program.set_then_show` — **what is set in ASCII, and is no truth value, can be shown**;
* `Program.not_readable_of_set` — truth values can be set, and are not read back as names.
-/
import Waymark.Proofs.Concatenation
import Waymark.Proofs.StraightLine
import Waymark.Proofs.WellFormed

set_option relaxedAutoImplicit false
set_option autoImplicit false

namespace Waymark

/-! ### Names that are set -/

namespace Text

theorem isPartner_eq_false {c : Char} (h : c.toNat < 128) : isPartner c = false := by
  have hne : ∀ partner : Char, 128 ≤ partner.toNat → (c == partner) = false := by
    rintro partner hpartner
    refine beq_false_of_ne ?_
    rintro rfl
    omega
  simp only [isPartner, hne longS (by decide), hne kelvin (by decide), hne dottedI (by decide),
    hne dotlessI (by decide), Bool.or_self]

/-- **A name in ASCII is an identifier**: only folded letters make the difference. -/
theorem isIdentifier_of_name? {cs name rest : List Char} (h : name? cs = some (name, rest))
    (hascii : ∀ c ∈ name, c.toNat < 128) : isIdentifier name = true := by
  cases cs with
  | nil => simp [name?] at h
  | cons c cs =>
      rw [name?] at h
      split at h
      · rename_i hstart
        simp only [Option.some.injEq, Prod.mk.injEq] at h
        obtain ⟨rfl, -⟩ := h
        have hplain := fun d hd => isPartner_eq_false (hascii d hd)
        rw [isNameStart, hplain c List.mem_cons_self, Bool.or_false] at hstart
        rw [isIdentifier, hstart, Bool.true_and, List.all_eq_true]
        intro d hd
        have hpart : isNamePart d = true := List.mem_takeWhile_imp hd
        rwa [isNamePart, hplain d (List.mem_cons_of_mem c hd), Bool.or_false] at hpart
      · simp at h

end Text

namespace Parse

/-- Only the reader of assignments gives an assignment. -/
theorem readSet_of_readHeader {line : Line} {name : String} {value : Expr}
    (h : readHeader line = .ok (.assign name value)) :
    readSet line = .ok (.assign name value) := by
  simp only [readHeader] at h
  split at h
  · rw [readWhen] at h
    cases hargument : argumentOf? "when" line.text.toList <;> simp [hargument] at h
  split at h
  · rw [readIf] at h
    cases hargument : argumentOf? "if" line.text.toList with
    | none => simp [hargument] at h
    | some test => cases htest : exprAt line test <;> simp [hargument, htest] at h
  split at h
  · rw [readShow] at h
    cases hargument : argumentOf? "show" line.text.toList with
    | none => simp [hargument] at h
    | some shown => cases hshown : exprAt line shown <;> simp [hargument, hshown] at h
  split at h
  · exact h
  split at h
  · rw [readRoute] at h
    cases hname : routeName? line.text.toList <;> simp [hname] at h
  · simp at h

/-- The name in an assignment was recognised as a name. -/
theorem name?_of_readHeader {line : Line} {name : String} {value : Expr}
    (h : readHeader line = .ok (.assign name value)) :
    ∃ tail behind, Text.name? tail = some (name.toList, behind) := by
  have hset := readSet_of_readHeader h
  rw [readSet] at hset
  cases hparts : assignment? line.text.toList with
  | none => simp [hparts] at hset
  | some parts =>
      obtain ⟨written, argument⟩ := parts
      cases hvalue : exprAt line argument with
      | error fault => simp [hparts, hvalue] at hset
      | ok e =>
          simp only [hparts, hvalue, Except.ok.injEq, Header.assign.injEq] at hset
          obtain ⟨rfl, -⟩ := hset
          obtain ⟨tail, behind, -, hname, -⟩ := exists_of_assignment? hparts
          exact ⟨tail, behind, by rwa [String.toList_ofList]⟩

end Parse

/-! ### A statement behind another one -/

namespace Stmt

/-- `PutAfter first next body body'`: the statements `body'` are those of `body` with `next` right
behind one statement `first`, at any depth. -/
inductive PutAfter (first next : Stmt) : List Stmt → List Stmt → Prop
  | here (rest : List Stmt) : PutAfter first next (first :: rest) (first :: next :: rest)
  | later (s : Stmt) {rest rest' : List Stmt} :
      PutAfter first next rest rest' → PutAfter first next (s :: rest) (s :: rest')
  | when (event : String) {body body' : List Stmt} (rest : List Stmt) :
      PutAfter first next body body' →
      PutAfter first next (.when event body :: rest) (.when event body' :: rest)
  | thenBody (test : Expr) {body body' : List Stmt} (elseBody : Option (List Stmt))
      (rest : List Stmt) :
      PutAfter first next body body' →
      PutAfter first next (.branch test body elseBody :: rest) (.branch test body' elseBody :: rest)
  | elseBody (test : Expr) (thenBody : List Stmt) {body body' : List Stmt} (rest : List Stmt) :
      PutAfter first next body body' →
      PutAfter first next (.branch test thenBody (some body) :: rest)
        (.branch test thenBody (some body') :: rest)

variable {first : Stmt}

theorem PutAfter.ne_nil {next : Stmt} {body body' : List Stmt}
    (h : PutAfter first next body body') : body' ≠ [] := by
  cases h <;> exact List.cons_ne_nil _ _

mutual

/-- Behind a basic statement within a statement there is a place. -/
theorem exists_putAfter_of_basics (next : Stmt) {s : Stmt} (h : first ∈ s.basics)
    (rest : List Stmt) : ∃ body', PutAfter first next (s :: rest) body' := by
  match s with
  | .when event body =>
      have hmem : first ∈ basicsOf body := h
      obtain ⟨body', hbody⟩ := exists_putAfter next hmem
      exact ⟨_, .when event rest hbody⟩
  | .branch test thenBody none =>
      have hmem : first ∈ basicsOf thenBody := h
      obtain ⟨body', hbody⟩ := exists_putAfter next hmem
      exact ⟨_, .thenBody test none rest hbody⟩
  | .branch test thenBody (some elseBody) =>
      rw [basics, List.mem_append] at h
      rcases h with h | h
      · obtain ⟨body', hbody⟩ := exists_putAfter next h
        exact ⟨_, .thenBody test (some elseBody) rest hbody⟩
      · obtain ⟨body', hbody⟩ := exists_putAfter next h
        exact ⟨_, .elseBody test thenBody rest hbody⟩
  | .display value =>
      obtain rfl := List.mem_singleton.1 h
      exact ⟨_, .here rest⟩
  | .assign name value =>
      obtain rfl := List.mem_singleton.1 h
      exact ⟨_, .here rest⟩
  | .route plan =>
      obtain rfl := List.mem_singleton.1 h
      exact ⟨_, .here rest⟩

/-- **Behind a basic statement of a tree there is a place.** -/
theorem exists_putAfter (next : Stmt) {body : List Stmt} (h : first ∈ basicsOf body) :
    ∃ body', PutAfter first next body body' := by
  match body with
  | [] => simp [basicsOf] at h
  | s :: rest =>
      rw [basicsOf, List.mem_append] at h
      rcases h with h | h
      · exact exists_putAfter_of_basics next h rest
      · obtain ⟨rest', hrest⟩ := exists_putAfter next h
        exact ⟨_, .later s hrest⟩

end

end Stmt

/-! ### A line below an assignment -/

namespace Grammar

open Parse

/-- Lines that have a place for a line: one of them is the header `first`, and with a line right
below it, at its indent, that is the header `next`, the lines are as `P` says. -/
def HasPlace (first next : Header) (P : List Line → Prop) (lines : List Line) : Prop :=
  ∃ upper line lower, lines = upper ++ line :: lower ∧ readHeader line = .ok first ∧
    ∀ added, HeaderAt line.indent added next → P (upper ++ line :: added :: lower)

section HasPlace

variable {first next : Header} {P Q : List Line → Prop} {lines : List Line}

/-- Lines around a place leave it where it is. -/
theorem HasPlace.within (pre post : List Line) (h : HasPlace first next P lines)
    (hP : ∀ lines, P lines → Q (pre ++ (lines ++ post))) :
    HasPlace first next Q (pre ++ (lines ++ post)) := by
  obtain ⟨upper, line, lower, rfl, hread, hadd⟩ := h
  refine ⟨pre ++ upper, line, lower ++ post, by simp, hread, fun added hadded => ?_⟩
  simpa using hP _ (hadd added hadded)

/-- Lines before a place leave it where it is. -/
theorem HasPlace.below (pre : List Line) (h : HasPlace first next P lines)
    (hP : ∀ lines, P lines → Q (pre ++ lines)) : HasPlace first next Q (pre ++ lines) := by
  have hwithin := h.within (Q := Q) pre [] fun lines hlines => by simpa using hP lines hlines
  rwa [List.append_nil] at hwithin

end HasPlace

/-- **Where an assignment was read.**  It is one line of the block, and a line below it that shows a
value, at the same indent, is the statement behind it. -/
theorem Block.hasPlace {base : Int} {lines : List Line} {stmts stmts' : List Stmt} {name : String}
    {value shown : Expr} (h : Block base lines stmts)
    (hput : Stmt.PutAfter (.assign name value) (.display shown) stmts stmts') :
    HasPlace (.assign name value) (.display shown) (Block base · stmts') lines := by
  -- a place within a block is found by the induction, and the lines around the block stay
  induction h generalizing stmts' with
  | nil base => cases hput
  | @display base head _ _ _ hd _ ih =>
      cases hput with
      | later _ hput => exact (ih hput).below [head] fun _ => .display hd
  | @assign base head _ _ _ _ hd hmore ih =>
      cases hput with
      | here =>
          refine ⟨[], head, _, rfl, hd.2, fun added hadded => ?_⟩
          exact .assign hd (.display (hd.1 ▸ hadded) hmore)
      | later _ hput => exact (ih hput).below [head] fun _ => .assign hd
  | @when base head event inner rest body stmts hd hbody hne hmore ihbody ih =>
      cases hput with
      | later _ hput => exact (ih hput).below (head :: inner) fun _ => .when hd hbody hne
      | when _ _ hput =>
          exact (ihbody hput).within [head] rest fun lines h => by
            simpa using Block.when hd h hput.ne_nil hmore
  | @branch base head test inner rest body stmts hd hbody hne hmore ihbody ih =>
      cases hput with
      | later _ hput => exact (ih hput).below (head :: inner) fun _ => .branch hd hbody hne
      | thenBody _ _ _ hput =>
          exact (ihbody hput).within [head] rest fun lines h => by
            simpa using Block.branch hd h hput.ne_nil hmore
  | @branchElse base head opener test inner other rest body elseBody stmts hd hbody hne helse hother
      hne' hmore ihbody ihother ih =>
      cases hput with
      | later _ hput =>
          have hplace := (ih hput).below (Q := (Block base · _))
            (head :: (inner ++ opener :: other)) fun lines h => by
              simpa using Block.branchElse hd hbody hne helse hother hne' h
          simpa using hplace
      | thenBody _ _ _ hput =>
          exact (ihbody hput).within [head] (opener :: (other ++ rest)) fun lines h => by
            simpa using Block.branchElse hd h hput.ne_nil helse hother hne' hmore
      | elseBody _ _ _ hput =>
          have hplace := (ihother hput).within (Q := (Block base · _))
            (head :: (inner ++ [opener])) rest fun lines h => by
              simpa using Block.branchElse hd hbody hne helse h hput.ne_nil hmore
          simpa using hplace
  | @route base head name inner rest options stmts hd hall hne hslots hmore ih =>
      cases hput with
      | later _ hput => exact (ih hput).below (head :: inner) fun _ => .route hd hall hne hslots

end Grammar

/-- A line with the same text behind the same indent. -/
structure Line.SaysSame (line line' : Line) : Prop where
  indent_eq : line'.indent = line.indent
  text_eq : line'.text = line.text

theorem Line.saysSame_self (lines : List Line) : List.Forall₂ SaysSame lines lines :=
  List.forall₂_same.2 fun _ _ => ⟨rfl, rfl⟩

theorem Line.saysSame_of_moved {f : Int → Int} {lines lines' : List Line}
    (h : List.Forall₂ (Line.Moved f 0) lines lines') : List.Forall₂ SaysSame lines lines' :=
  h.imp fun _ _ hline => ⟨by rw [hline.indent_eq, Int.add_zero], hline.text_eq⟩

/-- Lines that say the same are the same block. -/
theorem Program.block_congr {lines lines' : List Line} {body : List Stmt}
    (h : Grammar.Block 0 lines body) (hsame : List.Forall₂ Line.SaysSame lines lines') :
    Grammar.Block 0 lines' body := by
  -- without their numbers both are the same lines
  let bare := lines.map fun line => { line with number := 0 }
  have hmoved : List.Forall₂ (Line.Moved (fun _ => 0) 0) lines bare := by
    refine List.forall₂_map_right_iff.2 (List.forall₂_same.2 fun line _ => ⟨rfl, ?_, rfl⟩)
    exact (Int.add_zero line.indent).symm
  have hmoved' : List.Forall₂ (Line.Moved (fun _ => 0) 0) lines' bare := by
    refine List.forall₂_map_right_iff.2 (hsame.flip.imp fun line' line hline => ⟨rfl, ?_, ?_⟩)
    · rw [hline.indent_eq, Int.add_zero]
    · exact hline.text_eq.symm
  have hbare := (Program.block_moved h hmoved).ofLines_eq
  rw [Program.ofLines_moved hmoved'] at hbare
  apply Grammar.block_of_ofLines
  cases hread : Program.ofLines lines' with
  | error failure => simp [hread, Except.mapError] at hbare
  | ok program => simpa [hread, Except.mapError] using hbare

namespace Source

/-- `LineBelow number added source source'`: the text `source'` is `source` with the line `added`
right below its line with the given number.  The number of a line is one more than the number of
line breaks before it. -/
inductive LineBelow (number : Int) (added : String) : String → String → Prop
  | between (first second : String) : number = first.toList.count '\n' + 1 →
      LineBelow number added (first ++ "\n" ++ second) (first ++ "\n" ++ added ++ "\n" ++ second)
  | last (source : String) : number = source.toList.count '\n' + 1 →
      LineBelow number added source (source ++ "\n" ++ added)

/-- A line of a source that assigns a value to a name. -/
def Sets (source : String) (line : Line) (name : String) (value : Expr) : Prop :=
  ∃ upper lower, lines source = .ok (upper ++ line :: lower) ∧
    Parse.readHeader line = .ok (.assign name value)

theorem count_joinBreaks (cs : List Char) : (joinBreaks cs).count '\n' = cs.count '\n' := by
  fun_induction joinBreaks cs with
  | case1 => rfl
  | case2 rest ih => simp [ih]
  | case3 c rest _ ih => simp [List.count_cons, ih]

/-- A source has one line more than line breaks. -/
theorem length_physicalLines (cs : List Char) :
    (physicalLines cs).length = cs.count '\n' + 1 := by
  rw [physicalLines, splitLines, length_splitFrom, count_joinBreaks]

/-- **Between two physical lines of a source there is a line break**, and the lines up to there do
not depend on what follows. -/
theorem exists_break {source : List Char} {before after : List (List Char)}
    (h : physicalLines source = before ++ after) (hbefore : before ≠ []) (hafter : after ≠ []) :
    ∃ first second, source = first ++ '\n' :: second ∧ before.length = first.count '\n' + 1 ∧
      after = physicalLines second ∧
      ∀ post, physicalLines (first ++ '\n' :: post) = before ++ physicalLines post := by
  induction before generalizing source with
  | nil => exact absurd rfl hbefore
  | cons raw before ih =>
      by_cases hbreak : '\n' ∈ source
      · obtain ⟨front, rest, rfl, hfront⟩ := List.eq_append_cons_of_mem hbreak
        obtain ⟨raws, hlength, hraws⟩ := physicalLines_append front
        obtain ⟨raw', rfl⟩ : ∃ raw', raws = [raw'] := by
          rw [List.count_eq_zero_of_not_mem hfront] at hlength
          exact List.length_eq_one_iff.1 hlength
        rw [hraws, List.singleton_append, List.cons_append, List.cons.injEq] at h
        obtain ⟨rfl, h⟩ := h
        cases before with
        | nil => exact ⟨front, rest, rfl, hlength, h.symm, hraws⟩
        | cons next before =>
            obtain ⟨first, second, rfl, hcount, hsecond, hpost⟩ := ih h (List.cons_ne_nil _ _)
            refine ⟨front ++ '\n' :: first, second, by simp, ?_, hsecond, fun post => ?_⟩
            · rw [List.count_append, List.count_cons_self, List.count_eq_zero_of_not_mem hfront,
                List.length_cons, hcount]
              omega
            · rw [List.append_assoc, List.cons_append, hraws, hpost]
              rfl
      · -- a source without a line break is one line
        rw [physicalLines_eq hbreak, List.cons_append, List.cons.injEq] at h
        exact absurd (List.append_eq_nil_iff.1 h.2.symm).2 hafter

/-- The physical lines up to a significant one, and those behind it. -/
theorem exists_append_of_linesFrom {number : Nat} {raws : List (List Char)}
    {upper lower : List Line} {line : Line}
    (h : linesFrom number raws = .ok (upper ++ line :: lower)) :
    ∃ before after, raws = before ++ after ∧ before ≠ [] ∧
      line.number + 1 = number + before.length ∧
      linesFrom number before = .ok (upper ++ [line]) ∧
      linesFrom (number + before.length) after = .ok lower := by
  induction raws generalizing number upper with
  | nil => simp [linesFrom] at h
  | cons raw raws ih =>
      -- the line is found in the rest, behind the first physical line
      have hlater : ∀ {upper' : List Line},
          linesFrom (number + 1) raws = .ok (upper' ++ line :: lower) →
          ∃ before after, raws = before ++ after ∧
            line.number + 1 = number + (raw :: before).length ∧
            linesFrom (number + 1) before = .ok (upper' ++ [line]) ∧
            linesFrom (number + (raw :: before).length) after = .ok lower := by
        intro upper' hmore
        obtain ⟨before, after, rfl, -, hnumber, hread, hafter⟩ := ih hmore
        refine ⟨before, after, rfl, ?_, hread, ?_⟩
        · rw [hnumber, List.length_cons]
          omega
        · rwa [List.length_cons, Nat.add_comm before.length, ← Nat.add_assoc]
      rw [linesFrom] at h
      cases hraw : Line.ofPhysical number raw with
      | skipped =>
          simp only [hraw] at h
          obtain ⟨before, after, rfl, hnumber, hread, hafter⟩ := hlater h
          exact ⟨raw :: before, after, rfl, List.cons_ne_nil _ _, hnumber,
            by simp only [linesFrom, hraw, hread], hafter⟩
      | tabbed => simp [hraw] at h
      | significant first =>
          cases hmore : linesFrom (number + 1) raws with
          | error n => simp [hraw, hmore] at h
          | ok more =>
              simp only [hraw, hmore, Except.ok.injEq] at h
              cases upper with
              | nil =>
                  obtain ⟨rfl, rfl⟩ := List.cons.inj h
                  obtain ⟨-, hnumber, -⟩ := Line.of_ofPhysical hraw
                  exact ⟨[raw], raws, rfl, List.cons_ne_nil _ _, by rw [hnumber]; rfl,
                    by simp [linesFrom, hraw], hmore⟩
              | cons head upper =>
                  obtain ⟨rfl, rfl⟩ := List.cons.inj h
                  obtain ⟨before, after, rfl, hnumber, hread, hafter⟩ := hlater hmore
                  exact ⟨raw :: before, after, rfl, List.cons_ne_nil _ _, hnumber,
                    by simp only [linesFrom, hraw, hread, List.cons_append], hafter⟩

/-- A text behind spaces. -/
def spaced (indent : Nat) (text : List Char) : String :=
  String.ofList (List.replicate indent ' ' ++ text)

/-- The significant line that a text behind spaces is. -/
def spacedLine (number indent : Nat) (text : List Char) : Line :=
  ⟨number, indent, String.ofList text, spaced indent text⟩

theorem toList_spaced (indent : Nat) (text : List Char) :
    (spaced indent text).toList = List.replicate indent ' ' ++ text :=
  String.toList_ofList

section Below

variable {text : List Char} (hphrase : Text.IsPhrase text) (hcomment : text.head? ≠ some '#')

include hphrase hcomment

/-- A phrase behind spaces is one significant line. -/
theorem linesFrom_spaced (number indent : Nat) :
    linesFrom number [(spaced indent text).toList] = .ok [spacedLine number indent text] := by
  have hread := Line.ofPhysical_spaces hphrase hcomment number indent
  rw [toList_spaced, linesFrom, hread]
  rfl

/-- A phrase behind spaces, below the last line of a source. -/
theorem lines_last {source : String} {upper : List Line} (indent : Nat)
    (h : lines source = .ok upper) :
    ∃ lines', lines (source ++ "\n" ++ spaced indent text) = .ok lines' ∧
      List.Forall₂ Line.SaysSame (upper ++ [spacedLine 1 indent text]) lines' := by
  have hadded : lines (spaced indent text) = .ok [spacedLine 1 indent text] := by
    obtain ⟨hbreak, -⟩ := hphrase.spaces_solid indent
    rw [lines, toList_spaced, physicalLines_eq hbreak, ← toList_spaced]
    exact linesFrom_spaced hphrase hcomment 1 indent
  obtain ⟨upper', added, k, hlines, hmoved, hmoved'⟩ := lines_append h hadded
  refine ⟨_, hlines, ?_⟩
  exact List.rel_append (Line.saysSame_of_moved hmoved) (Line.saysSame_of_moved hmoved')

/-- A phrase behind spaces, between two physical lines of a source. -/
theorem lines_between {first second : String} {before : List (List Char)} {upper lower : List Line}
    (indent : Nat)
    (hbefore : ∀ post, physicalLines (first.toList ++ '\n' :: post) = before ++ physicalLines post)
    (hupper : linesFrom 1 before = .ok upper)
    (hlower : linesFrom (1 + before.length) (physicalLines second.toList) = .ok lower) :
    ∃ lines', lines (first ++ "\n" ++ spaced indent text ++ "\n" ++ second) = .ok lines' ∧
      List.Forall₂ Line.SaysSame (upper ++ spacedLine 1 indent text :: lower) lines' := by
  have hraws : physicalLines (first ++ "\n" ++ spaced indent text ++ "\n" ++ second).toList =
      before ++ ([(spaced indent text).toList] ++ physicalLines second.toList) := by
    obtain ⟨hbreak, hlast⟩ := hphrase.spaces_solid indent
    rw [← toList_spaced] at hbreak hlast
    have hcut := hbefore ((spaced indent text).toList ++ '\n' :: second.toList)
    rw [physicalLines_break hbreak hlast] at hcut
    simpa using hcut
  obtain ⟨lower', hlower', hmoved⟩ := linesFrom_lower hlower 1
  refine ⟨upper ++ (spacedLine (1 + before.length) indent text :: lower'), ?_, ?_⟩
  · have hadded := linesFrom_spaced hphrase hcomment (1 + before.length) indent
    rw [lines, hraws, linesFrom_append, hupper, linesFrom_append, hadded]
    simp only [List.length_singleton, hlower', List.singleton_append]
  · refine List.rel_append (Line.saysSame_self upper) (.cons ⟨rfl, rfl⟩ ?_)
    exact Line.saysSame_of_moved hmoved

/-- **A source with a line below a significant one**: its significant lines are those of the source,
and the line among them. -/
theorem exists_lineBelow {source : String} {upper lower : List Line} {line : Line} (indent : Nat)
    (h : lines source = .ok (upper ++ line :: lower)) :
    ∃ source' lines', LineBelow line.number (spaced indent text) source source' ∧
      lines source' = .ok lines' ∧
      List.Forall₂ Line.SaysSame (upper ++ line :: spacedLine 1 indent text :: lower) lines' := by
  obtain ⟨before, after, hraws, hbefore, hnumber, hupper, hlower⟩ := exists_append_of_linesFrom h
  rw [List.append_cons]
  cases after with
  | nil =>
      simp only [linesFrom, Except.ok.injEq] at hlower
      subst hlower
      have hcount : before.length = source.toList.count '\n' + 1 := by
        rw [← length_physicalLines, hraws, List.append_nil]
      obtain ⟨lines', hlines, hsame⟩ := lines_last hphrase hcomment indent h
      exact ⟨_, lines', .last source (by omega), hlines, hsame⟩
  | cons next after =>
      obtain ⟨first, second, hsource, hcount, hsecond, hpost⟩ :=
        exists_break hraws hbefore (List.cons_ne_nil next after)
      have hcut : source = String.ofList first ++ "\n" ++ String.ofList second := by
        rw [← String.toList_inj]
        simp [hsource]
      rw [hsecond] at hlower
      rw [← String.toList_ofList (l := first)] at hpost
      rw [← String.toList_ofList (l := second)] at hlower
      obtain ⟨lines', hlines, hsame⟩ := lines_between hphrase hcomment indent hpost hupper hlower
      have hbelow : line.number = (String.ofList first).toList.count '\n' + 1 := by
        rw [String.toList_ofList]
        omega
      exact ⟨_, lines', hcut ▸ .between _ _ hbelow, hlines, hsame⟩

end Below

/-- The line that shows a name, behind the given number of spaces. -/
def showing (indent : Int) (name : String) : String :=
  spaced indent.toNat ("show".toList ++ ' ' :: name.toList)

end Source

/-! ### The value just set -/

namespace Bindings

/-- A name that is equal to itself has the value that it was last bound to. -/
theorem get?_bind (b : Bindings) {name : Value} (h : name.same name = true) (value : Value) :
    (b.bind name value).get? name = some value := by
  rw [get?, bind]
  induction b.entries with
  | nil => simp [bindIn, getIn?, h]
  | cons entry entries ih =>
      obtain ⟨n, v⟩ := entry
      rw [bindIn]
      by_cases hn : n.same name = true
      · simp [hn, getIn?]
      · simpa [hn, getIn?] using ih

end Bindings

namespace Run

theorem lookup_bind_text (vars : Bindings) (name : String) (value : Value) :
    (vars.bind (.text name) value).lookup (.text name) = value := by
  have hsame : (Value.text name).same (.text name) = true := by simp [Value.same]
  rw [Bindings.lookup, vars.get?_bind hsame]

theorem shows_display (ctx : Context) (value : Value) (s : State) :
    (display ctx value s).1.shows = s.shows ++ [value] := by
  simp only [display]
  split
  · rfl
  · split
    · split <;> rfl
    · rfl

/-- **What is shown right after an assignment** is the value that was assigned. -/
theorem shows_of_assign_display (ctx : Context) {name : String} {value : Expr} {s : State}
    {v : Value} (h : eval ctx.now s.vars value.toValue = .ok v) :
    (execAll ctx (Stmt.toValues [.assign name value, .display (.identifier name)]) s).1.shows =
      s.shows ++ [v] := by
  have hassign : exec ctx (Stmt.assign name value).toValue s =
      ({ s.noteUnbound ctx.now value.toValue with vars := s.vars.bind (.text name) v }, none) := by
    have hvars : (s.noteUnbound ctx.now value.toValue).vars = s.vars := rfl
    rw [Stmt.toValue, exec, withValue]
    simp only [hvars, h]
  rw [Stmt.toValues, Stmt.toValues, Stmt.toValues, execAll, hassign]
  simp only [execAll_singleton]
  rw [Stmt.toValue, exec, withValue]
  simp only [Expr.toValue, eval, State.noteUnbound, lookup_bind_text, shows_display]

end Run

/-! ### Programs -/

namespace Program

open Parse Grammar

/-- A name in ASCII that is set is an identifier. -/
theorem isIdentifier_of_assign {source : String} {program : Program}
    (h : parse source = .ok program) {name : String} {value : Expr}
    (hset : .assign name value ∈ Stmt.basicsOf program.body)
    (hascii : ∀ c ∈ name.toList, c.toNat < 128) : Text.isIdentifier name.toList = true := by
  obtain ⟨lines, -, hblock⟩ := parse_eq_ok_iff.1 h
  obtain ⟨body', hput⟩ := Stmt.exists_putAfter (.display value) hset
  obtain ⟨upper, line, lower, -, hread, -⟩ := hblock.hasPlace hput
  obtain ⟨tail, behind, hname⟩ := name?_of_readHeader hread
  exact Text.isIdentifier_of_name? hname hascii

/-- What is written to show a name. -/
theorem headerLine_show (name : String) :
    Render.HeaderLine (.display (.identifier name)) ("show".toList ++ ' ' :: name.toList) :=
  have hword : Text.Spells "show" "show".toList := by decide
  .display hword (.atom (.identifier name))

/-- A line with what is written for a header is that header. -/
theorem readHeader_spacedLine {header : Header} {text : List Char}
    (h : Render.HeaderLine header text) (hplain : header.IsPlain) (number indent : Nat) :
    readHeader (Source.spacedLine number indent text) = .ok header := by
  refine Render.HeaderLine.readHeader_eq ?_ hplain
  rwa [Source.spacedLine, String.toList_ofList]

/-- A line that shows a name can be put right below the line that sets it, at its indent. -/
theorem exists_parse_lineBelow {source : String} {program : Program}
    (h : parse source = .ok program) {name : String} {value : Expr}
    (hname : (Expr.identifier name).IsPlain) {body' : List Stmt}
    (hput : Stmt.PutAfter (.assign name value) (.display (.identifier name)) program.body body') :
    ∃ line source', Source.Sets source line name value ∧
      Source.LineBelow line.number (Source.showing line.indent name) source source' ∧
      parse source' = .ok ⟨body'⟩ := by
  obtain ⟨lines, hlines, hblock⟩ := parse_eq_ok_iff.1 h
  obtain ⟨upper, line, lower, rfl, hread, hadd⟩ := hblock.hasPlace hput
  have hnonneg : 0 ≤ line.indent := Source.indent_nonneg hlines (by simp)
  have hshow := headerLine_show name
  have hphrase : Text.IsPhrase ("show".toList ++ ' ' :: name.toList) := hshow.isPhrase hname
  obtain ⟨source', lines', hbelow, hlines', hsame⟩ :=
    Source.exists_lineBelow hphrase hshow.head?_ne line.indent.toNat hlines
  have hblock' := hadd _ ⟨Int.toNat_of_nonneg hnonneg, readHeader_spacedLine hshow hname 1 _⟩
  exact ⟨line, source', ⟨upper, lower, hlines, hread⟩, hbelow,
    parse_eq_ok_iff.2 ⟨lines', hlines', block_congr hblock' hsame⟩⟩

/-- **What is set in ASCII, and is no truth value, can be shown.**  Let a source be accepted, and
let its program set a name in ASCII.  If the name is a truth value in any letter case, it is read as
that truth value.  Otherwise it is read as an identifier; right below the line of each assignment,
at its indent, a line that shows it is accepted as the statement right behind; and that statement
shows the value just set. -/
theorem set_then_show {source : String} {program : Program} (h : parse source = .ok program)
    {name : String} {value : Expr} (hset : .assign name value ∈ Stmt.basicsOf program.body)
    (hascii : ∀ c ∈ name.toList, c.toNat < 128) :
    (Text.Spells "true" name.toList → readExpr name.toList = .ok (.boolean true)) ∧
    (Text.Spells "false" name.toList → readExpr name.toList = .ok (.boolean false)) ∧
    (¬ Text.Spells "true" name.toList → ¬ Text.Spells "false" name.toList →
      readExpr name.toList = .ok (.identifier name) ∧
      (∃ body', Stmt.PutAfter (.assign name value) (.display (.identifier name)) program.body
        body') ∧
      (∀ body', Stmt.PutAfter (.assign name value) (.display (.identifier name)) program.body
          body' →
        ∃ line source', Source.Sets source line name value ∧
          Source.LineBelow line.number (Source.showing line.indent name) source source' ∧
          parse source' = .ok ⟨body'⟩) ∧
      ∀ (ctx : Run.Context) (s : Run.State) (v : Value),
        Run.eval ctx.now s.vars value.toValue = .ok v →
        (Run.execAll ctx (Stmt.toValues [.assign name value, .display (.identifier name)])
          s).1.shows = s.shows ++ [v]) := by
  have hidentifier := isIdentifier_of_assign h hset hascii
  refine ⟨fun htrue => ?_, fun hfalse => ?_, fun htrue hfalse => ⟨?_, ?_, ?_, ?_⟩⟩
  · exact Render.readExpr_eq (.atom (.yes htrue)) trivial
  · exact Render.readExpr_eq (.atom (.no hfalse)) trivial
  · exact Render.readExpr_eq (.atom (.identifier name)) ⟨hidentifier, htrue, hfalse⟩
  · exact Stmt.exists_putAfter _ hset
  · exact fun body' hput => exists_parse_lineBelow h ⟨hidentifier, htrue, hfalse⟩ hput
  · exact fun ctx s v heval => Run.shows_of_assign_display ctx heval

/-- A name that is set within a conditional is shown below it. -/
theorem set_then_show_nested :
    parse "if on\n  set x to \"a\"" =
      .ok ⟨[.branch (.identifier "on") [.assign "x" (.text "a")] none]⟩ ∧
    readExpr "x".toList = .ok (.identifier "x") ∧
    ∃ line source', Source.Sets "if on\n  set x to \"a\"" line "x" (.text "a") ∧
      Source.LineBelow line.number (Source.showing line.indent "x") "if on\n  set x to \"a\""
        source' ∧
      parse source' = .ok ⟨[.branch (.identifier "on")
        [.assign "x" (.text "a"), .display (.identifier "x")] none]⟩ := by
  have hparse : parse "if on\n  set x to \"a\"" =
      .ok ⟨[.branch (.identifier "on") [.assign "x" (.text "a")] none]⟩ := by
    have hif : HeaderAt 0 ⟨1, 0, "if on", "if on"⟩ (.branch (.identifier "on")) := ⟨rfl, rfl⟩
    have hset : Block (0 + indentStep) [⟨2, 2, "set x to \"a\"", "  set x to \"a\""⟩]
        [.assign "x" (.text "a")] := .assign ⟨rfl, rfl⟩ (.nil _)
    exact parse_eq_ok_iff.2 ⟨_, rfl, .branch hif hset (List.cons_ne_nil _ _) (.nil 0)⟩
  obtain ⟨hread, -, hbelow, -⟩ :=
    (set_then_show hparse List.mem_cons_self (by decide)).2.2 (by decide) (by decide)
  exact ⟨hparse, hread, hbelow _ (.thenBody _ _ _ (.here []))⟩

/-- **Not every name that is set is read back.**  A truth value can be set, since no word is
reserved; it is read as the truth value that it names, and that is what is shown.  A name with a
folded letter is no expression at all. -/
theorem not_readable_of_set :
    (parse "set true to \"x\"\nshow true" =
        .ok ⟨[.assign "true" (.text "x"), .display (.boolean true)]⟩ ∧
      readExpr "true".toList = .ok (.boolean true) ∧
      readExpr "true".toList ≠ .ok (.identifier "true") ∧
      (Run.run { now := .midnight }
        (Program.toValue ⟨[.assign "true" (.text "x"), .display (.boolean true)]⟩) {}).1.shows =
          [.bool true]) ∧
    parse "set \u017fx to \"x\"" = .ok ⟨[.assign "\u017fx" (.text "x")]⟩ ∧
    readExpr "\u017fx".toList = .error (.invalidExpression "\u017fx" false) := by
  have hset : HeaderAt 0 ⟨1, 0, "set true to \"x\"", "set true to \"x\""⟩
      (.assign "true" (.text "x")) := ⟨rfl, rfl⟩
  have hshow : HeaderAt 0 ⟨2, 0, "show true", "show true"⟩ (.display (.boolean true)) := ⟨rfl, rfl⟩
  have hfolded : HeaderAt 0 ⟨1, 0, "set \u017fx to \"x\"", "set \u017fx to \"x\""⟩
      (.assign "\u017fx" (.text "x")) := ⟨rfl, rfl⟩
  have htrue : readExpr "true".toList = .ok (.boolean true) := rfl
  refine ⟨⟨?_, htrue, ?_, rfl⟩, ?_, rfl⟩
  · exact parse_eq_ok_iff.2 ⟨_, rfl, .assign hset (.display hshow (.nil 0))⟩
  · rw [htrue]
    simp
  · exact parse_eq_ok_iff.2 ⟨_, rfl, .assign hfolded (.nil 0)⟩

end Program

end Waymark
