/-
**Blocks are delimited by indents alone.**

Where does a block end?  Inside it other blocks are read, alternatives are looked for and route
options are collected, and all of these go on with the same lines.  None of them goes further than
the indent of the block allows: the first line that is indented less ends whatever is open there,
and it is not told apart from the end of the lines.  So a block can be cut out before it is read.
The lines up to the first one that is indented less are all that it can see, and if it is read, all
of them are read.

The second part follows the cursor.  A walk moves it by one line at a time and never back, so that
its position after a block is known from the lines alone, and each statement takes it further.

Main definitions:

* `Parse.within` — the lines that a block at an indent can see;
* `Walk.Arrives` — a walk that ends where its cursor gets to by moves;
* `Walk.told` — what a walk finds and where it stops, or how it fails.

Main results:

* `Parse.readBlock_append_of_ends` — a block does not see the lines that end it;
* `Parse.readBlock_within` — a block is read from the lines within it, and all of them are read;
* `Walk.statement_arrives`, `Walk.block_arrives` — the cursor is moved on;
* `Walk.blocks_are_delimited` — **blocks are delimited by indents, and the cursor only moves on**.
-/
import Mathlib.Logic.Relation
import Waymark.Proofs.Grammar
import Waymark.Proofs.Walk

set_option relaxedAutoImplicit false
set_option autoImplicit false

namespace Waymark

/-! ### What ends a block is not seen by it -/

/-- What ends a block ends the blocks in it. -/
theorem Grammar.Ends.deeper {indent : Int} {rest : List Line} (h : Ends indent rest) :
    Ends (indent + Parse.indentStep) rest := by
  intro line hline
  have := h line hline
  simp only [Parse.indentStep]
  omega

namespace Parse

open Grammar

/-- What was read, with more lines behind those that are left. -/
def followedBy {α : Type} (rest : List Line) (read : α × List Line) : α × List Line :=
  (read.1, read.2 ++ rest)

/-- A header is refused for want of a block whether nothing follows or a line that ends the block
around it. -/
theorem blockFault?_append_of_ends {indent : Int} {rest : List Line} (h : Ends indent rest)
    (header : Line) (keyword : String) (lines : List Line) :
    blockFault? header keyword indent (lines ++ rest) =
      blockFault? header keyword indent lines := by
  cases lines with
  | cons line lines => rfl
  | nil =>
      cases rest with
      | nil => rfl
      | cons line rest =>
          have hless : line.indent ≤ indent := Int.le_of_lt (h line rfl)
          simp only [List.nil_append, blockFault?, if_pos hless]

theorem readOptions_append_of_ends {indent : Int} {rest : List Line} (h : Ends indent rest)
    (plan : Route) (lines : List Line) :
    readOptions indent plan (lines ++ rest) =
      (readOptions indent plan lines).map (followedBy rest) := by
  induction lines generalizing plan with
  | nil =>
      cases rest with
      | nil => rfl
      | cons line rest =>
          have hless : line.indent < indent := h line rfl
          simp only [List.nil_append, readOptions, if_pos hless, Except.map, followedBy]
  | cons line lines ih =>
      simp only [List.cons_append, readOptions]
      split
      · rfl
      split
      · rfl
      cases addOption plan line with
      | error fault => rfl
      | ok plan => exact ih plan

/-- What is to be shown of the lines of a block. -/
def Unseen (lines : List Line) : Prop :=
  ∀ (base : Int) (rest : List Line), Ends base rest →
    readBlock base (lines ++ rest) = (readBlock base lines).map (followedBy rest)

section

variable {indent : Int} {rest : List Line}

theorem readChild_append_of_ends {lines : List Line} (hlines : Unseen lines)
    (h : Ends indent rest) (header : Line) (keyword : String) :
    readChild header keyword indent (lines ++ rest) =
      (readChild header keyword indent lines).map (followedBy rest) := by
  rw [readChild_eq, readChild_eq, blockFault?_append_of_ends h]
  cases blockFault? header keyword indent lines with
  | some fault => rfl
  | none => exact hlines _ _ h.deeper

theorem readAlternative_append_of_ends {lines : List Line}
    (hlines : ∀ lines' : List Line, lines'.length < lines.length → Unseen lines')
    (h : Ends indent rest) :
    readAlternative indent (lines ++ rest) =
      (readAlternative indent lines).map (followedBy rest) := by
  cases lines with
  | nil =>
      cases rest with
      | nil => simp [Except.map, followedBy]
      | cons line rest =>
          have hless : line.indent < indent := h line rfl
          have hnot : ¬ (line.indent = indent ∧ isElse line = true) := by omega
          rw [List.nil_append, readAlternative_cons, if_neg hnot, readAlternative_nil]
          rfl
  | cons line lines =>
      rw [List.cons_append, readAlternative_cons, readAlternative_cons]
      split
      · rw [readChild_append_of_ends (hlines lines (by simp)) h]
        cases readChild line "else" indent lines with
        | error f => rfl
        | ok r => rfl
      · rfl

/-- A statement does not see the lines that end its block, given that the blocks in it do not. -/
theorem readStatement_append_of_ends {tail : List Line}
    (hlines : ∀ lines : List Line, lines.length ≤ tail.length → Unseen lines)
    (h : Ends indent rest) (head : Line) :
    readStatement indent head (tail ++ rest) =
      (readStatement indent head tail).map (followedBy rest) := by
  have hchild := readChild_append_of_ends (hlines tail (Nat.le_refl _)) h head
  rw [readStatement_eq, readStatement_eq]
  cases readHeader head with
  | error fault => rfl
  | ok header =>
      cases header with
      | display value => rfl
      | assign name value => rfl
      | when event =>
          simp only [hchild "when"]
          cases readChild head "when" indent tail with
          | error f => rfl
          | ok r => rfl
      | branch test =>
          simp only [hchild "if"]
          cases hread : readChild head "if" indent tail with
          | error f => rfl
          | ok r =>
              obtain ⟨thenBody, left⟩ := r
              have hle : left.length ≤ tail.length := length_le_of_readChild hread
              simp only [Except.map, followedBy]
              rw [readAlternative_append_of_ends (fun lines hlt => hlines lines (by omega)) h]
              cases readAlternative indent left with
              | error f => rfl
              | ok r => rfl
      | route name =>
          simp only [blockFault?_append_of_ends h]
          cases blockFault? head "route" indent tail with
          | some fault => rfl
          | none =>
              simp only [readOptions_append_of_ends h.deeper]
              cases readOptions (indent + indentStep) { name := name } tail with
              | error fault => rfl
              | ok r => rfl

end

/-- **A block does not see the lines that end it**: with them or without, the same statements are
read, or the same failure arises. -/
theorem readBlock_append_of_ends (lines : List Line) : Unseen lines := by
  -- a statement leaves fewer lines than there were, so the induction is on their number
  induction hn : lines.length using Nat.strongRecOn generalizing lines with
  | _ n ih =>
      intro base rest h
      cases lines with
      | nil =>
          cases rest with
          | nil => simp [Except.map, followedBy]
          | cons line rest =>
              have hless : line.indent < base := h line rfl
              rw [List.nil_append, readBlock_cons, if_pos hless, readBlock_nil]
              rfl
      | cons head tail =>
          rw [List.length_cons] at hn
          rw [List.cons_append, readBlock_cons, readBlock_cons]
          split
          · rfl
          split
          · rfl
          rw [readStatement_append_of_ends
            (fun lines hle => ih lines.length (by omega) lines rfl) h]
          cases hstmt : readStatement base head tail with
          | error f => rfl
          | ok r =>
              obtain ⟨stmt, left⟩ := r
              have hle : left.length ≤ tail.length := length_le_of_readStatement hstmt
              simp only [Except.map, followedBy]
              rw [ih left.length (by omega) left rfl base rest h]
              cases readBlock base left with
              | error f => rfl
              | ok r => rfl

/-! ### The lines within a block -/

/-- Whether a line is indented at least as much as a block. -/
def isWithin (base : Int) (line : Line) : Bool := decide (base ≤ line.indent)

/-- The lines that a block at indent `base` can see: those up to the first that is indented less. -/
def within (base : Int) (lines : List Line) : List Line := lines.takeWhile (isWithin base)

/-- The lines behind a block at indent `base`. -/
def behind (base : Int) (lines : List Line) : List Line := lines.dropWhile (isWithin base)

theorem within_append_behind (base : Int) (lines : List Line) :
    within base lines ++ behind base lines = lines :=
  List.takeWhile_append_dropWhile

theorem length_within (base : Int) (lines : List Line) :
    (within base lines).length = lines.length - (behind base lines).length := by
  have hlength := congrArg List.length (within_append_behind base lines)
  rw [List.length_append] at hlength
  omega

theorem ends_behind (base : Int) (lines : List Line) : Ends base (behind base lines) := by
  intro line hline
  have hnot := List.head?_dropWhile_not (isWithin base) lines
  rw [behind, Option.mem_def] at hline
  rw [hline] at hnot
  simpa [isWithin] using hnot

/-- Of the lines within a block none is left when it is read. -/
theorem eq_nil_of_readBlock_within {base : Int} {lines left : List Line} {stmts : List Stmt}
    (h : readBlock base (within base lines) = .ok (stmts, left)) : left = [] := by
  obtain ⟨used, hused, -, hends⟩ := block_of_readBlock _ _ _ _ h
  -- a line that is left would be indented less, and no line within the block is
  cases left with
  | nil => rfl
  | cons line left =>
      have hmem : line ∈ within base lines := by simp [hused]
      have hwithin : isWithin base line = true := List.mem_takeWhile_imp hmem
      have hless : line.indent < base := hends line rfl
      simp only [isWithin, decide_eq_true_eq] at hwithin
      omega

/-- **A block is read from the lines within it**, and when it is read, those behind it are left. -/
theorem readBlock_within (base : Int) (lines : List Line) :
    readBlock base lines =
      (readBlock base (within base lines)).map fun read => (read.1, behind base lines) := by
  conv_lhs => rw [← within_append_behind base lines]
  rw [readBlock_append_of_ends _ _ _ (ends_behind base lines)]
  cases h : readBlock base (within base lines) with
  | error f => rfl
  | ok r =>
      obtain ⟨stmts, left⟩ := r
      rw [eq_nil_of_readBlock_within h]
      rfl

end Parse

/-! ### The cursor is moved on -/

/-- A cursor that is moved by one line. -/
def Cursor.Moves (c d : Cursor) : Prop := ∃ line, c.advance? = some (line, d)

/-- A cursor that is moved any number of times. -/
def Cursor.Reaches : Cursor → Cursor → Prop := Relation.ReflTransGen Cursor.Moves

/-- A cursor that is moved has as many lines, behind and ahead, and is not further back. -/
theorem Cursor.Reaches.onward {c d : Cursor} (h : c.Reaches d) :
    d.size = c.size ∧ c.position ≤ d.position := by
  induction h with
  | refl => exact ⟨rfl, Nat.le_refl _⟩
  | tail _ hmoves ih =>
      obtain ⟨line, hline⟩ := hmoves
      obtain ⟨hsize, hposition⟩ := Cursor.size_of_advance? hline
      omega

namespace Walk

open Parse

/-- A walk from `c` that ends, if it finds anything, at a cursor that `c` reaches. -/
inductive Arrives {α : Type} {p : Cursor → Prop} (c : Cursor) :
    Except Slip (α × { d : Cursor // p d }) → Prop
  | failed (slip : Slip) : Arrives c (.error slip)
  | found (a : α) (d : { d : Cursor // p d }) : c.Reaches d.val → Arrives c (.ok (a, d))

theorem reaches_cons {n : Nat} {line : Line} {rest : List Line} {d : Cursor}
    (h : Cursor.Reaches ⟨n + 1, rest⟩ d) : Cursor.Reaches ⟨n, line :: rest⟩ d :=
  .head ⟨line, rfl⟩ h

theorem options_arrives (indent : Int) (plan : Route) (n : Nat) (lines : List Line) :
    Arrives ⟨n, lines⟩ (options indent plan ⟨n, lines⟩) := by
  induction lines generalizing plan n with
  | nil =>
      rw [options]
      exact .found plan _ .refl
  | cons line rest ih =>
      rw [options]
      simp only [atEnd_cons, Bool.false_eq_true, if_false, look_cons, take_cons]
      split
      · exact .found plan _ .refl
      split
      · exact .failed _
      cases addOption plan line with
      | error fault => exact .failed _
      | ok next =>
          have hrest := ih next (n + 1)
          simp only
          generalize options indent next ⟨n + 1, rest⟩ = walked at hrest ⊢
          cases hrest with
          | failed slip => exact .failed slip
          | found plan' d hd => exact .found plan' _ (reaches_cons hd)

/-- What is to be shown of the lines of a block. -/
def BlocksArrive (lines : List Line) : Prop :=
  ∀ (base : Int) (n : Nat), Arrives ⟨n, lines⟩ (block base ⟨n, lines⟩)

theorem childBlock_arrives {lines : List Line} (hblocks : BlocksArrive lines) (header : Line)
    (keyword : String) (indent : Int) (n : Nat) :
    Arrives ⟨n, lines⟩ (childBlock header keyword indent ⟨n, lines⟩) := by
  rw [childBlock]
  split
  · exact .failed _
  · exact hblocks (indent + indentStep) n

theorem alternative_arrives {lines : List Line}
    (hblocks : ∀ rest : List Line, rest.length < lines.length → BlocksArrive rest)
    (indent : Int) (n : Nat) : Arrives ⟨n, lines⟩ (alternative indent ⟨n, lines⟩) := by
  rw [alternative]
  cases lines with
  | nil => exact .found none _ .refl
  | cons line rest =>
      simp only [Cursor.peek?, List.head?_cons, take_cons]
      split
      · have hchild := childBlock_arrives (hblocks rest (by simp)) line "else" indent (n + 1)
        generalize childBlock line "else" indent ⟨n + 1, rest⟩ = walked at hchild ⊢
        cases hchild with
        | failed slip => exact .failed slip
        | found body d hd => exact .found (some body) _ (reaches_cons hd)
      · exact .found none _ .refl

/-- A statement moves the cursor behind its first line at least, given that the blocks in it move it
on. -/
theorem statement_arrives {head : Line} {tail : List Line}
    (hblocks : ∀ rest : List Line, rest.length ≤ tail.length → BlocksArrive rest)
    (indent : Int) (n : Nat) :
    Arrives ⟨n + 1, tail⟩ (statement indent ⟨n, head :: tail⟩) := by
  rw [statement]
  simp only [look_cons, take_cons]
  split
  · cases readHeader head with
    | error fault => exact .failed _
    | ok header =>
        cases header with
        | display value => exact .found (Stmt.display value) _ .refl
        | assign name value => exact .found (Stmt.assign name value) _ .refl
        | when event =>
            have hchild :=
              childBlock_arrives (hblocks tail (Nat.le_refl _)) head "when" indent (n + 1)
            simp only
            generalize childBlock head "when" indent ⟨n + 1, tail⟩ = walked at hchild ⊢
            cases hchild with
            | failed slip => exact .failed slip
            | found body d hd => exact .found (Stmt.when event body) _ hd
        | branch test =>
            have hchild :=
              childBlock_arrives (hblocks tail (Nat.le_refl _)) head "if" indent (n + 1)
            simp only
            generalize childBlock head "if" indent ⟨n + 1, tail⟩ = walked at hchild ⊢
            cases hchild with
            | failed slip => exact .failed slip
            | found body d hd =>
                obtain ⟨⟨m, rest⟩, hle⟩ := d
                have halt := alternative_arrives
                  (fun lines hlt => hblocks lines (Nat.le_trans (Nat.le_of_lt hlt) hle)) indent m
                simp only
                generalize alternative indent ⟨m, rest⟩ = walked at halt ⊢
                cases halt with
                | failed slip => exact .failed slip
                | found elseBody e he =>
                    exact .found (Stmt.branch test body elseBody) _ (hd.trans he)
        | route name =>
            simp only
            split
            · exact .failed _
            · have hoptions :=
                options_arrives (indent + indentStep) { name := name } (n + 1) tail
              generalize options (indent + indentStep) { name := name } ⟨n + 1, tail⟩ = walked
                at hoptions ⊢
              cases hoptions with
              | failed slip => exact .failed slip
              | found plan d hd => exact .found (Stmt.route plan) _ hd
  · exact .failed _

/-- **A block moves the cursor on**, or leaves it where it is. -/
theorem block_arrives (lines : List Line) : BlocksArrive lines := by
  induction hn : lines.length using Nat.strongRecOn generalizing lines with
  | _ k ih =>
      intro base n
      rw [block]
      cases lines with
      | nil => exact .found [] _ .refl
      | cons head tail =>
          rw [List.length_cons] at hn
          simp only [atEnd_cons, Bool.false_eq_true, if_false, look_cons]
          split
          · exact .found [] _ .refl
          split
          · exact .failed _
          have hstmt : Arrives ⟨n + 1, tail⟩ (statement base ⟨n, head :: tail⟩) :=
            statement_arrives (fun rest hle => ih rest.length (by omega) rest rfl) base n
          generalize statement base ⟨n, head :: tail⟩ = walked at hstmt ⊢
          cases hstmt with
          | failed slip => exact .failed slip
          | found stmt d hd =>
              obtain ⟨⟨m, rest⟩, hlt⟩ := d
              have hlength : rest.length < k := by
                have := hlt
                simp only [List.length_cons] at this
                omega
              have hblock := ih rest.length hlength rest rfl base m
              simp only
              generalize block base ⟨m, rest⟩ = walked at hblock ⊢
              cases hblock with
              | failed slip => exact .failed slip
              | found stmts e he => exact .found (stmt :: stmts) _ (reaches_cons (hd.trans he))

/-! ### Where the cursor stops -/

/-- A walk that ends with a result ends at a position that is not further back. -/
theorem Arrives.position_le {α : Type} {p : Cursor → Prop} {c : Cursor}
    {walked : Except Slip (α × { d : Cursor // p d })} (h : Arrives c walked) {a : α}
    {d : { d : Cursor // p d }} (hfound : walked = .ok (a, d)) : c.position ≤ d.val.position := by
  subst hfound
  cases h with
  | found _ _ hd => exact hd.onward.2

/-- What a walk finds and where its cursor is then, or how it ends early. -/
def told {α : Type} {p : Cursor → Prop} (walked : Except Slip (α × { d : Cursor // p d })) :
    Except Slip (α × Cursor) :=
  walked.map fun found => (found.1, found.2.val)

/-- A walk over a block stops before the lines that the reader of blocks leaves. -/
theorem told_block (base : Int) (n : Nat) (lines : List Line) :
    told (block base ⟨n, lines⟩) =
      match readBlock base lines with
      | .error f => .error (.refused f.fault)
      | .ok (stmts, left) => .ok (stmts, ⟨n + (lines.length - left.length), left⟩) := by
  have hagrees := block_agrees lines base n
  have harrives := block_arrives lines base n
  generalize block base ⟨n, lines⟩ = walked at hagrees harrives ⊢
  generalize readBlock base lines = read at hagrees ⊢
  cases hagrees with
  | refused f => rfl
  | found stmts d =>
      obtain ⟨⟨m, left⟩, hle⟩ := d
      cases harrives with
      | found _ _ hd =>
          -- no line is lost on the way, so what is left tells the position
          obtain ⟨hsize, hposition⟩ := hd.onward
          simp only [Cursor.size] at hsize hposition
          have hm : m = n + (lines.length - left.length) := by omega
          simp only [told, Except.map, ← hm]

/-- A walk over a block finds what the lines within it are and stops behind them. -/
theorem told_block_within (base : Int) (n : Nat) (lines : List Line) :
    told (block base ⟨n, lines⟩) =
      match readBlock base (within base lines) with
      | .error f => .error (.refused f.fault)
      | .ok (stmts, _) => .ok (stmts, ⟨n + (within base lines).length, behind base lines⟩) := by
  rw [told_block, readBlock_within, length_within]
  cases readBlock base (within base lines) with
  | error f => rfl
  | ok r => rfl

/-- Walks at an indent do not take the cursor back, and a statement takes it on. -/
structure MovesOn (indent : Int) : Prop where
  advance : ∀ (c : Cursor) line d, c.advance? = some (line, d) → d.position = c.position + 1
  block : ∀ c stmts d, block indent c = .ok (stmts, d) → c.position ≤ d.val.position
  childBlock : ∀ header keyword c stmts d, childBlock header keyword indent c = .ok (stmts, d) →
    c.position ≤ d.val.position
  alternative : ∀ c other d, alternative indent c = .ok (other, d) → c.position ≤ d.val.position
  options : ∀ plan c plan' d, options indent plan c = .ok (plan', d) →
    c.position ≤ d.val.position
  statement : ∀ c stmt d, statement indent c = .ok (stmt, d) → c.position + 1 ≤ d.val.position

/-- The cursor is never taken back. -/
theorem movesOn (indent : Int) : MovesOn indent where
  advance _ _ _ h := (Cursor.size_of_advance? h).2
  block c _ _ h := (block_arrives c.ahead indent c.position).position_le h
  childBlock header keyword c _ _ h :=
    (childBlock_arrives (block_arrives c.ahead) header keyword indent c.position).position_le h
  alternative c _ _ h :=
    (alternative_arrives (fun rest _ => block_arrives rest) indent c.position).position_le h
  options plan c _ _ h := (options_arrives indent plan c.position c.ahead).position_le h
  statement := by
    rintro ⟨n, lines⟩ stmt d h
    cases lines with
    | nil =>
        rw [Walk.statement] at h
        cases h
    | cons head tail =>
        exact (statement_arrives (fun rest _ => block_arrives rest) indent n).position_le h

/-- **Blocks are delimited by indents alone, and the cursor only moves on.**  A block is what the
lines within it are: read from all lines or from those, the same statements come out, or the same
failure.  A walk over it finds the same and stops behind exactly those lines, and on its way the
cursor is never taken back. -/
theorem blocks_are_delimited (base : Int) (lines : List Line) :
    readBlock base lines =
        (readBlock base (within base lines)).map (fun read => (read.1, behind base lines)) ∧
      (∀ n, told (block base ⟨n, lines⟩) =
        (told (block base ⟨n, within base lines⟩)).map fun found =>
          (found.1, ⟨found.2.position, behind base lines⟩)) ∧
      (∀ n stmts d, block base ⟨n, lines⟩ = .ok (stmts, d) →
        d.val.position = n + (within base lines).length) ∧
      ∀ indent, MovesOn indent := by
  refine ⟨readBlock_within base lines, ?_, ?_, movesOn⟩
  · intro n
    rw [told_block_within, told_block]
    cases hread : readBlock base (within base lines) with
    | error f => rfl
    | ok r =>
        obtain ⟨stmts, left⟩ := r
        rw [eq_nil_of_readBlock_within hread]
        rfl
  · intro n stmts d hblock
    have htold := told_block_within base n lines
    rw [hblock] at htold
    cases hread : readBlock base (within base lines) with
    | error f => simp [hread, told, Except.map] at htold
    | ok r =>
        simp only [hread, told, Except.map, Except.ok.injEq, Prod.mk.injEq] at htold
        rw [htold.2]

/-- A conditional in a block at indent two, and behind it the alternative of another one. -/
def outdented : List Line :=
  [⟨2, 2, "if true", "  if true"⟩, ⟨3, 4, "show x", "    show x"⟩, ⟨4, 0, "else", "else"⟩]

/-- The conditional has no alternative, and the cursor stops before the line that would be one. -/
theorem blocks_are_delimited_outdented :
    told (block 2 ⟨1, outdented⟩) =
      .ok ([.branch (.boolean true) [.display (.identifier "x")] none],
        ⟨3, [⟨4, 0, "else", "else"⟩]⟩) := by
  have hif : readHeader ⟨2, 2, "if true", "  if true"⟩ = .ok (.branch (.boolean true)) := rfl
  have hshow : readHeader ⟨3, 4, "show x", "    show x"⟩ = .ok (.display (.identifier "x")) := rfl
  have hwithin : within 2 outdented =
      [⟨2, 2, "if true", "  if true"⟩, ⟨3, 4, "show x", "    show x"⟩] := rfl
  have hread : readBlock 2 (within 2 outdented) =
      .ok ([.branch (.boolean true) [.display (.identifier "x")] none], []) := by
    simp [hwithin, readBlock_cons, readStatement_eq, hif, hshow, readChild_eq, blockFault?,
      indentStep]
  obtain ⟨-, htold, -⟩ := blocks_are_delimited 2 outdented
  rw [htold 1, told_block, hread]
  rfl

end Walk

end Waymark
