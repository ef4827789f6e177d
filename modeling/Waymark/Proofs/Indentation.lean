/-
**What a line with the wrong indent is refused with.**

Take a program and give one of its lines another indent.  Whether the lines are refused then, and with
what diagnostic, should follow from that indent and from the line before it alone.  The reader has
four places at which it looks at an indent, and it comes to the line out of any number of blocks that
end there, some of them waiting for an alternative.

To see what it does, this module describes where a line of a program can stand: `Stands` follows the
blocks that are open there, from the outermost inwards.  If the line before opens a block, the line
behind it is measured against that block and nothing else.  If it does not, all blocks are open that
are indented at most as much, one for each even indent.  They end one after the other, from the
innermost outwards, up to the first that is not indented more than the line; and this one either goes
on with the line or refuses it.

Main definitions:

* `Parse.opens?` — the keyword of the block that a line opens;
* `Grammar.Stands` — a line in a block, behind other lines;
* `Grammar.Misplaced` — an indent with which no open block goes on;
* `Grammar.Stuck` — what a block does before a line with such an indent.

Main results:

* `Grammar.Block.stands` — where the lines of a block stand;
* `Grammar.Stands.fails` — a line that opens a block, and the line that should be its first;
* `Grammar.Stands.stuck` — a line that opens none, and a line behind it that is misplaced;
* `Program.reindented_is_refused` — **indentation faults are exact**.
-/
import Mathlib.Algebra.Ring.Int.Parity
import Mathlib.Order.Bounds.Basic
import Waymark.Proofs.Lookahead

set_option relaxedAutoImplicit false
set_option autoImplicit false

namespace Waymark

/-! ### Lines that open blocks -/

namespace Parse

/-- The keyword of the block that a header opens, if it opens one. -/
def Header.opens? (header : Header) : Option String :=
  match header with
  | .when _ => some "when"
  | .branch _ => some "if"
  | .route _ => some "route"
  | .display _ => none
  | .assign _ _ => none

/-- The keyword of the block that a line opens, if it opens one.  The text of a line is enough to
tell: a line that can be a route option is neither a header nor does it open an alternative
(`opens?_of_readOption`). -/
def opens? (line : Line) : Option String :=
  if isElse line then some "else"
  else
    match readHeader line with
    | .ok header => header.opens?
    | .error _ => none

theorem opens?_of_isElse {line : Line} (h : isElse line = true) : opens? line = some "else" := by
  rw [opens?, if_pos h]

theorem opens?_of_readHeader {line : Line} {header : Header} (h : readHeader line = .ok header) :
    opens? line = header.opens? := by
  have helse : ¬ isElse line = true := fun helse =>
    Grammar.readHeader_ne_ok_of_isElse helse header h
  rw [opens?, if_neg helse, h]

/-- The letters that route options start with. -/
def optionInitials : List Char := ['a', 'f', 't', 'p', 'm', 'd']

theorem exists_initial_of_readOption {line : Line} {option : RouteOption}
    (h : readOption line = .ok option) :
    ∃ c cs, line.text.toList = c :: cs ∧ c.toLower ∈ optionInitials := by
  have hinitial : ∀ {α : Type} (word : String) (letter : Char) {next : List Char → Option α}
      {found : α}, word.toList.head? = some letter → Text.partners letter = [] →
      letter ∈ optionInitials → Text.afterWord word next line.text.toList = some found →
      ∃ c cs, line.text.toList = c :: cs ∧ c.toLower ∈ optionInitials := by
    intro α word letter next found hword hpartners hletter hfound
    obtain ⟨c, cs, hcs, hc⟩ := exists_initial_of_afterWord hword hpartners hfound
    exact ⟨c, cs, hcs, hc ▸ hletter⟩
  simp only [readOption] at h
  split at h
  · exact hinitial "avoid" 'a' rfl rfl (by decide) ‹_›
  split at h
  · exact hinitial "from" 'f' rfl rfl (by decide) ‹_›
  split at h
  · exact hinitial "to" 't' rfl rfl (by decide) ‹_›
  split at h
  · exact hinitial "prefer" 'p' rfl rfl (by decide) ‹_›
  split at h
  · exact hinitial "max" 'm' rfl rfl (by decide) ‹_›
  split at h
  · exact hinitial "depart" 'd' rfl rfl (by decide) ‹_›
  split at h
  · exact hinitial "arrive" 'a' rfl rfl (by decide) ‹_›
  · simp at h

/-- **A line that is a route option opens no block**: no header starts with its first letter. -/
theorem opens?_of_readOption {line : Line} {option : RouteOption}
    (h : readOption line = .ok option) : opens? line = none := by
  obtain ⟨c, cs, hcs, hc⟩ := exists_initial_of_readOption h
  have hlow : ∀ letter ∈ optionInitials, letter.toNat < 128 := by decide
  have hstart : ∀ letter ∈ optionInitials,
      ∀ keyword ∈ Keyword.statements, keyword.toList.head? ≠ some letter := by
    decide
  have helse : ¬ isElse line = true := by
    intro helse
    obtain ⟨c', cs', hcs', hc'⟩ := Grammar.exists_initial_of_isElse helse
    rw [hcs, List.cons.injEq] at hcs'
    rw [hcs'.1, hc'] at hc
    exact absurd hc (by decide)
  rw [opens?, if_neg helse]
  cases hheader : readHeader line with
  | error fault => rfl
  | ok header =>
      exact absurd hheader
        (Grammar.readHeader_ne_ok_of_initial hcs (hlow _ hc) (hstart _ hc) header)

end Parse

namespace Grammar

open Parse

/-! ### Where lines stand -/

/-- A line and further ones that are a whole statement: it is read up to there, whatever the block
goes on with. -/
structure Whole (base : Int) (head : Line) (used : List Line) : Prop where
  header : ∃ header, HeaderAt base head header
  read : ∃ stmt, ∀ more, Ends (base + indentStep) more →
    (∀ line ∈ more.head?, ¬ ElseAt base line) →
    readStatement base head (used ++ more) = .ok (stmt, more)

/-- `Opening base before line keyword`: a line of a block at indent `base` that opens a block of
statements, with the lines before it that belong to the same statement. -/
inductive Opening (base : Int) : List Line → Line → String → Prop
  | when {line : Line} {event : String} :
      HeaderAt base line (.when event) → Opening base [] line "when"
  | branch {line : Line} {test : Expr} :
      HeaderAt base line (.branch test) → Opening base [] line "if"
  | alternative {head line : Line} {test : Expr} {inner : List Line} {body : List Stmt} :
      HeaderAt base head (.branch test) → Block (base + indentStep) inner body → body ≠ [] →
      ElseAt base line → Opening base (head :: inner) line "else"

/-- `Stands base before line`: behind the lines `before`, the line stands in a block at indent `base`,
or in one that is open within it. -/
inductive Stands : Int → List Line → Line → Prop
  | plain {base : Int} {line : Line} {header : Header} :
      HeaderAt base line header → header.opens? = none → Stands base [] line
  | opener {base : Int} {before : List Line} {line : Line} {keyword : String} :
      Opening base before line keyword → Stands base before line
  | route {base : Int} {line : Line} {name : String} :
      HeaderAt base line (.route name) → Stands base [] line
  | child {base : Int} {before inner : List Line} {opener line : Line} {keyword : String} :
      Opening base before opener keyword → Stands (base + indentStep) inner line →
      Stands base (before ++ opener :: inner) line
  | option {base : Int} {head line : Line} {name : String} {inner : List Line}
      {options : List RouteOption} {option : RouteOption} :
      HeaderAt base head (.route name) → List.Forall₂ (OptionAt (base + indentStep)) inner options →
      OptionAt (base + indentStep) line option → (RouteOption.slots (options ++ [option])).Nodup →
      Stands base (head :: inner) line
  | rest {base : Int} {head line : Line} {used before : List Line} :
      Whole base head used → Stands base before line →
      Stands base (head :: (used ++ before)) line

/-- A line in the first or in the second of two lists. -/
theorem append_eq_append_cons {xs ys before after : List Line} {line : Line}
    (h : xs ++ ys = before ++ line :: after) :
    (∃ more, xs = before ++ line :: more) ∨
      ∃ before', before = xs ++ before' ∧ ys = before' ++ line :: after := by
  rcases List.append_eq_append_iff.1 h with ⟨before', hbefore, hys⟩ | ⟨more, hxs, hafter⟩
  · exact .inr ⟨before', hbefore, hys⟩
  · cases more with
    | nil => exact .inr ⟨[], by simpa using hxs.symm, by simpa using hafter.symm⟩
    | cons first more =>
        rw [List.cons_append, List.cons.injEq] at hafter
        exact .inl ⟨more, by rw [hxs, hafter.1]⟩

/-- The options before one of them, and this one. -/
theorem exists_options_append {indent : Int} {inner more : List Line} {line : Line}
    {options : List RouteOption}
    (h : List.Forall₂ (OptionAt indent) (inner ++ line :: more) options) :
    ∃ before option after, options = before ++ option :: after ∧
      List.Forall₂ (OptionAt indent) inner before ∧ OptionAt indent line option := by
  have hinner := (List.forall₂_take_append options inner (line :: more) h.flip).flip
  have hline := List.forall₂_drop_append options inner (line :: more) h.flip
  cases hdrop : options.drop inner.length with
  | nil =>
      rw [hdrop] at hline
      cases hline
  | cons option after =>
      rw [hdrop] at hline
      obtain ⟨hoption, -⟩ := List.forall₂_cons.1 hline
      exact ⟨_, option, after, by rw [← hdrop, List.take_append_drop], hinner, hoption⟩

/-- A header that opens no block is a statement of its own. -/
theorem HeaderAt.exists_readStatement {base : Int} {head : Line} {header : Header}
    (hd : HeaderAt base head header) (hplain : header.opens? = none) :
    ∃ stmt, ∀ more, readStatement base head more = .ok (stmt, more) := by
  cases header with
  | display value => exact ⟨.display value, fun more => by simp only [readStatement_eq, hd.2]⟩
  | assign name value =>
      exact ⟨.assign name value, fun more => by simp only [readStatement_eq, hd.2]⟩
  | _ => simp [Header.opens?] at hplain

theorem HeaderAt.whole {base : Int} {head : Line} {header : Header} (hd : HeaderAt base head header)
    (hplain : header.opens? = none) : Whole base head [] := by
  obtain ⟨stmt, hread⟩ := hd.exists_readStatement hplain
  exact ⟨⟨header, hd⟩, stmt, fun more _ _ => hread more⟩

/-- **Where the lines of a block stand.** -/
theorem Block.stands {base : Int} {lines before after : List Line} {stmts : List Stmt}
    {line : Line} (h : Block base lines stmts) (hlines : lines = before ++ line :: after) :
    Stands base before line := by
  -- the line is the first of its statement, or in one of the blocks of it, or further below
  induction h generalizing before after with
  | nil base => simp at hlines
  | @display base head value rest stmts hd _ ih =>
      rcases List.cons_eq_append_iff.1 hlines with ⟨rfl, hcons⟩ | ⟨before, rfl, hrest⟩
      · obtain ⟨rfl, -⟩ := List.cons.inj hcons
        exact .plain hd rfl
      · exact .rest (hd.whole rfl) (ih hrest)
  | @assign base head name value rest stmts hd _ ih =>
      rcases List.cons_eq_append_iff.1 hlines with ⟨rfl, hcons⟩ | ⟨before, rfl, hrest⟩
      · obtain ⟨rfl, -⟩ := List.cons.inj hcons
        exact .plain hd rfl
      · exact .rest (hd.whole rfl) (ih hrest)
  | @when base head event inner rest body stmts hd hbody hne _ ihbody ih =>
      rcases List.cons_eq_append_iff.1 hlines with ⟨rfl, hcons⟩ | ⟨before, rfl, htail⟩
      · obtain ⟨rfl, -⟩ := List.cons.inj hcons
        exact .opener (.when hd)
      rcases append_eq_append_cons htail with ⟨more, hinner⟩ | ⟨before, rfl, hrest⟩
      · exact .child (.when hd) (ihbody hinner)
      · exact .rest ⟨⟨_, hd⟩, _, fun more hends _ =>
          readStatement_when hd (hbody.readBlock_append hends) hne⟩ (ih hrest)
  | @branch base head test inner rest body stmts hd hbody hne _ ihbody ih =>
      rcases List.cons_eq_append_iff.1 hlines with ⟨rfl, hcons⟩ | ⟨before, rfl, htail⟩
      · obtain ⟨rfl, -⟩ := List.cons.inj hcons
        exact .opener (.branch hd)
      rcases append_eq_append_cons htail with ⟨more, hinner⟩ | ⟨before, rfl, hrest⟩
      · exact .child (.branch hd) (ihbody hinner)
      · exact .rest ⟨⟨_, hd⟩, _, fun more hends hnot =>
          readStatement_branch hd (hbody.readBlock_append hends) hne hnot⟩ (ih hrest)
  | @branchElse base head opener test inner other rest body elseBody stmts hd hbody hne helse hother
      hne' _ ihbody ihother ih =>
      rcases List.cons_eq_append_iff.1 hlines with ⟨rfl, hcons⟩ | ⟨before, rfl, htail⟩
      · obtain ⟨rfl, -⟩ := List.cons.inj hcons
        exact .opener (.branch hd)
      rcases append_eq_append_cons htail with ⟨more, hinner⟩ | ⟨before, rfl, hopener⟩
      · exact .child (.branch hd) (ihbody hinner)
      rcases List.cons_eq_append_iff.1 hopener with ⟨rfl, hcons⟩ | ⟨before, rfl, hbelow⟩
      · obtain ⟨rfl, -⟩ := List.cons.inj hcons
        rw [List.append_nil]
        exact .opener (.alternative hd hbody hne helse)
      rcases append_eq_append_cons hbelow with ⟨more, hother'⟩ | ⟨before, rfl, hrest⟩
      · exact .child (.alternative hd hbody hne helse) (ihother hother')
      · have hwhole : Whole base head (inner ++ opener :: other) := by
          refine ⟨⟨_, hd⟩, .branch test body (some elseBody), fun more hends _ => ?_⟩
          rw [List.append_assoc, List.cons_append]
          exact readStatement_branchElse hd (hbody.readBlock_append (helse.ends _)) hne helse
            (hother.readBlock_append hends) hne'
        simpa using Stands.rest hwhole (ih hrest)
  | @route base head name inner rest options stmts hd hall hne hslots _ ih =>
      rcases List.cons_eq_append_iff.1 hlines with ⟨rfl, hcons⟩ | ⟨before, rfl, htail⟩
      · obtain ⟨rfl, -⟩ := List.cons.inj hcons
        exact .route hd
      rcases append_eq_append_cons htail with ⟨more, rfl⟩ | ⟨before, rfl, hrest⟩
      · obtain ⟨options, option, others, rfl, hall, hoption⟩ := exists_options_append hall
        rw [List.append_cons, RouteOption.slots_append] at hslots
        exact .option hd hall hoption hslots.of_append_left
      · exact .rest ⟨⟨_, hd⟩, _, fun more hends _ =>
          readStatement_route hd hall hne hslots hends⟩ (ih hrest)

/-- A line that opens a block has the indent of the block in which it stands. -/
theorem Opening.indent_eq {base : Int} {before : List Line} {opener : Line} {keyword : String}
    (h : Opening base before opener keyword) : opener.indent = base := by
  cases h with
  | when hd => exact hd.1
  | branch hd => exact hd.1
  | alternative _ _ _ helse => exact helse.1

theorem Opening.opens?_eq {base : Int} {before : List Line} {opener : Line} {keyword : String}
    (h : Opening base before opener keyword) : opens? opener = some keyword := by
  cases h with
  | when hd => exact opens?_of_readHeader hd.2
  | branch hd => exact opens?_of_readHeader hd.2
  | alternative _ _ _ helse => exact opens?_of_isElse helse.2

/-- Up to a line that opens a block, a statement starts with a header. -/
theorem Opening.exists_first {base : Int} {before : List Line} {opener : Line} {keyword : String}
    (h : Opening base before opener keyword) (after : List Line) :
    ∃ first rest header, before ++ opener :: after = first :: rest ∧ HeaderAt base first header := by
  cases h with
  | when hd => exact ⟨_, _, _, rfl, hd⟩
  | branch hd => exact ⟨_, _, _, rfl, hd⟩
  | alternative hd _ _ _ => exact ⟨_, _, _, rfl, hd⟩

/-- Up to a line that stands in it, a block starts with a header. -/
theorem Stands.exists_first {base : Int} {before : List Line} {line : Line}
    (h : Stands base before line) (after : List Line) :
    ∃ first rest header, before ++ line :: after = first :: rest ∧ HeaderAt base first header := by
  cases h with
  | plain hd _ => exact ⟨_, _, _, rfl, hd⟩
  | opener hopening => exact hopening.exists_first after
  | route hd => exact ⟨_, _, _, rfl, hd⟩
  | child hopening _ =>
      rw [List.append_assoc]
      exact hopening.exists_first _
  | option hd _ _ _ => exact ⟨_, _, _, rfl, hd⟩
  | rest hwhole _ =>
      obtain ⟨header, hd⟩ := hwhole.header
      exact ⟨_, _, header, rfl, hd⟩

/-- A line is indented at least as much as a block in which it stands. -/
theorem Stands.base_le {base : Int} {before : List Line} {line : Line}
    (h : Stands base before line) : base ≤ line.indent := by
  induction h with
  | plain hd _ => exact hd.1.ge
  | opener hopening => exact hopening.indent_eq.ge
  | route hd => exact hd.1.ge
  | child _ _ ih =>
      rw [indentStep] at ih
      omega
  | option _ _ hoption _ =>
      rw [hoption.1, indentStep]
      omega
  | rest _ _ ih => exact ih

/-- The block of an opening line is opened by lines up to one that stands in it. -/
theorem Stands.blockFault?_eq_none {base : Int} {before : List Line} {line : Line}
    (h : Stands (base + indentStep) before line) (opener : Line) (keyword : String)
    (after : List Line) : blockFault? opener keyword base (before ++ line :: after) = none := by
  obtain ⟨first, rest, header, hfirst, hd⟩ := h.exists_first after
  exact blockFault?_eq_none_iff.2 ⟨first, rest, hfirst, hd.1⟩

/-- A whole statement is read before lines up to one that stands in the same block. -/
theorem Whole.exists_readStatement {base : Int} {head line : Line} {used before : List Line}
    (h : Whole base head used) (hstands : Stands base before line) (after : List Line) :
    ∃ stmt, readStatement base head (used ++ (before ++ line :: after)) =
      .ok (stmt, before ++ line :: after) := by
  obtain ⟨stmt, hread⟩ := h.read
  obtain ⟨first, rest, header, hfirst, hindent, hheader⟩ := hstands.exists_first after
  rw [hfirst]
  refine ⟨stmt, hread _ ?_ ?_⟩
  · rintro _ ⟨rfl⟩
    rw [hindent, indentStep]
    omega
  · rintro _ ⟨rfl⟩ ⟨-, helse⟩
    exact readHeader_ne_ok_of_isElse helse header hheader

/-! ### Lines that open a block -/

/-- A block is refused where the block of a line that opens one is. -/
theorem Opening.fails {base : Int} {before tail : List Line} {opener : Line} {keyword : String}
    {fault : Fault} (h : Opening base before opener keyword)
    (hchild : Fails fault (readChild opener keyword base tail)) :
    Fails fault (readBlock base (before ++ opener :: tail)) := by
  obtain ⟨routes, hchild⟩ := hchild
  cases h with
  | when hd =>
      refine .of_statement hd.1 ⟨routes, ?_⟩
      simp only [readStatement_eq, hd.2, hchild]
  | branch hd =>
      refine .of_statement hd.1 ⟨routes, ?_⟩
      simp only [readStatement_eq, hd.2, hchild]
  | @alternative head _ _ _ body hd hbody hne helse =>
      have hif := readChild_of_readBlock head "if" (hbody.readBlock_append (helse.ends tail)) hne
      have helse' : opener.indent = base ∧ isElse opener = true := helse
      rw [List.cons_append]
      refine .of_statement hd.1 ⟨Stmt.routesOf body ++ routes, ?_⟩
      simp only [readStatement_eq, hd.2, hif, readAlternative_cons, if_pos helse', hchild,
        Failure.after]

/-- The statement of a line that opens a block is read whole where the block is, unless an alternative
follows. -/
theorem Opening.exists_readStatement {base : Int} {before tail left : List Line} {opener : Line}
    {keyword : String} {body : List Stmt} (h : Opening base before opener keyword)
    (hchild : readChild opener keyword base tail = .ok (body, left))
    (hleft : ∀ line ∈ left.head?, ¬ ElseAt base line) :
    ∃ head rest stmt, before ++ opener :: tail = head :: rest ∧ head.indent = base ∧
      readStatement base head rest = .ok (stmt, left) := by
  have hnone : readAlternative base left = .ok (none, left) :=
    readAlternative_eq_ok_iff.2 (.inl ⟨rfl, rfl, hleft⟩)
  cases h with
  | @when _ event hd =>
      refine ⟨opener, tail, .when event body, rfl, hd.1, ?_⟩
      simp only [readStatement_eq, hd.2, hchild]
  | @branch _ test hd =>
      refine ⟨opener, tail, .branch test body none, rfl, hd.1, ?_⟩
      simp only [readStatement_eq, hd.2, hchild, hnone]
  | @alternative head _ test inner thenBody hd hbody hne helse =>
      have hif := readChild_of_readBlock head "if" (hbody.readBlock_append (helse.ends tail)) hne
      have helse' : opener.indent = base ∧ isElse opener = true := helse
      refine ⟨head, inner ++ opener :: tail, .branch test thenBody (some body), rfl, hd.1, ?_⟩
      simp only [readStatement_eq, hd.2, hif, readAlternative_cons, if_pos helse', hchild]

/-- **A line that opens a block is measured against the line behind it**: the block is refused if
that line does not open it. -/
theorem Stands.fails {base : Int} {before : List Line} {line : Line} {keyword : String}
    (h : Stands base before line) (hopens : opens? line = some keyword) {after : List Line}
    {fault : Fault} (hfault : blockFault? line keyword line.indent after = some fault) :
    Fails fault (readBlock base (before ++ line :: after)) := by
  induction h with
  | plain hd hplain =>
      rw [opens?_of_readHeader hd.2, hplain] at hopens
      simp at hopens
  | opener hopening =>
      rw [hopening.opens?_eq, Option.some.injEq] at hopens
      rw [hopening.indent_eq, ← hopens] at hfault
      exact hopening.fails ⟨[], by rw [readChild_eq, hfault]⟩
  | route hd =>
      rw [opens?_of_readHeader hd.2, Header.opens?, Option.some.injEq] at hopens
      rw [hd.1, ← hopens] at hfault
      refine .of_statement hd.1 ⟨[], ?_⟩
      simp only [readStatement_eq, hd.2, hfault]
  | child hopening hstands ih =>
      rw [List.append_assoc, List.cons_append]
      apply hopening.fails
      rw [readChild_eq, hstands.blockFault?_eq_none]
      exact ih hopens hfault
  | option _ _ hoption _ =>
      rw [opens?_of_readOption hoption.2] at hopens
      simp at hopens
  | rest hwhole hstands ih =>
      obtain ⟨header, hd⟩ := hwhole.header
      obtain ⟨stmt, hstmt⟩ := hwhole.exists_readStatement hstands after
      rw [List.cons_append, List.append_assoc]
      exact .of_rest hd.1 hstmt (ih hopens hfault)

/-! ### Lines that open none -/

/-- An indent with which no block goes on that is open behind a line of indent `previous`, if the line
opens none: these blocks have the even indents up to `previous`. -/
def Misplaced (previous indent : Int) : Prop := Odd indent ∨ previous < indent

/-- The indent that is expected of a misplaced line: that of the innermost open block that does not
end before it. -/
def Expected (previous indent expected : Int) : Prop :=
  IsGreatest {e : Int | Even e ∧ e ≤ previous ∧ e < indent} expected

/-- What a block at indent `base` does before a line that is misplaced: it ends, if the line is
indented less, and refuses the line otherwise. -/
structure Stuck (base previous : Int) (next : Line) (more : List Line)
    (result : Except Failure (List Stmt × List Line)) : Prop where
  ends : next.indent < base → ∃ stmts, result = .ok (stmts, next :: more)
  refuses : base ≤ next.indent → ∃ cause expected,
    Fails (.at next.number cause) result ∧ cause.indents = some (expected, next.indent) ∧
      Expected previous next.indent expected

/-- Before a misplaced line, a block does what its lines behind the first statement do. -/
theorem Stuck.of_rest {base previous : Int} {head next : Line} {tail rest more : List Line}
    {stmt : Stmt} (h : Stuck base previous next more (readBlock base rest))
    (hindent : head.indent = base) (hstmt : readStatement base head tail = .ok (stmt, rest)) :
    Stuck base previous next more (readBlock base (head :: tail)) where
  ends hless := by
    obtain ⟨stmts, hread⟩ := h.ends hless
    exact ⟨stmt :: stmts, readBlock_cons_of_readStatement hindent hstmt hread⟩
  refuses hmore := by
    obtain ⟨cause, expected, hfails, hexpected⟩ := h.refuses hmore
    exact ⟨cause, expected, .of_rest hindent hstmt hfails, hexpected⟩

section Misplaced

variable {base previous : Int} {next : Line} {more : List Line} (heven : Even base)
  (hbase : base ≤ previous) (hmisplaced : Misplaced previous next.indent)

include heven hbase hmisplaced

theorem Misplaced.ne_base : next.indent ≠ base := by
  rw [Int.even_iff] at heven
  rw [Misplaced, Int.odd_iff] at hmisplaced
  omega

/-- Between the indents of two blocks, the outer one is expected. -/
theorem expected_base (hnear : previous < base + indentStep ∨ next.indent < base + indentStep)
    (hless : ¬ next.indent < base) : Expected previous next.indent base := by
  have hne := Misplaced.ne_base heven hbase hmisplaced
  refine ⟨⟨heven, hbase, by omega⟩, ?_⟩
  rintro e ⟨he, hle, hlt⟩
  rw [Int.even_iff] at heven he
  rw [indentStep] at hnear
  omega

/-- A block in which no other is open, or in which none goes on. -/
theorem stuck_next (hnear : previous < base + indentStep ∨ next.indent < base + indentStep) :
    Stuck base previous next more (readBlock base (next :: more)) where
  ends hless := ⟨[], by rw [readBlock_cons, if_pos hless]⟩
  refuses hmore := by
    have hne := Misplaced.ne_base heven hbase hmisplaced
    have hless : ¬ next.indent < base := by omega
    refine ⟨.deeper base next.indent, base, ⟨[], ?_⟩, rfl,
      expected_base heven hbase hmisplaced hnear hless⟩
    rw [readBlock_cons, if_neg hless, if_pos (by omega)]

/-- What the block of an opening line does before a misplaced line decides what the block around it
does: it goes on where the inner one ends. -/
theorem Opening.stuck {before lines : List Line} {opener : Line} {keyword : String}
    (h : Opening base before opener keyword)
    (hopen : blockFault? opener keyword base lines = none)
    (hinner : Stuck (base + indentStep) previous next more (readBlock (base + indentStep) lines)) :
    Stuck base previous next more (readBlock base (before ++ opener :: lines)) := by
  by_cases hless : next.indent < base + indentStep
  · obtain ⟨body, hread⟩ := hinner.ends hless
    have hchild : readChild opener keyword base lines = .ok (body, next :: more) := by
      rw [readChild_eq, hopen]
      exact hread
    have hleft : ∀ line ∈ (next :: more).head?, ¬ ElseAt base line := by
      rintro _ ⟨rfl⟩ helse
      exact Misplaced.ne_base heven hbase hmisplaced helse.1
    obtain ⟨head, rest, stmt, hlines, hindent, hstmt⟩ := h.exists_readStatement hchild hleft
    rw [hlines]
    exact (stuck_next heven hbase hmisplaced (.inr hless)).of_rest hindent hstmt
  · constructor
    · intro hless'
      rw [indentStep] at hless
      omega
    · intro _
      obtain ⟨cause, expected, hfails, hexpected⟩ := hinner.refuses (not_lt.1 hless)
      refine ⟨cause, expected, h.fails ?_, hexpected⟩
      rw [readChild_eq, hopen]
      exact hfails

omit hbase in
/-- The same for the options of a route plan. -/
theorem stuck_options {head : Line} {name : String} {inner : List Line}
    {options : List RouteOption} (hd : HeaderAt base head (.route name))
    (hall : List.Forall₂ (OptionAt (base + indentStep)) inner options) (hne : options ≠ [])
    (hslots : (RouteOption.slots options).Nodup) (hprevious : previous = base + indentStep) :
    Stuck base previous next more (readBlock base (head :: (inner ++ next :: more))) := by
  have hbase : base ≤ previous := by
    rw [hprevious, indentStep]
    omega
  by_cases hless : next.indent < base + indentStep
  · have hends : Ends (base + indentStep) (next :: more) := by
      rintro _ ⟨rfl⟩
      exact hless
    exact (stuck_next heven hbase hmisplaced (.inr hless)).of_rest hd.1
      (readStatement_route hd hall hne hslots hends)
  · have heven' : Even (base + indentStep) := heven.add even_two
    have hne' := Misplaced.ne_base heven' hprevious.ge hmisplaced
    have hopen : blockFault? head "route" base (inner ++ next :: more) = none := by
      cases hall with
      | nil => exact absurd rfl hne
      | cons hoption _ => exact blockFault?_eq_none_iff.2 ⟨_, _, rfl, hoption.1⟩
    have hadd : ({ name := name } : Route).addAll options = .ok (Route.ofOptions name options) :=
      Route.addAll_eq_ok_iff.2 ⟨hslots, rfl⟩
    have hread : readOptions (base + indentStep) { name := name } (inner ++ next :: more) =
        .error (.at next.number (.deeperOption (base + indentStep) next.indent)) := by
      rw [readOptions_append_eq hall hadd, readOptions, if_neg hless, if_pos (by omega)]
    constructor
    · intro hless'
      rw [indentStep] at hless
      omega
    · intro _
      refine ⟨.deeperOption (base + indentStep) next.indent, base + indentStep,
        .of_statement hd.1 ⟨[], ?_⟩, rfl,
        expected_base heven' hprevious.ge hmisplaced (.inl ?_) hless⟩
      · simp only [readStatement_eq, hd.2, hopen, hread]
      · rw [hprevious, indentStep]
        omega

end Misplaced

/-- **Behind a line that opens no block, a line that is misplaced is refused** by the innermost open
block that does not end before it. -/
theorem Stands.stuck {base : Int} {before : List Line} {line next : Line}
    (h : Stands base before line) (heven : Even base) (hopens : opens? line = none)
    (hmisplaced : Misplaced line.indent next.indent) (more : List Line) :
    Stuck base line.indent next more (readBlock base (before ++ line :: next :: more)) := by
  -- the blocks that are open at the line are followed inwards; each goes on where the inner one ends
  induction h with
  | @plain base line header hd hplain =>
      obtain ⟨stmt, hread⟩ := hd.exists_readStatement hplain
      have hnear : line.indent < base + indentStep := by
        rw [hd.1, indentStep]
        omega
      exact (stuck_next heven hd.1.ge hmisplaced (.inl hnear)).of_rest hd.1 (hread _)
  | opener hopening => simp [hopening.opens?_eq] at hopens
  | route hd => simp [opens?_of_readHeader hd.2, Header.opens?] at hopens
  | child hopening hstands ih =>
      have hbase := hstands.base_le
      rw [indentStep] at hbase
      rw [List.append_assoc, List.cons_append]
      exact hopening.stuck heven (by omega) hmisplaced (hstands.blockFault?_eq_none _ _ _)
        (ih (heven.add even_two) hopens hmisplaced)
  | @option base head line name inner options option hd hall hoption hslots =>
      have hall' := List.rel_append hall (List.Forall₂.cons hoption .nil)
      have hstuck : Stuck base line.indent next more
          (readBlock base (head :: (inner ++ [line] ++ next :: more))) :=
        stuck_options heven hmisplaced hd hall' (by simp) hslots hoption.1
      simpa using hstuck
  | rest hwhole hstands ih =>
      obtain ⟨header, hd⟩ := hwhole.header
      obtain ⟨stmt, hstmt⟩ := hwhole.exists_readStatement hstands (next :: more)
      rw [List.cons_append, List.append_assoc]
      exact (ih heven hopens hmisplaced).of_rest hd.1 hstmt

end Grammar

/-! ### Programs -/

/-- A diagnostic about the indent of a line: the one that is expected and the one that is found. -/
structure Diagnostic.IsAboutIndent (d : Diagnostic) (line expected found : Int) : Prop where
  kind : d.kind = .indentation
  line : d.line = some line
  expected : d.expectedIndent = some expected
  found : d.foundIndent = some found

theorem Parse.Cause.isAboutIndent {cause : Parse.Cause} {expected found : Int}
    (h : cause.indents = some (expected, found)) (line : Int) :
    (cause.diagnostic line).IsAboutIndent line expected found := by
  rw [diagnostic, h]
  exact ⟨rfl, rfl, rfl, rfl⟩

namespace Program

open Parse Grammar

/-- Lines that are refused with a diagnostic. -/
def IsRefusedWith (lines : List Line) (d : Diagnostic) : Prop :=
  ∃ failure number cause, ofLines lines = .error failure ∧ failure.fault = .at number cause ∧
    d = cause.diagnostic number

theorem isRefusedWith_of_fails {lines : List Line} {number : Int} {cause : Cause}
    (h : Fails (.at number cause) (readBlock 0 lines)) :
    IsRefusedWith lines (cause.diagnostic number) := by
  obtain ⟨failure, herror, hfault⟩ := exists_ofLines_of_fails h
  exact ⟨failure, number, cause, herror, hfault, rfl⟩

/-- Lines that are refused as a block are no program. -/
theorem ofLines_ne_ok_of_fails {lines : List Line} {fault : Fault} (program : Program)
    (h : Fails fault (readBlock 0 lines)) : ofLines lines ≠ .ok program := by
  obtain ⟨failure, herror, -⟩ := exists_ofLines_of_fails h
  simp [herror]

section Reindented

variable {before : List Line} {previous : Line} (hstands : Stands 0 before previous)

include hstands

/-- A misplaced line behind a line of a program that opens no block. -/
theorem exists_fails_of_misplaced (hopens : opens? previous = none) {line : Line}
    (hindent : 0 ≤ line.indent) (hmisplaced : Misplaced previous.indent line.indent)
    (after : List Line) :
    ∃ cause expected,
      Fails (.at line.number cause) (readBlock 0 (before ++ previous :: line :: after)) ∧
      cause.indents = some (expected, line.indent) ∧
      Expected previous.indent line.indent expected :=
  (hstands.stuck Even.zero hopens hmisplaced after).refuses hindent

/-- **In a program, a line opens a block exactly if the line behind it is indented more.** -/
theorem isSome_opens?_iff {line : Line} {after : List Line} {program : Program}
    (h : ofLines (before ++ previous :: line :: after) = .ok program) :
    (opens? previous).isSome = true ↔ previous.indent < line.indent := by
  have hbase := hstands.base_le
  cases hopens : opens? previous with
  | none =>
      simp only [Option.isSome_none, Bool.false_eq_true, false_iff]
      intro hmore
      obtain ⟨cause, expected, hfails, -⟩ :=
        exists_fails_of_misplaced hstands hopens (by omega) (.inr hmore) after
      exact ofLines_ne_ok_of_fails program hfails h
  | some keyword =>
      simp only [Option.isSome_some, true_iff]
      by_contra hless
      have hfault : blockFault? previous keyword previous.indent (line :: after) =
          some (.at previous.number (.missingBlock keyword)) := if_pos (not_lt.1 hless)
      exact ofLines_ne_ok_of_fails program (hstands.fails hopens hfault) h

end Reindented

/-- **Indentation faults are exact.**  Take a program and one of its lines, not the first, and change
nothing but the indent of this line, to `n`.

* The line before it opens a block exactly if the line was indented more than that one.
* If it does, the program is now refused: at the line before, for want of a block, if `n` is not
  greater than its indent; and otherwise at the changed line, unless `n` is greater by one step.
* If it does not, and `n` is odd or greater than its indent, the program is refused at the changed
  line, where the greatest even indent is expected that is less than `n` and at most that of the line
  before. -/
theorem reindented_is_refused {before after : List Line} {previous line : Line} {program : Program}
    (h : ofLines (before ++ previous :: line :: after) = .ok program) (n : Nat) :
    ((opens? previous).isSome = true ↔ previous.indent < line.indent) ∧
    (∀ keyword, opens? previous = some keyword →
      (n ≤ previous.indent →
        IsRefusedWith (before ++ previous :: { line with indent := n } :: after)
          { kind := .parse, message := "Expected an indented block after \"" ++ keyword ++ "\"",
            line := some previous.number }) ∧
      (previous.indent < n → n ≠ previous.indent + 2 →
        ∃ d, IsRefusedWith (before ++ previous :: { line with indent := n } :: after) d ∧
          d.IsAboutIndent line.number (previous.indent + 2) n)) ∧
    (opens? previous = none → Odd n ∨ previous.indent < n →
      ∃ d expected, IsRefusedWith (before ++ previous :: { line with indent := n } :: after) d ∧
        d.IsAboutIndent line.number expected n ∧
        IsGreatest {e : Int | Even e ∧ e ≤ previous.indent ∧ e < n} expected) := by
  have hstands : Stands 0 before previous := (block_of_ofLines h).stands rfl
  refine ⟨isSome_opens?_iff hstands h, ?_, ?_⟩
  · intro keyword hopens
    constructor
    · intro hless
      have hfault : blockFault? previous keyword previous.indent
          ({ line with indent := (n : Int) } :: after) =
            some (.at previous.number (.missingBlock keyword)) := if_pos hless
      exact isRefusedWith_of_fails (hstands.fails hopens hfault)
    · intro hmore hstep
      have hfault : blockFault? previous keyword previous.indent
          ({ line with indent := (n : Int) } :: after) =
            some (.at line.number (.badStep keyword (previous.indent + indentStep) n)) := by
        rw [blockFault?, if_neg (by simpa using hmore), if_pos (by simpa [indentStep] using hstep)]
      exact ⟨_, isRefusedWith_of_fails (hstands.fails hopens hfault), Cause.isAboutIndent rfl _⟩
  · intro hopens hplace
    have hmisplaced : Misplaced previous.indent ({ line with indent := (n : Int) } : Line).indent :=
      hplace.imp_left (Int.odd_coe_nat n).2
    obtain ⟨cause, expected, hfails, hindents, hexpected⟩ :=
      exists_fails_of_misplaced hstands hopens (Int.natCast_nonneg n) hmisplaced after
    exact ⟨_, expected, isRefusedWith_of_fails hfails, Cause.isAboutIndent hindents _, hexpected⟩

/-- A conditional that waits for its alternative while another one within it ends. -/
theorem ofLines_pending :
    ofLines [⟨1, 0, "if a", "if a"⟩, ⟨2, 2, "if b", "  if b"⟩, ⟨3, 4, "show x", "    show x"⟩,
        ⟨4, 0, "else", "else"⟩, ⟨5, 2, "show y", "  show y"⟩] =
      .ok ⟨[.branch (.identifier "a")
        [.branch (.identifier "b") [.display (.identifier "x")] none]
        (some [.display (.identifier "y")])]⟩ := by
  have hif : HeaderAt 0 ⟨1, 0, "if a", "if a"⟩ (.branch (.identifier "a")) := ⟨rfl, rfl⟩
  have hif' : HeaderAt 2 ⟨2, 2, "if b", "  if b"⟩ (.branch (.identifier "b")) := ⟨rfl, rfl⟩
  have hshow : Block 4 [⟨3, 4, "show x", "    show x"⟩] [.display (.identifier "x")] :=
    .display ⟨rfl, rfl⟩ (.nil 4)
  have hshow' : Block 2 [⟨5, 2, "show y", "  show y"⟩] [.display (.identifier "y")] :=
    .display ⟨rfl, rfl⟩ (.nil 2)
  have hinner := Block.branch hif' hshow (List.cons_ne_nil _ _) (.nil 2)
  have helse : ElseAt 0 ⟨4, 0, "else", "else"⟩ := ⟨rfl, rfl⟩
  have hblock := Block.branchElse hif hinner (List.cons_ne_nil _ _) helse hshow'
    (List.cons_ne_nil _ _) (.nil 0)
  exact hblock.ofLines_eq

/-- The line of the alternative, moved between the two conditionals, belongs to neither; and the inner
conditional is nothing without its block. -/
theorem reindented_is_refused_pending :
    (∃ d, IsRefusedWith [⟨1, 0, "if a", "if a"⟩, ⟨2, 2, "if b", "  if b"⟩,
        ⟨3, 4, "show x", "    show x"⟩, ⟨4, 3, "else", "else"⟩, ⟨5, 2, "show y", "  show y"⟩] d ∧
      d.IsAboutIndent 4 2 3) ∧
    IsRefusedWith [⟨1, 0, "if a", "if a"⟩, ⟨2, 2, "if b", "  if b"⟩,
        ⟨3, 2, "show x", "    show x"⟩, ⟨4, 0, "else", "else"⟩, ⟨5, 2, "show y", "  show y"⟩]
      { kind := .parse, message := "Expected an indented block after \"if\"", line := some 2 } := by
  constructor
  · have hlines : ofLines ([⟨1, 0, "if a", "if a"⟩, ⟨2, 2, "if b", "  if b"⟩] ++
        ⟨3, 4, "show x", "    show x"⟩ :: ⟨4, 0, "else", "else"⟩ ::
          [⟨5, 2, "show y", "  show y"⟩]) = .ok _ := ofLines_pending
    obtain ⟨-, -, hrefused⟩ := reindented_is_refused hlines 3
    obtain ⟨d, expected, hd, habout, hexpected⟩ := hrefused rfl (.inl (by decide))
    have htwo : IsGreatest {e : Int | Even e ∧ e ≤ 4 ∧ e < 3} 2 := by
      refine ⟨⟨even_two, by decide, by decide⟩, ?_⟩
      rintro e ⟨-, -, hlt⟩
      exact Int.le_of_lt_add_one hlt
    obtain rfl := hexpected.unique htwo
    exact ⟨d, hd, habout⟩
  · have hlines : ofLines ([⟨1, 0, "if a", "if a"⟩] ++ ⟨2, 2, "if b", "  if b"⟩ ::
        ⟨3, 4, "show x", "    show x"⟩ ::
          [⟨4, 0, "else", "else"⟩, ⟨5, 2, "show y", "  show y"⟩]) = .ok _ := ofLines_pending
    obtain ⟨-, hrefused, -⟩ := reindented_is_refused hlines 2
    exact (hrefused "if" rfl).1 (by decide)

end Program

end Waymark
