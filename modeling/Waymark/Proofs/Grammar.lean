/-
**The block grammar, and the reader that decides it.**

`Parse.readBlock` reads a block by recursive descent: it looks at one line at a time, hands the lines
that are left from call to call, and stops at the first line that is indented less.  This module says
what a block *is*, without a reader and without a notion of what is left over, and proves that the
two agree.

A block at an indent is a sequence of statements whose first lines all have that indent.  What a
header opens is indented by one step more and is not empty; the alternative of a conditional is opened
by a line of its own at the indent of the conditional; a route block is a list of options that fill no
slot twice.  What a single line says is left to the readers of lines.

Main definitions:

* `Grammar.HeaderAt`, `Grammar.ElseAt`, `Grammar.OptionAt` — what one line is, at an indent;
* `Grammar.Block` — the lines of a block and the statements they are;
* `Grammar.Ends` — lines that a block at an indent does not go on with.

Main results:

* `Grammar.block_of_readBlock` — what is read is a block, followed by what is left;
* `Grammar.Block.readBlock_append` — a block is read whole, whatever ends it;
* `Grammar.ofLines_eq_ok_iff` — **lines are a program exactly if they are a block at indent zero**.
-/
import Mathlib.Data.List.Forall2
import Waymark.Parse.Block
import Waymark.Proofs.Pattern
import Waymark.Proofs.RoutePlan

set_option relaxedAutoImplicit false
set_option autoImplicit false

namespace Waymark

namespace Grammar

open Parse

/-! ### Lines at an indent -/

/-- A line at the given indent that is a header. -/
def HeaderAt (indent : Int) (line : Line) (header : Header) : Prop :=
  line.indent = indent ∧ readHeader line = .ok header

/-- A line at the given indent that opens the alternative of a conditional. -/
def ElseAt (indent : Int) (line : Line) : Prop :=
  line.indent = indent ∧ isElse line = true

/-- A line at the given indent that is a route option. -/
def OptionAt (indent : Int) (line : Line) (option : RouteOption) : Prop :=
  line.indent = indent ∧ readOption line = .ok option

/-- Lines that a block at the given indent does not go on with: there are none, or the first is
indented less. -/
def Ends (indent : Int) (lines : List Line) : Prop :=
  ∀ line ∈ lines.head?, line.indent < indent

/-! ### Blocks -/

/-- `Block base lines stmts`: the lines are a block at indent `base`, and the block is the
statements.  Every rule but the first puts one statement before a block. -/
inductive Block : Int → List Line → List Stmt → Prop
  | nil (base : Int) : Block base [] []
  | display {base : Int} {head : Line} {value : Expr} {rest : List Line} {stmts : List Stmt} :
      HeaderAt base head (.display value) → Block base rest stmts →
      Block base (head :: rest) (.display value :: stmts)
  | assign {base : Int} {head : Line} {name : String} {value : Expr} {rest : List Line}
      {stmts : List Stmt} :
      HeaderAt base head (.assign name value) → Block base rest stmts →
      Block base (head :: rest) (.assign name value :: stmts)
  | when {base : Int} {head : Line} {event : String} {inner rest : List Line}
      {body stmts : List Stmt} :
      HeaderAt base head (.when event) →
      Block (base + indentStep) inner body → body ≠ [] → Block base rest stmts →
      Block base (head :: (inner ++ rest)) (.when event body :: stmts)
  | branch {base : Int} {head : Line} {test : Expr} {inner rest : List Line}
      {body stmts : List Stmt} :
      HeaderAt base head (.branch test) →
      Block (base + indentStep) inner body → body ≠ [] → Block base rest stmts →
      Block base (head :: (inner ++ rest)) (.branch test body none :: stmts)
  | branchElse {base : Int} {head opener : Line} {test : Expr} {inner other rest : List Line}
      {body elseBody stmts : List Stmt} :
      HeaderAt base head (.branch test) →
      Block (base + indentStep) inner body → body ≠ [] → ElseAt base opener →
      Block (base + indentStep) other elseBody → elseBody ≠ [] → Block base rest stmts →
      Block base (head :: (inner ++ opener :: (other ++ rest)))
        (.branch test body (some elseBody) :: stmts)
  | route {base : Int} {head : Line} {name : String} {inner rest : List Line}
      {options : List RouteOption} {stmts : List Stmt} :
      HeaderAt base head (.route name) →
      List.Forall₂ (OptionAt (base + indentStep)) inner options → options ≠ [] →
      (RouteOption.slots options).Nodup → Block base rest stmts →
      Block base (head :: (inner ++ rest)) (.route (Route.ofOptions name options) :: stmts)

/-- The first line of a block that is not empty has the indent of the block and is a header. -/
theorem Block.head_header {base : Int} {line : Line} {lines : List Line} {stmts : List Stmt}
    (h : Block base (line :: lines) stmts) : ∃ header, HeaderAt base line header := by
  cases h with
  | display hd _ => exact ⟨_, hd⟩
  | assign hd _ => exact ⟨_, hd⟩
  | when hd _ _ _ => exact ⟨_, hd⟩
  | branch hd _ _ _ => exact ⟨_, hd⟩
  | branchElse hd _ _ _ _ _ _ => exact ⟨_, hd⟩
  | route hd _ _ _ _ => exact ⟨_, hd⟩

/-- A block without lines has no statements. -/
theorem Block.eq_nil {base : Int} {stmts : List Stmt} (h : Block base [] stmts) : stmts = [] := by
  cases h
  rfl

/-- What follows a block that is ended by lines indented less is, for a block one step deeper, the
end as well. -/
theorem Block.ends_append {base : Int} {lines rest : List Line} {stmts : List Stmt}
    (h : Block base lines stmts) (hrest : Ends base rest) :
    Ends (base + indentStep) (lines ++ rest) := by
  intro line hline
  cases lines with
  | nil =>
      have := hrest line hline
      simp only [indentStep]
      omega
  | cons head tail =>
      obtain ⟨header, hindent, -⟩ := h.head_header
      simp only [List.cons_append, List.head?_cons, Option.mem_def, Option.some.injEq] at hline
      rw [← hline, hindent, indentStep]
      omega

/-! ### Route blocks -/

/-- Behind options that can be added to a plan, reading goes on with the plan they make. -/
theorem readOptions_append_eq {indent : Int} {inner : List Line} {options : List RouteOption}
    {plan plan' : Route} (h : List.Forall₂ (OptionAt indent) inner options)
    (hadd : plan.addAll options = .ok plan') (rest : List Line) :
    readOptions indent plan (inner ++ rest) = readOptions indent plan' rest := by
  induction h generalizing plan with
  | nil =>
      simp only [Route.addAll, Except.ok.injEq] at hadd
      rw [List.nil_append, hadd]
  | @cons line option inner options hline _ ih =>
      obtain ⟨hindent, hoption⟩ := hline
      simp only [Route.addAll] at hadd
      cases hone : plan.add option with
      | error keyword => simp [hone] at hadd
      | ok next =>
          simp only [hone] at hadd
          simp [readOptions, hindent, addOption, hoption, hone, ih hadd]

/-- Options that can be added to a plan are read whole, whatever ends their block. -/
theorem readOptions_append {indent : Int} {inner rest : List Line} {options : List RouteOption}
    {plan plan' : Route} (h : List.Forall₂ (OptionAt indent) inner options)
    (hadd : plan.addAll options = .ok plan') (hrest : Ends indent rest) :
    readOptions indent plan (inner ++ rest) = .ok (plan', rest) := by
  rw [readOptions_append_eq h hadd]
  cases rest with
  | nil => rfl
  | cons line rest => simp [readOptions, hrest line rfl]

/-- What is read of a route block are options that can be added to the plan. -/
theorem forall₂_of_readOptions {indent : Int} {lines rest : List Line} {plan plan' : Route}
    (h : readOptions indent plan lines = .ok (plan', rest)) :
    ∃ inner options, lines = inner ++ rest ∧ List.Forall₂ (OptionAt indent) inner options ∧
      plan.addAll options = .ok plan' ∧ Ends indent rest := by
  induction lines generalizing plan with
  | nil =>
      simp only [readOptions, Except.ok.injEq, Prod.mk.injEq] at h
      obtain ⟨rfl, rfl⟩ := h
      exact ⟨[], [], rfl, .nil, rfl, by simp [Ends]⟩
  | cons line lines ih =>
      rw [readOptions] at h
      split at h
      · rename_i hless
        simp only [Except.ok.injEq, Prod.mk.injEq] at h
        obtain ⟨rfl, rfl⟩ := h
        exact ⟨[], [], rfl, .nil, rfl, by simpa [Ends] using hless⟩
      · split at h
        · simp at h
        · rename_i hless hmore
          have hindent : line.indent = indent := by omega
          rw [addOption] at h
          cases hoption : readOption line with
          | error f => simp [hoption] at h
          | ok option =>
              cases hone : plan.add option with
              | error keyword => simp [hoption, hone] at h
              | ok next =>
                  simp only [hoption, hone] at h
                  obtain ⟨inner, options, rfl, hall, hadd, hends⟩ := ih h
                  refine ⟨line :: inner, option :: options, rfl, .cons ⟨hindent, hoption⟩ hall,
                    ?_, hends⟩
                  rw [Route.addAll, hone]
                  exact hadd

/-! ### The line that opens an alternative -/

/-- A line whose first letter starts no statement is no header. -/
theorem readHeader_ne_ok_of_initial {line : Line} {c : Char} {cs : List Char}
    (hcs : line.text.toList = c :: cs) (hlow : c.toLower.toNat < 128)
    (hnot : ∀ keyword ∈ Keyword.statements, keyword.toList.head? ≠ some c.toLower)
    (header : Header) : readHeader line ≠ .ok header := by
  have hlower : Text.lower (c :: cs) = c.toLower :: Text.lower cs := by
    rw [Text.lower_cons, Text.lowerChar_eq hlow]
    rfl
  have hnonempty : ∀ keyword ∈ Keyword.statements, keyword.toList ≠ [] := by decide
  have hstarts : ∀ keyword ∈ Keyword.statements, startsWith keyword (c :: cs) = false := by
    intro keyword hkeyword
    have hne := hnot keyword hkeyword
    rw [startsWith, hlower]
    cases hletters : keyword.toList with
    | nil => exact absurd hletters (hnonempty keyword hkeyword)
    | cons letter letters =>
        rw [hletters, List.head?_cons, ne_eq, Option.some.injEq] at hne
        simp [List.isPrefixOf, hne]
  simp only [readHeader, hcs, hstarts "when" (by decide), hstarts "if" (by decide),
    hstarts "show" (by decide), hstarts "set" (by decide), hstarts "route" (by decide)]
  simp

/-- A line that opens an alternative starts with the letter `e`, which has no partners. -/
theorem exists_initial_of_isElse {line : Line} (h : isElse line = true) :
    ∃ c cs, line.text.toList = c :: cs ∧ c.toLower = 'e' := by
  rw [isElse] at h
  cases hcs : line.text.toList with
  | nil => simp [hcs, Text.dropWord?] at h
  | cons c cs =>
      refine ⟨c, cs, rfl, ?_⟩
      by_contra hne
      simp [hcs, Text.dropWord?, Text.isLetter, Text.partners, hne] at h

/-- A line that opens the alternative of a conditional is no header: no statement starts with its
first letter. -/
theorem readHeader_ne_ok_of_isElse {line : Line} (h : isElse line = true) (header : Header) :
    readHeader line ≠ .ok header := by
  obtain ⟨c, cs, hcs, hc⟩ := exists_initial_of_isElse h
  apply readHeader_ne_ok_of_initial hcs
  · rw [hc]
    decide
  · rw [hc]
    decide

/-! ### What one step of the reader does -/

/-- A block that is read from a first line: it is empty before a line that is indented less, and
otherwise a statement at its indent and the rest of the block. -/
theorem readBlock_cons_eq_ok_iff {base : Int} {head : Line} {tail left : List Line}
    {stmts : List Stmt} :
    readBlock base (head :: tail) = .ok (stmts, left) ↔
      (head.indent < base ∧ stmts = [] ∧ left = head :: tail) ∨
      (head.indent = base ∧ ∃ stmt rest more, readStatement base head tail = .ok (stmt, rest) ∧
        readBlock base rest = .ok (more, left) ∧ stmts = stmt :: more) := by
  rw [readBlock_cons]
  constructor
  · intro h
    split at h
    · rename_i hless
      simp only [Except.ok.injEq, Prod.mk.injEq] at h
      exact .inl ⟨hless, h.1.symm, h.2.symm⟩
    · split at h
      · simp at h
      · rename_i hless hmore
        cases hs : readStatement base head tail with
        | error f => simp [hs] at h
        | ok r =>
            obtain ⟨stmt, rest⟩ := r
            cases hb : readBlock base rest with
            | error f => simp [hs, hb] at h
            | ok r =>
                simp only [hs, hb, Except.ok.injEq, Prod.mk.injEq] at h
                exact .inr ⟨by omega, stmt, rest, r.1, rfl, by rw [hb, ← h.2], h.1.symm⟩
  · rintro (⟨hless, rfl, rfl⟩ | ⟨hindent, stmt, rest, more, hs, hb, rfl⟩)
    · rw [if_pos hless]
    · have hless : ¬ head.indent < base := by omega
      have hmore : ¬ base < head.indent := by omega
      rw [if_neg hless, if_neg hmore, hs]
      simp only [hb]

/-- Lines open the block of a header exactly if the first of them is indented by one step more. -/
theorem blockFault?_eq_none_iff {header : Line} {keyword : String} {indent : Int}
    {lines : List Line} :
    blockFault? header keyword indent lines = none ↔
      ∃ line rest, lines = line :: rest ∧ line.indent = indent + indentStep := by
  cases lines with
  | nil => simp [blockFault?]
  | cons line lines =>
      rw [blockFault?]
      constructor
      · intro h
        split at h
        · simp at h
        · split at h
          · simp at h
          · rename_i hstep
            exact ⟨line, lines, rfl, not_not.1 hstep⟩
      · rintro ⟨_, _, ⟨rfl, rfl⟩, hindent⟩
        have hmore : ¬ line.indent ≤ indent := by rw [hindent, indentStep]; omega
        rw [if_neg hmore, if_neg (not_not.2 hindent)]

/-- The block that a header opens is a block one step deeper that is not empty. -/
theorem readChild_eq_ok_iff {header : Line} {keyword : String} {indent : Int}
    {lines left : List Line} {body : List Stmt} :
    readChild header keyword indent lines = .ok (body, left) ↔
      readBlock (indent + indentStep) lines = .ok (body, left) ∧ body ≠ [] := by
  rw [readChild_eq]
  cases hfault : blockFault? header keyword indent lines with
  | none =>
      obtain ⟨line, rest, rfl, hindent⟩ := blockFault?_eq_none_iff.1 hfault
      refine ⟨fun h => ⟨h, ?_⟩, fun h => h.1⟩
      rcases readBlock_cons_eq_ok_iff.1 h with ⟨hless, -⟩ | ⟨-, stmt, _, more, -, -, rfl⟩
      · omega
      · exact List.cons_ne_nil stmt more
  | some fault =>
      -- a block that is not opened is read as an empty one, or not at all
      simp only [reduceCtorEq, false_iff, not_and, not_not]
      intro h
      cases lines with
      | nil =>
          simp only [readBlock_nil, Except.ok.injEq, Prod.mk.injEq] at h
          exact h.1.symm
      | cons line rest =>
          rcases readBlock_cons_eq_ok_iff.1 h with ⟨-, hnil, -⟩ | ⟨hindent, -⟩
          · exact hnil
          · rw [blockFault?_eq_none_iff.2 ⟨line, rest, rfl, hindent⟩] at hfault
            simp at hfault

theorem readChild_of_readBlock (header : Line) (keyword : String) {indent : Int}
    {lines left : List Line} {body : List Stmt}
    (h : readBlock (indent + indentStep) lines = .ok (body, left)) (hne : body ≠ []) :
    readChild header keyword indent lines = .ok (body, left) :=
  readChild_eq_ok_iff.2 ⟨h, hne⟩

/-- The alternative of a conditional that is read: there is none unless the first line opens one, and
otherwise it is the block that this line opens. -/
theorem readAlternative_eq_ok_iff {indent : Int} {lines left : List Line}
    {elseBody : Option (List Stmt)} :
    readAlternative indent lines = .ok (elseBody, left) ↔
      (elseBody = none ∧ left = lines ∧ ∀ line ∈ lines.head?, ¬ ElseAt indent line) ∨
      (∃ opener rest body, lines = opener :: rest ∧ ElseAt indent opener ∧
        readChild opener "else" indent rest = .ok (body, left) ∧ elseBody = some body) := by
  cases lines with
  | nil => simp [eq_comm]
  | cons line lines =>
      rw [readAlternative_cons]
      by_cases helse : line.indent = indent ∧ isElse line = true
      · rw [if_pos helse]
        constructor
        · intro h
          cases hchild : readChild line "else" indent lines with
          | error f => simp [hchild] at h
          | ok r =>
              simp only [hchild, Except.ok.injEq, Prod.mk.injEq] at h
              exact .inr ⟨line, lines, r.1, rfl, helse, by rw [hchild, ← h.2], h.1.symm⟩
        · rintro (⟨-, -, hnot⟩ | ⟨_, _, body, ⟨rfl, rfl⟩, -, hchild, rfl⟩)
          · exact absurd helse (hnot line rfl)
          · rw [hchild]
      · rw [if_neg helse]
        constructor
        · intro h
          simp only [Except.ok.injEq, Prod.mk.injEq] at h
          refine .inl ⟨h.1.symm, h.2.symm, ?_⟩
          rintro _ ⟨rfl⟩
          exact helse
        · rintro (⟨rfl, rfl, -⟩ | ⟨_, _, _, ⟨rfl, rfl⟩, helse', -⟩)
          · rfl
          · exact absurd helse' helse

/-- A route block that is read is options, at least one, that fill no slot twice. -/
theorem options_of_readOptions {header : Line} {indent : Int} {name : String}
    {lines left : List Line} {plan : Route} (hfault : blockFault? header "route" indent lines = none)
    (h : readOptions (indent + indentStep) { name := name } lines = .ok (plan, left)) :
    ∃ inner options, lines = inner ++ left ∧
      List.Forall₂ (OptionAt (indent + indentStep)) inner options ∧ options ≠ [] ∧
      (RouteOption.slots options).Nodup ∧ plan = Route.ofOptions name options := by
  obtain ⟨line, rest, rfl, hindent⟩ := blockFault?_eq_none_iff.1 hfault
  obtain ⟨inner, options, hlines, hall, hadd, hends⟩ := forall₂_of_readOptions h
  obtain ⟨hslots, hplan⟩ := Route.addAll_eq_ok_iff.1 hadd
  refine ⟨inner, options, hlines, hall, ?_, hslots, hplan⟩
  rintro rfl
  -- without options the first line would end the block, but it has the indent of the block
  cases hall
  rw [List.nil_append] at hlines
  subst hlines
  have := hends line rfl
  omega

/-! ### What is read is a block -/

/-- What `readBlock` must have found in lines, if it gives a result on them. -/
def Sound (lines : List Line) : Prop :=
  ∀ (base : Int) (stmts : List Stmt) (left : List Line),
    readBlock base lines = .ok (stmts, left) →
    ∃ used, lines = used ++ left ∧ Block base used stmts ∧ Ends base left

/-- A statement that is read may be put before any block, given that shorter lines are read as
blocks. -/
theorem block_of_readStatement {base : Int} {head : Line} {tail left : List Line} {stmt : Stmt}
    (hsound : ∀ lines : List Line, lines.length ≤ tail.length → Sound lines)
    (hindent : head.indent = base) (h : readStatement base head tail = .ok (stmt, left)) :
    ∃ used, tail = used ++ left ∧
      ∀ rest stmts, Block base rest stmts → Block base (head :: (used ++ rest)) (stmt :: stmts) := by
  rw [readStatement_eq] at h
  cases hheader : readHeader head with
  | error fault => simp [hheader] at h
  | ok header =>
      simp only [hheader] at h
      cases header with
      | display value =>
          simp only [Except.ok.injEq, Prod.mk.injEq] at h
          obtain ⟨rfl, rfl⟩ := h
          exact ⟨[], rfl, fun rest stmts hrest => .display ⟨hindent, hheader⟩ hrest⟩
      | assign name value =>
          simp only [Except.ok.injEq, Prod.mk.injEq] at h
          obtain ⟨rfl, rfl⟩ := h
          exact ⟨[], rfl, fun rest stmts hrest => .assign ⟨hindent, hheader⟩ hrest⟩
      | when event =>
          cases hchild : readChild head "when" base tail with
          | error f => simp [hchild] at h
          | ok r =>
              obtain ⟨body, left'⟩ := r
              simp only [hchild, Except.ok.injEq, Prod.mk.injEq] at h
              obtain ⟨rfl, rfl⟩ := h
              obtain ⟨hbody, hne⟩ := readChild_eq_ok_iff.1 hchild
              obtain ⟨used, rfl, hblock, -⟩ := hsound tail (Nat.le_refl _) _ _ _ hbody
              exact ⟨used, rfl, fun rest stmts hrest =>
                .when ⟨hindent, hheader⟩ hblock hne hrest⟩
      | branch test =>
          cases hchild : readChild head "if" base tail with
          | error f => simp [hchild] at h
          | ok r =>
              obtain ⟨body, mid⟩ := r
              obtain ⟨hbody, hne⟩ := readChild_eq_ok_iff.1 hchild
              obtain ⟨used, rfl, hblock, -⟩ := hsound tail (Nat.le_refl _) _ _ _ hbody
              simp only [hchild] at h
              cases halt : readAlternative base mid with
              | error f => simp [halt] at h
              | ok r =>
                  obtain ⟨elseBody, left'⟩ := r
                  simp only [halt, Except.ok.injEq, Prod.mk.injEq] at h
                  obtain ⟨rfl, rfl⟩ := h
                  rcases readAlternative_eq_ok_iff.1 halt with
                    ⟨rfl, rfl, -⟩ | ⟨opener, rest, other, rfl, helse, hother, rfl⟩
                  · exact ⟨used, rfl, fun rest stmts hrest =>
                      .branch ⟨hindent, hheader⟩ hblock hne hrest⟩
                  · obtain ⟨hother, hne'⟩ := readChild_eq_ok_iff.1 hother
                    have hlen : rest.length ≤ (used ++ opener :: rest).length := by simp; omega
                    obtain ⟨used', rfl, hblock', -⟩ := hsound rest hlen _ _ _ hother
                    refine ⟨used ++ opener :: used', by simp, ?_⟩
                    intro rest stmts hrest
                    have := Block.branchElse ⟨hindent, hheader⟩ hblock hne helse hblock' hne' hrest
                    simpa using this
      | route name =>
          cases hfault : blockFault? head "route" base tail with
          | some fault => simp [hfault] at h
          | none =>
              simp only [hfault] at h
              cases hoptions : readOptions (base + indentStep) { name := name } tail with
              | error fault => simp [hoptions] at h
              | ok r =>
                  obtain ⟨plan, left'⟩ := r
                  simp only [hoptions, Except.ok.injEq, Prod.mk.injEq] at h
                  obtain ⟨rfl, rfl⟩ := h
                  obtain ⟨inner, options, rfl, hall, hne, hslots, rfl⟩ :=
                    options_of_readOptions hfault hoptions
                  exact ⟨inner, rfl, fun rest stmts hrest =>
                    .route ⟨hindent, hheader⟩ hall hne hslots hrest⟩

/-- **What is read is a block**, and what is left ends it. -/
theorem block_of_readBlock (lines : List Line) : Sound lines := by
  -- each statement leaves fewer lines than there were, so the induction is on their number
  induction hn : lines.length using Nat.strongRecOn generalizing lines with
  | _ n ih =>
      intro base stmts left h
      cases lines with
      | nil =>
          simp only [readBlock_nil, Except.ok.injEq, Prod.mk.injEq] at h
          obtain ⟨rfl, rfl⟩ := h
          exact ⟨[], rfl, .nil base, by simp [Ends]⟩
      | cons head tail =>
          simp only [List.length_cons] at hn
          rcases readBlock_cons_eq_ok_iff.1 h with
            ⟨hless, rfl, rfl⟩ | ⟨hindent, stmt, rest, more, hstmt, hmore, rfl⟩
          · exact ⟨[], rfl, .nil base, by simpa [Ends] using hless⟩
          · have hlen := length_le_of_readStatement hstmt
            obtain ⟨used, rfl, hput⟩ := block_of_readStatement
              (fun lines hle => ih _ (by omega) lines rfl) hindent hstmt
            obtain ⟨used', rfl, hblock, hends⟩ := ih _ (by omega) rest rfl _ _ _ hmore
            exact ⟨head :: (used ++ used'), by simp, hput _ _ hblock, hends⟩

/-! ### A block is read whole -/

/-- A statement and the rest of its block, read one after the other. -/
theorem readBlock_cons_of_readStatement {base : Int} {head : Line} {tail rest left : List Line}
    {stmt : Stmt} {stmts : List Stmt} (hindent : head.indent = base)
    (hstmt : readStatement base head tail = .ok (stmt, rest))
    (hrest : readBlock base rest = .ok (stmts, left)) :
    readBlock base (head :: tail) = .ok (stmt :: stmts, left) :=
  readBlock_cons_eq_ok_iff.2 (.inr ⟨hindent, stmt, rest, stmts, hstmt, hrest, rfl⟩)

/-- Behind a block, and what ends it, no alternative of a conditional at its indent is opened. -/
theorem Block.not_elseAt_append {base : Int} {lines rest : List Line} {stmts : List Stmt}
    (h : Block base lines stmts) (hrest : Ends base rest) :
    ∀ line ∈ (lines ++ rest).head?, ¬ ElseAt base line := by
  rintro line hline ⟨hindent, helse⟩
  cases lines with
  | nil =>
      have := hrest line hline
      omega
  | cons head tail =>
      obtain ⟨header, -, hheader⟩ := h.head_header
      simp only [List.cons_append, List.head?_cons, Option.mem_def, Option.some.injEq] at hline
      rw [hline] at hheader
      exact readHeader_ne_ok_of_isElse helse header hheader

/-- An event rule is read whole, if its block is. -/
theorem readStatement_when {base : Int} {head : Line} {event : String} {inner more : List Line}
    {body : List Stmt} (hd : HeaderAt base head (.when event))
    (hbody : readBlock (base + indentStep) (inner ++ more) = .ok (body, more)) (hne : body ≠ []) :
    readStatement base head (inner ++ more) = .ok (.when event body, more) := by
  have hchild := readChild_of_readBlock head "when" hbody hne
  simp only [readStatement_eq, hd.2, hchild]

/-- A conditional without an alternative is read whole, if its block is and nothing opens an
alternative behind it. -/
theorem readStatement_branch {base : Int} {head : Line} {test : Expr} {inner more : List Line}
    {body : List Stmt} (hd : HeaderAt base head (.branch test))
    (hbody : readBlock (base + indentStep) (inner ++ more) = .ok (body, more)) (hne : body ≠ [])
    (hmore : ∀ line ∈ more.head?, ¬ ElseAt base line) :
    readStatement base head (inner ++ more) = .ok (.branch test body none, more) := by
  have hchild := readChild_of_readBlock head "if" hbody hne
  have hnone := readAlternative_eq_ok_iff.2 (.inl ⟨rfl, rfl, hmore⟩)
  simp only [readStatement_eq, hd.2, hchild, hnone]

/-- A line that opens an alternative ends the block before it. -/
theorem ElseAt.ends {base : Int} {opener : Line} (h : ElseAt base opener) (lines : List Line) :
    Ends (base + indentStep) (opener :: lines) := by
  rintro line ⟨rfl⟩
  rw [h.1, indentStep]
  omega

/-- A conditional with an alternative is read whole, if its two blocks are. -/
theorem readStatement_branchElse {base : Int} {head opener : Line} {test : Expr}
    {inner other more : List Line} {body elseBody : List Stmt}
    (hd : HeaderAt base head (.branch test))
    (hbody : readBlock (base + indentStep) (inner ++ opener :: (other ++ more)) =
      .ok (body, opener :: (other ++ more)))
    (hne : body ≠ []) (helse : ElseAt base opener)
    (hother : readBlock (base + indentStep) (other ++ more) = .ok (elseBody, more))
    (hne' : elseBody ≠ []) :
    readStatement base head (inner ++ opener :: (other ++ more)) =
      .ok (.branch test body (some elseBody), more) := by
  have hchild := readChild_of_readBlock head "if" hbody hne
  have hchild' := readChild_of_readBlock opener "else" hother hne'
  have halt := readAlternative_eq_ok_iff.2 (.inr ⟨opener, _, _, rfl, helse, hchild', rfl⟩)
  simp only [readStatement_eq, hd.2, hchild, halt]

/-- A route plan is read whole, whatever ends its options. -/
theorem readStatement_route {base : Int} {head : Line} {name : String} {inner more : List Line}
    {options : List RouteOption} (hd : HeaderAt base head (.route name))
    (hall : List.Forall₂ (OptionAt (base + indentStep)) inner options) (hne : options ≠ [])
    (hslots : (RouteOption.slots options).Nodup) (hmore : Ends (base + indentStep) more) :
    readStatement base head (inner ++ more) =
      .ok (.route (Route.ofOptions name options), more) := by
  have hopen : blockFault? head "route" base (inner ++ more) = none := by
    cases hall with
    | nil => exact absurd rfl hne
    | cons hline _ => exact blockFault?_eq_none_iff.2 ⟨_, _, rfl, hline.1⟩
  have hadd : ({ name := name } : Route).addAll options = .ok (Route.ofOptions name options) :=
    Route.addAll_eq_ok_iff.2 ⟨hslots, rfl⟩
  simp only [readStatement_eq, hd.2, hopen, readOptions_append hall hadd hmore]

/-- **A block is read whole**, whatever ends it. -/
theorem Block.readBlock_append {base : Int} {lines rest : List Line} {stmts : List Stmt}
    (h : Block base lines stmts) (hrest : Ends base rest) :
    readBlock base (lines ++ rest) = .ok (stmts, rest) := by
  -- for any rest: within a statement, what ends its blocks is the rest of the block around it
  induction h generalizing rest with
  | nil base =>
      cases rest with
      | nil => exact readBlock_nil base
      | cons line rest => exact readBlock_cons_eq_ok_iff.2 (.inl ⟨hrest line rfl, rfl, rfl⟩)
  | display hd _ ih =>
      rw [List.cons_append]
      refine readBlock_cons_of_readStatement hd.1 ?_ (ih hrest)
      simp only [readStatement_eq, hd.2]
  | assign hd _ ih =>
      rw [List.cons_append]
      refine readBlock_cons_of_readStatement hd.1 ?_ (ih hrest)
      simp only [readStatement_eq, hd.2]
  | when hd _ hne hmore ihbody ih =>
      rw [List.cons_append, List.append_assoc]
      refine readBlock_cons_of_readStatement hd.1 ?_ (ih hrest)
      exact readStatement_when hd (ihbody (hmore.ends_append hrest)) hne
  | branch hd _ hne hmore ihbody ih =>
      rw [List.cons_append, List.append_assoc]
      refine readBlock_cons_of_readStatement hd.1 ?_ (ih hrest)
      exact readStatement_branch hd (ihbody (hmore.ends_append hrest)) hne
        (hmore.not_elseAt_append hrest)
  | branchElse hd _ hne helse _ hne' hmore ihbody ihother ih =>
      rw [List.cons_append, List.append_assoc, List.cons_append, List.append_assoc]
      refine readBlock_cons_of_readStatement hd.1 ?_ (ih hrest)
      exact readStatement_branchElse hd (ihbody (helse.ends _)) hne helse
        (ihother (hmore.ends_append hrest)) hne'
  | route hd hall hne hslots hmore ih =>
      rw [List.cons_append, List.append_assoc]
      refine readBlock_cons_of_readStatement hd.1 ?_ (ih hrest)
      exact readStatement_route hd hall hne hslots (hmore.ends_append hrest)

/-! ### Programs -/

/-- Lines of which none is indented to the left are read to the last one. -/
theorem eq_nil_of_readBlock {lines left : List Line} {body : List Stmt}
    (hindent : ∀ line ∈ lines, 0 ≤ line.indent) (h : readBlock 0 lines = .ok (body, left)) :
    left = [] := by
  obtain ⟨used, rfl, -, hends⟩ := block_of_readBlock lines _ _ _ h
  cases left with
  | nil => rfl
  | cons line left =>
      have hless := hends line rfl
      have hnonneg := hindent line (by simp)
      omega

/-- What is read of all lines is a block at indent zero. -/
theorem block_of_ofLines {lines : List Line} {body : List Stmt}
    (h : Program.ofLines lines = .ok ⟨body⟩) : Block 0 lines body := by
  rw [Program.ofLines] at h
  cases hread : readBlock 0 lines with
  | error f => simp [hread] at h
  | ok r =>
      obtain ⟨stmts, left⟩ := r
      obtain ⟨used, rfl, hblock, -⟩ := block_of_readBlock lines _ _ _ hread
      cases left with
      | nil =>
          simp only [hread, Except.ok.injEq, Program.mk.injEq] at h
          rw [List.append_nil, ← h]
          exact hblock
      | cons line left => simp [hread] at h

/-- A block at indent zero is read as a program. -/
theorem Block.ofLines_eq {lines : List Line} {body : List Stmt} (h : Block 0 lines body) :
    Program.ofLines lines = .ok ⟨body⟩ := by
  have hends : Ends 0 [] := by simp [Ends]
  have hread := h.readBlock_append hends
  rw [List.append_nil] at hread
  rw [Program.ofLines, hread]

/-- **Lines are a program exactly if they are a block at indent zero**: every line belongs to one
statement, in order, and an alternative belongs to the conditional at its indent. -/
theorem ofLines_eq_ok_iff (lines : List Line) (body : List Stmt) :
    Program.ofLines lines = .ok ⟨body⟩ ↔ Block 0 lines body := by
  constructor
  · exact block_of_ofLines
  · exact Block.ofLines_eq

/-- A source is a program exactly if its significant lines are a block at indent zero. -/
theorem parse_eq_ok_iff {source : String} {body : List Stmt} :
    Program.parse source = .ok ⟨body⟩ ↔
      ∃ lines, Source.lines source = .ok lines ∧ Block 0 lines body := by
  rw [Program.parse]
  cases Source.lines source with
  | error number => simp
  | ok lines =>
      simp only [Except.ok.injEq, exists_eq_left']
      constructor
      · intro h
        apply block_of_ofLines
        cases hread : Program.ofLines lines with
        | error f => simp [hread] at h
        | ok program => simpa [hread] using h
      · intro h
        rw [h.ofLines_eq]

end Grammar

end Waymark
