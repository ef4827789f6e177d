/-
**Where a source is refused, and how far the reader has looked.**

A fault at a line is found by reading forward.  What does the reader know by then?  It has taken the
lines before the one it cites, and it has looked at that line and at most at the one behind it: a
header is refused for want of a block only when the next line is seen not to open one.  So the fault
is the same whatever follows the next line.  And the lines before the one that is cited are no fault
of their own: some lines behind them complete a program.

Both facts are proved together, by induction on the lines, for blocks at any indent.  The second
needs a line that can always come next.  In a block that is a statement of one line, in a route
block an option that may be repeated.

Main definitions:

* `Grammar.RefusedAt`, `Grammar.Refused` — lines that are refused at one of them, for reasons up to
  the next line.

Main results:

* `Parse.cites_of_readHeader`, `Parse.cites_of_addOption` — a line is refused under its own number;
* `Grammar.readStatement_local` — a statement is read with a look at the line behind it only;
* `Grammar.refused_of_readBlock` — what is refused at a line is refused by a look at the next one;
* `Program.ofLines_lookahead` — **the fault of a source is found with one line of lookahead, and the
  lines before it are the start of a program**.
-/
import Waymark.Proofs.Located
import Waymark.Proofs.Moved

set_option relaxedAutoImplicit false
set_option autoImplicit false

namespace Waymark

/-! ### Faults cite their line -/

namespace Parse

/-- Results that a move of all numbers to one number leaves as they are cite that number. -/
theorem eq_of_mapError_move {α : Type} {result : Except Fault α} {n m : Int} {cause : Cause}
    (h : result = result.mapError (Fault.move (fun _ => n) 0))
    (herror : result = .error (.at m cause)) : m = n := by
  rw [herror] at h
  simp only [Except.mapError, Fault.move, Except.error.injEq, Fault.at.injEq] at h
  exact h.1

/-- A line is a move of itself, if all numbers are moved to its own. -/
theorem moved_self (line : Line) : line.Moved (fun _ => line.number) 0 line :=
  ⟨rfl, (Int.add_zero _).symm, rfl⟩

/-- **A header is refused under the number of its line.** -/
theorem cites_of_readHeader {line : Line} {number : Int} {cause : Cause}
    (h : readHeader line = .error (.at number cause)) : number = line.number :=
  eq_of_mapError_move (readHeader_moved (moved_self line)) h

/-- **An option is refused under the number of its line.** -/
theorem cites_of_addOption {plan : Route} {line : Line} {number : Int} {cause : Cause}
    (h : addOption plan line = .error (.at number cause)) : number = line.number :=
  eq_of_mapError_move (addOption_moved (moved_self line) plan) h

/-- Whether lines open the block of a header depends on the first of them only. -/
theorem blockFault?_congr {lines lines' : List Line} (h : lines.head? = lines'.head?)
    (header : Line) (keyword : String) (indent : Int) :
    blockFault? header keyword indent lines = blockFault? header keyword indent lines' := by
  cases lines with
  | nil =>
      cases lines' with
      | nil => rfl
      | cons line' lines' => simp at h
  | cons line lines =>
      cases lines' with
      | nil => simp at h
      | cons line' lines' =>
          simp only [List.head?_cons, Option.some.injEq] at h
          rw [blockFault?, blockFault?, h]

end Parse

namespace Grammar

open Parse

/-! ### Lines that can always come next -/

/-- A statement of one line, at the given indent. -/
def plainLine (indent : Int) : Line := ⟨0, indent, "show true", "show true"⟩

theorem block_plainLine (indent : Int) :
    Block indent [plainLine indent] [.display (.boolean true)] := by
  have hshow : Text.Spells "show" "show".toList := by decide
  have htrue : Text.Spells "true" "true".toList := by decide
  have hline : Render.HeaderLine (.display (.boolean true)) "show true".toList :=
    .display hshow (.atom (.yes htrue))
  exact .display ⟨rfl, Render.HeaderLine.readHeader_eq hline trivial⟩ (.nil indent)

/-- Options that can be added to a plan can be followed by another one. -/
theorem exists_block_route {base : Int} {head : Line} {name : String} {inner : List Line}
    {options : List RouteOption} {plan : Route} (hd : HeaderAt base head (.route name))
    (hall : List.Forall₂ (OptionAt (base + indentStep)) inner options)
    (hadd : ({ name := name } : Route).addAll options = .ok plan) :
    ∃ good body, Block base (head :: inner ++ [good]) body := by
  obtain ⟨hslots, -⟩ := Route.addAll_eq_ok_iff.1 hadd
  have hgood := Program.optionAt_stopgap ⟨0, base + indentStep, "", ""⟩
  have hall' := List.rel_append hall (List.Forall₂.cons hgood .nil)
  have hslots' : (RouteOption.slots (options ++ [.avoid .tolls])).Nodup := by
    have hnone : RouteOption.slots [.avoid .tolls] = [] := rfl
    rw [RouteOption.slots_append, hnone, List.append_nil]
    exact hslots
  have hblock := Block.route hd hall' (by simp) hslots' (.nil base)
  rw [List.append_nil] at hblock
  exact ⟨_, _, hblock⟩

/-! ### Statements are read locally -/

theorem Ends.congr {indent : Int} {lines lines' : List Line} (h : Ends indent lines)
    (hhead : lines.head? = lines'.head?) : Ends indent lines' := by
  rw [Ends, ← hhead]
  exact h

/-- **A statement is read with a look at the line behind it only.** -/
theorem readStatement_local {base : Int} {head : Line} {tail left : List Line} {stmt : Stmt}
    (hindent : head.indent = base) (h : readStatement base head tail = .ok (stmt, left)) :
    ∃ used, tail = used ++ left ∧ ∀ left', left.head? = left'.head? →
      readStatement base head (used ++ left') = .ok (stmt, left') := by
  rw [readStatement_eq] at h
  cases hheader : readHeader head with
  | error fault => simp [hheader] at h
  | ok header =>
      simp only [hheader] at h
      cases header with
      | display value =>
          simp only [Except.ok.injEq, Prod.mk.injEq] at h
          obtain ⟨rfl, rfl⟩ := h
          refine ⟨[], rfl, fun left' _ => ?_⟩
          simp only [readStatement_eq, hheader, List.nil_append]
      | assign name value =>
          simp only [Except.ok.injEq, Prod.mk.injEq] at h
          obtain ⟨rfl, rfl⟩ := h
          refine ⟨[], rfl, fun left' _ => ?_⟩
          simp only [readStatement_eq, hheader, List.nil_append]
      | when event =>
          cases hchild : readChild head "when" base tail with
          | error f => simp [hchild] at h
          | ok r =>
              obtain ⟨body, rest⟩ := r
              simp only [hchild, Except.ok.injEq, Prod.mk.injEq] at h
              obtain ⟨rfl, rfl⟩ := h
              obtain ⟨hbody, hne⟩ := readChild_eq_ok_iff.1 hchild
              obtain ⟨used, rfl, hblock, hends⟩ := block_of_readBlock _ _ _ _ hbody
              refine ⟨used, rfl, fun left' hhead => ?_⟩
              exact readStatement_when ⟨hindent, hheader⟩
                (hblock.readBlock_append (hends.congr hhead)) hne
      | branch test =>
          cases hchild : readChild head "if" base tail with
          | error f => simp [hchild] at h
          | ok r =>
              obtain ⟨body, mid⟩ := r
              obtain ⟨hbody, hne⟩ := readChild_eq_ok_iff.1 hchild
              obtain ⟨used, rfl, hblock, hends⟩ := block_of_readBlock _ _ _ _ hbody
              simp only [hchild] at h
              cases halt : readAlternative base mid with
              | error f => simp [halt] at h
              | ok r =>
                  obtain ⟨elseBody, rest⟩ := r
                  simp only [halt, Except.ok.injEq, Prod.mk.injEq] at h
                  obtain ⟨rfl, rfl⟩ := h
                  rcases readAlternative_eq_ok_iff.1 halt with
                    ⟨rfl, rfl, hnot⟩ | ⟨opener, behind, other, rfl, helse, hother, rfl⟩
                  · refine ⟨used, rfl, fun left' hhead => ?_⟩
                    rw [hhead] at hnot
                    exact readStatement_branch ⟨hindent, hheader⟩
                      (hblock.readBlock_append (hends.congr hhead)) hne hnot
                  · obtain ⟨hother, hne'⟩ := readChild_eq_ok_iff.1 hother
                    obtain ⟨used', rfl, hblock', hends'⟩ := block_of_readBlock _ _ _ _ hother
                    refine ⟨used ++ opener :: used', by simp, fun left' hhead => ?_⟩
                    rw [List.append_assoc, List.cons_append]
                    exact readStatement_branchElse ⟨hindent, hheader⟩
                      (hblock.readBlock_append (helse.ends _)) hne helse
                      (hblock'.readBlock_append (hends'.congr hhead)) hne'
      | route name =>
          cases hopen : blockFault? head "route" base tail with
          | some fault => simp [hopen] at h
          | none =>
              simp only [hopen] at h
              cases hoptions : readOptions (base + indentStep) { name := name } tail with
              | error fault => simp [hoptions] at h
              | ok r =>
                  obtain ⟨plan, rest⟩ := r
                  simp only [hoptions, Except.ok.injEq, Prod.mk.injEq] at h
                  obtain ⟨rfl, rfl⟩ := h
                  obtain ⟨-, -, -, -, -, hends⟩ := forall₂_of_readOptions hoptions
                  obtain ⟨inner, options, rfl, hall, hne, hslots, rfl⟩ :=
                    options_of_readOptions hopen hoptions
                  refine ⟨inner, rfl, fun left' hhead => ?_⟩
                  exact readStatement_route ⟨hindent, hheader⟩ hall hne hslots
                    (hends.congr hhead)

/-! ### Refused at a line -/

/-- Lines `pre`, `line` and `post`, which are refused at `line` as a block at indent `base`. -/
structure RefusedAt (base : Int) (fault : Fault) (pre : List Line) (line : Line)
    (post : List Line) : Prop where
  /-- The fault cites the line. -/
  cites : ∃ cause, fault = .at line.number cause
  /-- Of what follows, only the first line matters. -/
  ahead : ∀ next more, post.head? = some next →
    Fails fault (readBlock base (pre ++ line :: next :: more))
  /-- What comes before can be completed. -/
  viable : ∃ good body, Block base (pre ++ [good]) body

/-- Lines that are refused at one of them as a block at indent `base`. -/
def Refused (base : Int) (lines : List Line) (fault : Fault) : Prop :=
  ∃ pre line post, lines = pre ++ line :: post ∧ RefusedAt base fault pre line post

/-- Behind a line nothing changes what comes first. -/
theorem head?_append_cons (pre : List Line) (line : Line) (post post' : List Line) :
    (pre ++ line :: post).head? = (pre ++ line :: post').head? := by
  cases pre <;> rfl

/-- What is refused within a block is refused in the lines around it, if they fail with it and can
be completed with it. -/
theorem RefusedAt.within {base base' : Int} {fault : Fault} {pre post : List Line} {line : Line}
    (h : RefusedAt base' fault pre line post) (before : List Line)
    (hfails : ∀ next more, Fails fault (readBlock base' (pre ++ line :: next :: more)) →
      Fails fault (readBlock base (before ++ (pre ++ line :: next :: more))))
    (hput : ∀ good body, Block base' (pre ++ [good]) body →
      ∃ stmts, Block base (before ++ (pre ++ [good])) stmts) :
    RefusedAt base fault (before ++ pre) line post := by
  refine ⟨h.cites, ?_, ?_⟩
  · intro next more hnext
    rw [List.append_assoc]
    exact hfails next more (h.ahead next more hnext)
  · obtain ⟨good, body, hblock⟩ := h.viable
    obtain ⟨stmts, hstmts⟩ := hput good body hblock
    exact ⟨good, stmts, by rw [List.append_assoc]; exact hstmts⟩

/-! ### Blocks that are not opened -/

section Child

variable {base : Int} {before : List Line} {header : Line} {keyword : String}
  (hbefore : ∃ good body, Block base (before ++ [good]) body)

include hbefore

/-- A header whose block is not opened is refused at itself, or at the line that should open it. -/
theorem refused_of_blockFault {tail : List Line} {fault : Fault}
    (hopens : ∃ good body, Block base (before ++ [header] ++ [good]) body)
    (hfails : ∀ tail', blockFault? header keyword base tail' = some fault →
      Fails fault (readBlock base (before ++ header :: tail')))
    (h : blockFault? header keyword base tail = some fault) :
    Refused base (before ++ header :: tail) fault := by
  have hahead : ∀ next more, tail.head? = some next →
      Fails fault (readBlock base (before ++ header :: next :: more)) := by
    intro next more hnext
    apply hfails
    rw [← h]
    exact blockFault?_congr (by rw [hnext, List.head?_cons]) header keyword base
  cases tail with
  | nil =>
      simp only [blockFault?, Option.some.injEq] at h
      exact ⟨before, header, [], rfl, ⟨_, h.symm⟩, hahead, hbefore⟩
  | cons first tail =>
      by_cases hless : first.indent ≤ base
      · simp only [blockFault?, if_pos hless, Option.some.injEq] at h
        exact ⟨before, header, first :: tail, rfl, ⟨_, h.symm⟩, hahead, hbefore⟩
      · have hcites : ∃ cause, fault = .at first.number cause := by
          simp only [blockFault?, if_neg hless] at h
          split at h
          · simp only [Option.some.injEq] at h
            exact ⟨_, h.symm⟩
          · simp at h
        refine ⟨before ++ [header], first, tail, by simp, hcites, ?_, hopens⟩
        intro next more _
        simpa using hahead first (next :: more) rfl

/-- The block of a header that is refused at a line, given that this holds of its lines. -/
theorem refused_of_readChild {tail : List Line} {failure : Failure}
    (hbody : readBlock (base + indentStep) tail = .error failure →
      Refused (base + indentStep) tail failure.fault)
    (hput : ∀ inner body, Block (base + indentStep) inner body → body ≠ [] →
      ∃ stmts, Block base (before ++ header :: inner) stmts)
    (hfails : ∀ tail' fault, Fails fault (readChild header keyword base tail') →
      Fails fault (readBlock base (before ++ header :: tail')))
    (h : readChild header keyword base tail = .error failure) :
    Refused base (before ++ header :: tail) failure.fault := by
  rw [readChild_eq] at h
  cases hopen : blockFault? header keyword base tail with
  | some fault =>
      simp only [hopen, Except.error.injEq] at h
      subst h
      apply refused_of_blockFault hbefore _ _ hopen
      · obtain ⟨stmts, hstmts⟩ := hput _ _ (block_plainLine _) (by simp)
        exact ⟨_, stmts, by simpa using hstmts⟩
      · intro tail' hopen'
        apply hfails
        refine ⟨[], ?_⟩
        rw [readChild_eq, hopen']
  | none =>
      simp only [hopen] at h
      obtain ⟨pre, line, post, rfl, hrefused⟩ := hbody h
      refine ⟨before ++ [header] ++ pre, line, post, by simp, hrefused.within _ ?_ ?_⟩
      · intro next more hinner
        have hopen' : blockFault? header keyword base (pre ++ line :: next :: more) = none := by
          rw [← hopen]
          exact blockFault?_congr (head?_append_cons pre line _ _) header keyword base
        have hchild := hfails (pre ++ line :: next :: more) failure.fault
          (by rw [readChild_eq, hopen']; exact hinner)
        simpa using hchild
      · intro good body hblock
        obtain ⟨stmts, hstmts⟩ := hput _ _ hblock (hblock.stmts_ne_nil (by simp))
        exact ⟨stmts, by simpa using hstmts⟩

end Child

/-! ### Route blocks -/

/-- A route block that is refused at a line breaks off there, whatever follows, behind options that
can be added to the plan. -/
theorem exists_of_readOptions_at {indent : Int} {lines : List Line} {plan : Route} {number : Int}
    {cause : Cause} (h : readOptions indent plan lines = .error (.at number cause)) :
    ∃ inner line post options plan', lines = inner ++ line :: post ∧ number = line.number ∧
      List.Forall₂ (OptionAt indent) inner options ∧ plan.addAll options = .ok plan' ∧
      ∀ post', readOptions indent plan (inner ++ line :: post') = .error (.at number cause) := by
  induction lines generalizing plan with
  | nil => simp [readOptions] at h
  | cons line lines ih =>
      rw [readOptions] at h
      by_cases hless : line.indent < indent
      · simp [if_pos hless] at h
      rw [if_neg hless] at h
      by_cases hmore : indent < line.indent
      · rw [if_pos hmore] at h
        have hnumber : number = line.number := by
          simp only [Except.error.injEq, Fault.at.injEq] at h
          exact h.1.symm
        refine ⟨[], line, lines, [], plan, rfl, hnumber, .nil, rfl, fun post' => ?_⟩
        rw [List.nil_append, readOptions, if_neg hless, if_pos hmore]
        exact h
      rw [if_neg hmore] at h
      have hindent : line.indent = indent := by omega
      cases hadd : addOption plan line with
      | error fault =>
          simp only [hadd, Except.error.injEq] at h
          subst h
          refine ⟨[], line, lines, [], plan, rfl, cites_of_addOption hadd, .nil, rfl,
            fun post' => ?_⟩
          simp only [List.nil_append, readOptions, if_neg hless, if_neg hmore, hadd]
      | ok next =>
          simp only [hadd] at h
          obtain ⟨inner, last, post, options, plan', rfl, hnumber, hall, haddAll, hbreak⟩ := ih h
          obtain ⟨option, hoption, hone⟩ : ∃ option, readOption line = .ok option ∧
              plan.add option = .ok next := by
            rw [addOption] at hadd
            cases hoption : readOption line with
            | error f => simp [hoption] at hadd
            | ok option =>
                cases hone : plan.add option with
                | error keyword => simp [hoption, hone] at hadd
                | ok plan =>
                    simp only [hoption, hone, Except.ok.injEq] at hadd
                    exact ⟨option, rfl, by rw [hone, hadd]⟩
          refine ⟨line :: inner, last, post, option :: options, plan', rfl, hnumber,
            .cons ⟨hindent, hoption⟩ hall, by rw [Route.addAll, hone]; exact haddAll,
            fun post' => ?_⟩
          simp only [List.cons_append, readOptions, if_neg hless, if_neg hmore, hadd, hbreak]

/-- A route plan that is refused at a line of its block. -/
theorem refused_of_readOptions {base : Int} {head : Line} {name : String} {tail : List Line}
    {number : Int} {cause : Cause} (hd : HeaderAt base head (.route name))
    (hopen : blockFault? head "route" base tail = none)
    (h : readOptions (base + indentStep) { name := name } tail = .error (.at number cause)) :
    Refused base (head :: tail) (.at number cause) := by
  obtain ⟨inner, line, post, options, plan, rfl, rfl, hall, hadd, hbreak⟩ :=
    exists_of_readOptions_at h
  refine ⟨head :: inner, line, post, rfl, ⟨cause, rfl⟩, ?_, exists_block_route hd hall hadd⟩
  intro next more _
  have hopen' : blockFault? head "route" base (inner ++ line :: next :: more) = none := by
    rw [← hopen]
    exact blockFault?_congr (head?_append_cons inner line _ _) head "route" base
  rw [List.cons_append]
  refine .of_statement hd.1 ⟨[], ?_⟩
  simp only [readStatement_eq, hd.2, hopen', hbreak]

/-! ### Blocks -/

/-- What must be known of lines that `readBlock` refuses at a line. -/
def Pinned (lines : List Line) : Prop :=
  ∀ (base : Int) (failure : Failure) (number : Int) (cause : Cause),
    readBlock base lines = .error failure → failure.fault = .at number cause →
    Refused base lines failure.fault

/-- A header whose first block is refused at a line, given that this holds of the lines of the
block.  Such a header reads its block before anything else, and is a statement with a block behind
it. -/
theorem refused_of_opening {base : Int} {head : Line} {keyword : String} {tail : List Line}
    {failure : Failure} {number : Int} {cause : Cause} (hpinned : Pinned tail)
    (hindent : head.indent = base)
    (hput : ∀ inner body, Block (base + indentStep) inner body → body ≠ [] →
      ∃ stmts, Block base (head :: (inner ++ [])) stmts)
    (hfirst : ∀ tail' failure', readChild head keyword base tail' = .error failure' →
      readStatement base head tail' = .error failure')
    (h : readChild head keyword base tail = .error failure)
    (hfault : failure.fault = .at number cause) : Refused base (head :: tail) failure.fault := by
  have hbefore : ∃ good body, Block base ([] ++ [good]) body := ⟨_, _, block_plainLine base⟩
  refine refused_of_readChild hbefore (fun hbody => hpinned _ _ _ _ hbody hfault) ?_ ?_ h
  · intro inner body hinner hne
    obtain ⟨stmts, hblock⟩ := hput inner body hinner hne
    rw [List.append_nil] at hblock
    exact ⟨stmts, hblock⟩
  · rintro tail' fault ⟨routes, hfails⟩
    exact .of_statement hindent ⟨routes, hfirst _ _ hfails⟩

/-- A statement that is refused at a line, given that this holds of shorter lines. -/
theorem refused_of_readStatement {base : Int} {head : Line} {tail : List Line} {failure : Failure}
    {number : Int} {cause : Cause} (hpinned : ∀ lines : List Line, lines <:+ tail → Pinned lines)
    (hindent : head.indent = base) (h : readStatement base head tail = .error failure)
    (hfault : failure.fault = .at number cause) : Refused base (head :: tail) failure.fault := by
  have hbefore : ∃ good body, Block base ([] ++ [good]) body := ⟨_, _, block_plainLine base⟩
  rw [readStatement_eq] at h
  cases hheader : readHeader head with
  | error fault =>
      simp only [hheader, Except.error.injEq] at h
      subst h
      subst hfault
      refine ⟨[], head, tail, rfl, ⟨cause, by rw [cites_of_readHeader hheader]⟩, ?_, hbefore⟩
      intro next more _
      refine .of_statement hindent ⟨[], ?_⟩
      simp only [readStatement_eq, hheader]
  | ok header =>
      simp only [hheader] at h
      cases header with
      | display value => simp at h
      | assign name value => simp at h
      | when event =>
          cases hchild : readChild head "when" base tail with
          | ok r => simp [hchild] at h
          | error f =>
              simp only [hchild, Except.error.injEq] at h
              subst h
              refine refused_of_opening (hpinned tail (List.suffix_refl tail)) hindent ?_ ?_ hchild
                hfault
              · exact fun _ _ hinner hne => ⟨_, .when ⟨hindent, hheader⟩ hinner hne (.nil base)⟩
              · intro tail' failure' hfails
                simp only [readStatement_eq, hheader, hfails]
      | branch test =>
          cases hchild : readChild head "if" base tail with
          | error f =>
              simp only [hchild, Except.error.injEq] at h
              subst h
              refine refused_of_opening (hpinned tail (List.suffix_refl tail)) hindent ?_ ?_ hchild
                hfault
              · exact fun _ _ hinner hne => ⟨_, .branch ⟨hindent, hheader⟩ hinner hne (.nil base)⟩
              · intro tail' failure' hfails
                simp only [readStatement_eq, hheader, hfails]
          | ok r =>
              obtain ⟨body, mid⟩ := r
              obtain ⟨hbody, hne⟩ := readChild_eq_ok_iff.1 hchild
              obtain ⟨used, rfl, hblock, -⟩ := block_of_readBlock _ _ _ _ hbody
              simp only [hchild] at h
              cases halt : readAlternative base mid with
              | ok r => simp [halt] at h
              | error f =>
                  simp only [halt, Except.error.injEq] at h
                  subst h
                  -- the first block was read whole, so that the line is found in the alternative
                  obtain ⟨opener, rest, rfl, helse, hother⟩ := exists_of_readAlternative_error halt
                  have hsuffix : rest <:+ used ++ opener :: rest :=
                    (List.suffix_cons opener rest).trans (List.suffix_append used _)
                  have hbefore' : ∃ good stmts, Block base (head :: used ++ [good]) stmts :=
                    ⟨_, _, .branch ⟨hindent, hheader⟩ hblock hne (block_plainLine base)⟩
                  change Refused base (head :: used ++ opener :: rest) f.fault
                  refine refused_of_readChild hbefore'
                    (fun hbody' => hpinned rest hsuffix _ _ _ _ hbody' hfault) ?_ ?_ hother
                  · intro inner elseBody hinner hne'
                    have hwhole := Block.branchElse ⟨hindent, hheader⟩ hblock hne helse hinner hne'
                      (.nil base)
                    rw [List.append_nil] at hwhole
                    exact ⟨_, hwhole⟩
                  · rintro tail' fault ⟨routes, hfails⟩
                    have hif := readChild_of_readBlock head "if"
                      (hblock.readBlock_append (helse.ends tail')) hne
                    have helse' : opener.indent = base ∧ isElse opener = true := helse
                    rw [List.cons_append]
                    refine .of_statement hindent ⟨Stmt.routesOf body ++ routes, ?_⟩
                    simp only [readStatement_eq, hheader, hif, readAlternative_cons, if_pos helse',
                      hfails, Failure.after]
      | route name =>
          cases hopen : blockFault? head "route" base tail with
          | some fault =>
              simp only [hopen, Except.error.injEq] at h
              subst h
              apply refused_of_blockFault hbefore _ _ hopen
              · exact exists_block_route ⟨hindent, hheader⟩ .nil rfl
              · intro tail' hopen'
                refine .of_statement hindent ⟨[], ?_⟩
                simp only [readStatement_eq, hheader, hopen']
          | none =>
              simp only [hopen] at h
              cases hoptions : readOptions (base + indentStep) { name := name } tail with
              | ok r => simp [hoptions] at h
              | error fault =>
                  simp only [hoptions, Except.error.injEq] at h
                  subst h
                  subst hfault
                  exact refused_of_readOptions ⟨hindent, hheader⟩ hopen hoptions

/-- **What is refused at a line is refused by a look at the next one**, and what comes before can be
completed. -/
theorem refused_of_readBlock (lines : List Line) : Pinned lines := by
  -- on the number of lines, as for blocks that are read
  induction hn : lines.length using Nat.strongRecOn generalizing lines with
  | _ n ih =>
      intro base failure number cause h hfault
      cases lines with
      | nil => simp at h
      | cons head tail =>
          rw [List.length_cons] at hn
          rw [readBlock_cons] at h
          by_cases hless : head.indent < base
          · simp [if_pos hless] at h
          rw [if_neg hless] at h
          by_cases hmore : base < head.indent
          · rw [if_pos hmore, Except.error.injEq] at h
            subst h
            refine ⟨[], head, tail, rfl, ⟨_, rfl⟩, ?_, _, _, block_plainLine base⟩
            intro next more _
            refine ⟨[], ?_⟩
            rw [List.nil_append, readBlock_cons, if_neg hless, if_pos hmore]
          rw [if_neg hmore] at h
          have hindent : head.indent = base := by omega
          have hshort : ∀ lines : List Line, lines <:+ tail → Pinned lines := by
            intro lines hsuffix
            have hlength := hsuffix.length_le
            exact ih lines.length (by omega) lines rfl
          cases hstmt : readStatement base head tail with
          | error f =>
              simp only [hstmt, Except.error.injEq] at h
              subst h
              exact refused_of_readStatement hshort hindent hstmt hfault
          | ok r =>
              obtain ⟨stmt, rest⟩ := r
              obtain ⟨used, rfl, hlocal⟩ := readStatement_local hindent hstmt
              obtain ⟨used', hused, hput⟩ :=
                block_of_readStatement (fun lines _ => block_of_readBlock lines) hindent hstmt
              obtain rfl := List.append_cancel_right hused
              cases hrest : readBlock base rest with
              | ok r => simp [hstmt, hrest] at h
              | error f =>
                  simp only [hstmt, hrest, Except.error.injEq] at h
                  subst h
                  -- the first statement is read in the same way before any lines that start alike
                  obtain ⟨pre, line, post, rfl, hrefused⟩ :=
                    hshort rest (List.suffix_append used rest) _ _ _ _ hrest hfault
                  refine ⟨head :: used ++ pre, line, post, by simp, hrefused.within _ ?_ ?_⟩
                  · intro next more hfails
                    exact .of_rest hindent (hlocal _ (head?_append_cons pre line _ _)) hfails
                  · intro good body hblock
                    exact ⟨_, hput _ _ hblock⟩

end Grammar

/-! ### Programs -/

namespace Program

open Parse Grammar

/-- Lines that are refused as a block at indent zero are refused as a program. -/
theorem exists_ofLines_of_fails {lines : List Line} {fault : Fault}
    (h : Fails fault (readBlock 0 lines)) :
    ∃ failure, ofLines lines = .error failure ∧ failure.fault = fault := by
  obtain ⟨routes, h⟩ := h
  exact ⟨⟨fault, routes⟩, by rw [ofLines, h], rfl⟩

/-- What is refused at a line: which line that is, that only the next one matters, and that the
lines before it can be completed. -/
theorem exists_of_ofLines_at {lines : List Line} {failure : Failure} {number : Int} {cause : Cause}
    (h : ofLines lines = .error failure) (hfault : failure.fault = .at number cause) :
    ∃ pre line post, lines = pre ++ line :: post ∧ number = line.number ∧
      (∀ next more, post.head? = some next → ∃ failure',
        ofLines (pre ++ line :: next :: more) = .error failure' ∧
          failure'.fault = failure.fault) ∧
      ∃ more program, ofLines (pre ++ more) = .ok program := by
  rw [ofLines] at h
  cases hread : readBlock 0 lines with
  | error f =>
      simp only [hread, Except.error.injEq] at h
      subst h
      obtain ⟨pre, line, post, rfl, ⟨⟨cause', hcites⟩, hahead, good, body, hblock⟩⟩ :=
        refused_of_readBlock lines 0 f number cause hread hfault
      have hnumber : number = line.number := by
        rw [hcites, Fault.at.injEq] at hfault
        exact hfault.1.symm
      refine ⟨pre, line, post, rfl, hnumber, ?_, [good], ⟨body⟩, hblock.ofLines_eq⟩
      intro next more hnext
      exact exists_ofLines_of_fails (hahead next more hnext)
  | ok r =>
      obtain ⟨body, left⟩ := r
      cases left with
      | nil => simp [hread] at h
      | cons line left =>
          -- the block before the line was read whole, and so it is before any other lines
          simp only [hread, Except.error.injEq] at h
          subst h
          obtain ⟨used, rfl, hblock, hends⟩ := block_of_readBlock _ _ _ _ hread
          have hnumber : number = line.number := by
            rw [Fault.at.injEq] at hfault
            exact hfault.1.symm
          refine ⟨used, line, left, rfl, hnumber, ?_, [], ⟨body⟩, ?_⟩
          · intro next more _
            have hends' : Ends 0 (line :: next :: more) := hends.congr rfl
            refine ⟨⟨.at line.number (.extraInput line.text), Stmt.routesOf body⟩, ?_, rfl⟩
            rw [ofLines, hblock.readBlock_append hends']
          · rw [List.append_nil]
            exact hblock.ofLines_eq

/-- A line with the number of another one, where all numbers differ, stands in its place. -/
theorem eq_length_of_number_eq {pre post : List Line} {line line' : Line} {i : Nat}
    (hnumbers : ((pre ++ line :: post).map Line.number).Nodup)
    (hline : (pre ++ line :: post)[i]? = some line') (hsame : line'.number = line.number) :
    i = pre.length := by
  have hi : ((pre ++ line :: post).map Line.number)[i]? = some line.number := by
    rw [List.getElem?_map, hline, Option.map_some, hsame]
  have hpre : ((pre ++ line :: post).map Line.number)[pre.length]? = some line.number := by
    simp
  have hlt : i < ((pre ++ line :: post).map Line.number).length :=
    (List.getElem?_eq_some_iff.1 hi).1
  exact (List.getElem?_inj hlt hnumbers).1 (by rw [hi, hpre])

/-- **The fault of a source is found with one line of lookahead, and the lines before it are the
start of a program.**  If lines, no two of one number, are refused at the line with index `i`, then
all lines that agree with them up to the line behind it are refused with the same fault, and the
lines before it can be completed to a program. -/
theorem ofLines_lookahead {lines : List Line} (hnumbers : (lines.map Line.number).Nodup) {i : Nat}
    {line : Line} (hline : lines[i]? = some line) {failure : Failure} {cause : Cause}
    (h : ofLines lines = .error failure) (hfault : failure.fault = .at line.number cause) :
    (i + 1 < lines.length → ∀ lines', lines'.take (i + 2) = lines.take (i + 2) →
      ∃ failure', ofLines lines' = .error failure' ∧ failure'.fault = failure.fault) ∧
    ∃ more program, ofLines (lines.take i ++ more) = .ok program := by
  obtain ⟨pre, line', post, rfl, hnumber, hahead, hviable⟩ := exists_of_ofLines_at h hfault
  obtain rfl := eq_length_of_number_eq hnumbers hline hnumber
  refine ⟨?_, by rw [List.take_left]; exact hviable⟩
  intro hnext lines' hagree
  cases post with
  | nil => simp at hnext
  | cons next post =>
      have htake : (pre ++ line' :: next :: post).take (pre.length + 2) = pre ++ [line', next] := by
        rw [List.take_length_add_append]
        rfl
      have hlines' : lines' = pre ++ line' :: next :: lines'.drop (pre.length + 2) := by
        conv_lhs => rw [← List.take_append_drop (pre.length + 2) lines', hagree, htake]
        simp
      rw [hlines']
      exact hahead next _ rfl

/-- A route plan without options in the block of an event rule. -/
def bareRoute : List Line :=
  [⟨3, 0, "when e", "when e"⟩, ⟨5, 2, "route r", "  route r"⟩, ⟨7, 2, "show x", "  show x"⟩]

/-- The header of the plan is refused when the line behind it is seen. -/
theorem ofLines_bareRoute :
    ofLines bareRoute = .error ⟨.at 5 (.missingBlock "route"), []⟩ := by
  have hwhen : readHeader ⟨3, 0, "when e", "when e"⟩ = .ok (.when "e") := rfl
  have hroute : readHeader ⟨5, 2, "route r", "  route r"⟩ = .ok (.route "r") := rfl
  have hread : readBlock 0 bareRoute = .error ⟨.at 5 (.missingBlock "route"), []⟩ := by
    simp [bareRoute, readBlock_cons, readStatement_eq, hwhen, hroute, readChild_eq, blockFault?,
      indentStep]
  rw [ofLines, hread]

/-- It is refused whatever follows that line, and the event rule can be completed. -/
theorem ofLines_lookahead_bareRoute :
    (∀ lines', lines'.take 3 = bareRoute →
      ∃ failure, ofLines lines' = .error failure ∧ failure.fault = .at 5 (.missingBlock "route")) ∧
    ∃ more program, ofLines (⟨3, 0, "when e", "when e"⟩ :: more) = .ok program := by
  have hnumbers : (bareRoute.map Line.number).Nodup := by decide
  have hline : bareRoute[1]? = some ⟨5, 2, "route r", "  route r"⟩ := rfl
  obtain ⟨hahead, hviable⟩ := ofLines_lookahead hnumbers hline ofLines_bareRoute rfl
  exact ⟨hahead (by decide), hviable⟩

end Program

end Waymark
