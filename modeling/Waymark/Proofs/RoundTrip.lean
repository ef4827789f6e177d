/-
**A written program is read back.**

A program is written with one row for each header, each line that opens an alternative and each route
option, one level deeper than the header it belongs to.  How a program is written is not determined:
letter case, quotes, numerals, the order of the options of a route plan and the line break at the end
are free.  This module shows that a program is read back from every source that is written for it, if
it is plain: what it holds has the form that lines can hold.

The proof goes through the block grammar: rows are significant lines, the lines of written rows are a
block, and a block is read whole.

Main definitions:

* `Route.IsListed` — options that list the parts of a route plan;
* `Route.IsPlain`, `Stmt.IsPlain`, `Program.IsPlain` — the programs that can be written;
* `Render.Block`, `Render.Source` — what is written for statements and for a program.

Main results:

* `Route.IsListed.ofOptions_eq` — listed options make the plan that they list;
* `Render.Block.block` — written rows are a block of the grammar;
* `Render.parse_source` — **a program is read back from every source that is written for it**.
-/
import Waymark.Proofs.Grammar
import Waymark.Proofs.Layout
import Waymark.Proofs.WrittenLine

set_option relaxedAutoImplicit false
set_option autoImplicit false

namespace Waymark

/-! ### Listed route plans -/

namespace Route

open Parse (RouteOption)
open Parse.RouteOption (Slot slot? slots avoidance? origin? destination? preference? stops?
  departure? arrival?)

/-- The options list the parts of a plan, in any order: each part that is there once, and the
avoidances in the order of their list.  A plan without avoidances has no list of them. -/
structure IsListed (plan : Route) (options : List RouteOption) : Prop where
  origin : options.filterMap origin? = plan.origin.toList
  destination : options.filterMap destination? = plan.destination.toList
  prefer : options.filterMap preference? = plan.prefer.toList
  avoid : plan.avoid = if options.filterMap avoidance? = [] then none
    else some (options.filterMap avoidance?)
  maxStops : options.filterMap stops? = plan.maxStops.toList
  departAt : options.filterMap departure? = plan.departAt.toList
  arriveBefore : options.filterMap arrival? = plan.arriveBefore.toList

/-- A plan that can be written: it says something, its name is an identifier, its places are plain
texts, its times are clock readings, and it names nothing twice that is to be avoided. -/
structure IsPlain (plan : Route) : Prop where
  name : Text.isIdentifier plan.name.toList = true
  not_empty : plan ≠ { name := plan.name }
  origin : ∀ place ∈ plan.origin, Text.IsPlain place
  destination : ∀ place ∈ plan.destination, Text.IsPlain place
  avoid : ∀ as ∈ plan.avoid, as.Nodup
  departAt : ∀ clock ∈ plan.departAt, Text.IsClock clock.toList
  arriveBefore : ∀ clock ∈ plan.arriveBefore, Text.IsClock clock.toList

/-- A list without duplicates is what is left of it without them. -/
theorem eraseDups_eq {named : List Avoidance} (h : named.Nodup) : named.eraseDups = named := by
  induction named with
  | nil => rfl
  | cons a named ih =>
      obtain ⟨hnot, hnodup⟩ := List.nodup_cons.1 h
      have hfilter : named.filter (fun b => !b == a) = named := by
        rw [List.filter_eq_self]
        intro b hb
        simpa using fun heq : b = a => hnot (heq ▸ hb)
      rw [List.eraseDups_cons, hfilter, ih hnodup]

/-- **Listed options make the plan that they list.** -/
theorem IsListed.ofOptions_eq {plan : Route} {options : List RouteOption}
    (h : plan.IsListed options) (hplain : plan.IsPlain) : ofOptions plan.name options = plan := by
  have havoid : avoidList (options.filterMap avoidance?) = plan.avoid := by
    have hnodup := hplain.avoid
    rw [h.avoid] at hnodup
    rw [h.avoid, avoidList]
    split
    · rfl
    · rename_i hne
      rw [if_neg hne] at hnodup
      rw [eraseDups_eq (hnodup _ rfl)]
  -- a part that is listed once is the first one that is found
  have hhead : ∀ {α : Type} (get? : RouteOption → Option α) (part : Option α),
      options.filterMap get? = part.toList → options.findSome? get? = part := by
    intro α get? part heq
    rw [← List.head?_filterMap, heq]
    cases part <;> rfl
  rw [ofOptions, havoid, hhead _ _ h.origin, hhead _ _ h.destination, hhead _ _ h.prefer,
    hhead _ _ h.maxStops, hhead _ _ h.departAt, hhead _ _ h.arriveBefore]

/-- How often options fill a slot. -/
theorem count_slots (options : List RouteOption) (slot : Slot) :
    (slots options).count slot =
      match slot with
      | .origin => (options.filterMap origin?).length
      | .destination => (options.filterMap destination?).length
      | .prefer => (options.filterMap preference?).length
      | .maxStops => (options.filterMap stops?).length
      | .departAt => (options.filterMap departure?).length
      | .arriveBefore => (options.filterMap arrival?).length := by
  induction options with
  | nil => cases slot <;> rfl
  | cons option options ih =>
      cases option <;> cases slot <;>
        simp_all [slots, slot?, origin?, destination?, preference?, stops?, departure?, arrival?,
          List.filterMap_cons]

/-- Listed options fill no slot twice. -/
theorem IsListed.nodup_slots {plan : Route} {options : List RouteOption}
    (h : plan.IsListed options) : (slots options).Nodup := by
  rw [List.nodup_iff_count_le_one]
  intro slot
  rw [count_slots]
  cases slot with
  | origin => rw [h.origin]; exact Option.length_toList_le
  | destination => rw [h.destination]; exact Option.length_toList_le
  | prefer => rw [h.prefer]; exact Option.length_toList_le
  | maxStops => rw [h.maxStops]; exact Option.length_toList_le
  | departAt => rw [h.departAt]; exact Option.length_toList_le
  | arriveBefore => rw [h.arriveBefore]; exact Option.length_toList_le

/-- The options that list a plain plan can be written. -/
theorem IsListed.isPlain {plan : Route} {options : List RouteOption} (h : plan.IsListed options)
    (hplain : plan.IsPlain) : ∀ option ∈ options, option.IsPlain := by
  have hpart : ∀ {α : Type} {get? : RouteOption → Option α} {part : Option α}
      {option : RouteOption} {value : α}, options.filterMap get? = part.toList →
      option ∈ options → get? option = some value → value ∈ part := by
    intro α get? part option value heq hmem hget
    refine Option.mem_toList.1 ?_
    rw [← heq]
    exact List.mem_filterMap.2 ⟨option, hmem, hget⟩
  intro option hmem
  cases option with
  | avoid a => trivial
  | origin place => exact hplain.origin place (hpart h.origin hmem rfl)
  | destination place => exact hplain.destination place (hpart h.destination hmem rfl)
  | prefer p => trivial
  | maxStops n => trivial
  | departAt clock => exact hplain.departAt clock (hpart h.departAt hmem rfl)
  | arriveBefore clock => exact hplain.arriveBefore clock (hpart h.arriveBefore hmem rfl)

/-- A plan that says something is listed by at least one option. -/
theorem IsListed.ne_nil {plan : Route} {options : List RouteOption} (h : plan.IsListed options)
    (hplain : plan.IsPlain) : options ≠ [] := by
  rintro rfl
  exact hplain.not_empty (h.ofOptions_eq hplain).symm

end Route

/-! ### Plain programs -/

namespace Stmt

mutual

/-- A statement that can be written: its header is plain, and the blocks it holds are plain and not
empty. -/
def IsPlain (s : Stmt) : Prop :=
  match s with
  | .when event body => Text.IsPhrase event.toList ∧ body ≠ [] ∧ ArePlain body
  | .branch test thenBody none => test.IsPlain ∧ thenBody ≠ [] ∧ ArePlain thenBody
  | .branch test thenBody (some elseBody) =>
    test.IsPlain ∧ (thenBody ≠ [] ∧ ArePlain thenBody) ∧ elseBody ≠ [] ∧ ArePlain elseBody
  | .display value => value.IsPlain
  | .assign name value => Text.isIdentifier name.toList = true ∧ value.IsPlain
  | .route plan => plan.IsPlain

/-- Statements that can all be written. -/
def ArePlain (body : List Stmt) : Prop :=
  match body with
  | [] => True
  | s :: body => IsPlain s ∧ ArePlain body

end

end Stmt

/-- A program that can be written. -/
def Program.IsPlain (program : Program) : Prop := Stmt.ArePlain program.body

/-! ### Written programs -/

namespace Render

open Parse (Header RouteOption indentStep)
open Layout (Row)
open Text (Spells)

/-- `Block depth rows stmts`: the rows, of which the outermost have the given depth, are written for
the statements. -/
inductive Block : Nat → List Row → List Stmt → Prop
  | nil (depth : Nat) : Block depth [] []
  | display {depth : Nat} {value : Expr} {head : List Char} {rest : List Row}
      {stmts : List Stmt} :
      HeaderLine (.display value) head → Block depth rest stmts →
      Block depth (⟨depth, head⟩ :: rest) (.display value :: stmts)
  | assign {depth : Nat} {name : String} {value : Expr} {head : List Char} {rest : List Row}
      {stmts : List Stmt} :
      HeaderLine (.assign name value) head → Block depth rest stmts →
      Block depth (⟨depth, head⟩ :: rest) (.assign name value :: stmts)
  | when {depth : Nat} {event : String} {head : List Char} {inner rest : List Row}
      {body stmts : List Stmt} :
      HeaderLine (.when event) head → Block (depth + 1) inner body → Block depth rest stmts →
      Block depth (⟨depth, head⟩ :: (inner ++ rest)) (.when event body :: stmts)
  | branch {depth : Nat} {test : Expr} {head : List Char} {inner rest : List Row}
      {body stmts : List Stmt} :
      HeaderLine (.branch test) head → Block (depth + 1) inner body → Block depth rest stmts →
      Block depth (⟨depth, head⟩ :: (inner ++ rest)) (.branch test body none :: stmts)
  | branchElse {depth : Nat} {test : Expr} {head opener : List Char} {inner other rest : List Row}
      {body elseBody stmts : List Stmt} :
      HeaderLine (.branch test) head → Block (depth + 1) inner body → Spells "else" opener →
      Block (depth + 1) other elseBody → Block depth rest stmts →
      Block depth (⟨depth, head⟩ :: (inner ++ ⟨depth, opener⟩ :: (other ++ rest)))
        (.branch test body (some elseBody) :: stmts)
  | route {depth : Nat} {plan : Route} {options : List RouteOption} {head : List Char}
      {texts : List (List Char)} {rest : List Row} {stmts : List Stmt} :
      HeaderLine (.route plan.name) head → plan.IsListed options →
      List.Forall₂ OptionLine options texts → Block depth rest stmts →
      Block depth (⟨depth, head⟩ :: (texts.map (Row.mk (depth + 1)) ++ rest))
        (.route plan :: stmts)

/-- `Source program source`: the source is written for the program, with or without a line break at
its end. -/
def Source (program : Program) (source : String) : Prop :=
  ∃ rows final, Block 0 rows program.body ∧ source = String.ofList (Layout.write final rows)

/-! ### Rows as lines of the grammar -/

theorem HeaderLine.isSignificant {header : Header} {head : List Char}
    (h : HeaderLine header head) (hplain : header.IsPlain) (depth : Nat) :
    Row.IsSignificant ⟨depth, head⟩ :=
  ⟨h.isPhrase hplain, h.head?_ne⟩

theorem OptionLine.isSignificant {option : RouteOption} {text : List Char}
    (h : OptionLine option text) (hplain : option.IsPlain) (depth : Nat) :
    Row.IsSignificant ⟨depth, text⟩ :=
  ⟨h.isPhrase hplain, h.head?_ne⟩

theorem isSignificant_else {opener : List Char} (h : Spells "else" opener) (depth : Nat) :
    Row.IsSignificant ⟨depth, opener⟩ := by
  refine ⟨h.isPhrase (by decide), ?_⟩
  have hhead := head?_ne_hash h (by decide) (by decide) []
  rw [List.append_nil] at hhead
  exact hhead

/-- A row that holds a written header is that header, at its indent. -/
theorem HeaderLine.headerAt {header : Header} {head : List Char} (h : HeaderLine header head)
    (hplain : header.IsPlain) (depth number : Nat) :
    Grammar.HeaderAt (2 * depth) (Row.line number ⟨depth, head⟩) header := by
  refine ⟨rfl, HeaderLine.readHeader_eq ?_ hplain⟩
  rw [Row.line, String.toList_ofList]
  exact h

/-- A row that opens an alternative does so at its indent. -/
theorem elseAt_spells {opener : List Char} (h : Spells "else" opener) (depth number : Nat) :
    Grammar.ElseAt (2 * depth) (Row.line number ⟨depth, opener⟩) := by
  refine ⟨rfl, isElse_spells ?_⟩
  rw [Row.line, String.toList_ofList]
  exact h

/-- Rows that hold written options are those options, one step deeper than their header. -/
theorem optionsAt {options : List RouteOption} {texts : List (List Char)}
    (h : List.Forall₂ OptionLine options texts) (hplain : ∀ option ∈ options, option.IsPlain)
    (depth number : Nat) :
    (∀ row ∈ texts.map (Row.mk (depth + 1)), row.IsSignificant) ∧
      List.Forall₂ (Grammar.OptionAt (2 * depth + indentStep))
        (Layout.numbered number (texts.map (Row.mk (depth + 1)))) options := by
  induction h generalizing number with
  | nil => exact ⟨by simp, .nil⟩
  | @cons option text options texts hline _ ih =>
      obtain ⟨hsignificant, hoptions⟩ :=
        ih (fun o ho => hplain o (List.mem_cons_of_mem option ho)) (number + 1)
      have hoption := hplain option List.mem_cons_self
      refine ⟨?_, .cons ⟨?_, ?_⟩ hoptions⟩
      · exact List.forall_mem_cons.2 ⟨hline.isSignificant hoption (depth + 1), hsignificant⟩
      · simp only [Row.line, indentStep]
        omega
      · refine OptionLine.readOption_eq ?_ hoption
        rw [Row.line, String.toList_ofList]
        exact hline

/-- One level of nesting is one step of indent. -/
theorem two_mul_succ (depth : Nat) :
    (2 * ((depth + 1 : Nat) : Int)) = 2 * (depth : Int) + indentStep := by
  rw [indentStep]
  omega

/-- **Written rows are a block of the grammar**, and none of them is skipped. -/
theorem Block.block {depth : Nat} {rows : List Row} {stmts : List Stmt}
    (h : Block depth rows stmts) (hplain : Stmt.ArePlain stmts) :
    (∀ row ∈ rows, row.IsSignificant) ∧
      ∀ number, Grammar.Block (2 * depth) (Layout.numbered number rows) stmts := by
  -- for every first number, since the rows of a block go on with the numbers of those before them
  induction h with
  | nil depth => exact ⟨by simp, fun _ => .nil _⟩
  | display hhead _ ih =>
      obtain ⟨hvalue, hrest⟩ := hplain
      obtain ⟨hsignificant, hblock⟩ := ih hrest
      refine ⟨List.forall_mem_cons.2 ⟨hhead.isSignificant hvalue _, hsignificant⟩, ?_⟩
      intro number
      exact .display (hhead.headerAt hvalue _ number) (hblock (number + 1))
  | assign hhead _ ih =>
      obtain ⟨hassign, hrest⟩ := hplain
      obtain ⟨hsignificant, hblock⟩ := ih hrest
      refine ⟨List.forall_mem_cons.2 ⟨hhead.isSignificant hassign _, hsignificant⟩, ?_⟩
      intro number
      exact .assign (hhead.headerAt hassign _ number) (hblock (number + 1))
  | when hhead _ _ ihbody ih =>
      obtain ⟨⟨hevent, hne, hbody⟩, hrest⟩ := hplain
      obtain ⟨hinner, hblock⟩ := ihbody hbody
      obtain ⟨hsignificant, hmore⟩ := ih hrest
      refine ⟨List.forall_mem_cons.2 ⟨hhead.isSignificant hevent _,
        List.forall_mem_append.2 ⟨hinner, hsignificant⟩⟩, ?_⟩
      intro number
      rw [Layout.numbered, Layout.numbered_append]
      rw [two_mul_succ] at hblock
      exact .when (hhead.headerAt hevent _ number) (hblock _) hne (hmore _)
  | branch hhead _ _ ihbody ih =>
      obtain ⟨⟨htest, hne, hbody⟩, hrest⟩ := hplain
      obtain ⟨hinner, hblock⟩ := ihbody hbody
      obtain ⟨hsignificant, hmore⟩ := ih hrest
      refine ⟨List.forall_mem_cons.2 ⟨hhead.isSignificant htest _,
        List.forall_mem_append.2 ⟨hinner, hsignificant⟩⟩, ?_⟩
      intro number
      rw [Layout.numbered, Layout.numbered_append]
      rw [two_mul_succ] at hblock
      exact .branch (hhead.headerAt htest _ number) (hblock _) hne (hmore _)
  | branchElse hhead _ hopener _ _ ihbody ihother ih =>
      obtain ⟨⟨htest, ⟨hne, hbody⟩, hne', hother⟩, hrest⟩ := hplain
      obtain ⟨hinner, hblock⟩ := ihbody hbody
      obtain ⟨hinner', hblock'⟩ := ihother hother
      obtain ⟨hsignificant, hmore⟩ := ih hrest
      refine ⟨List.forall_mem_cons.2 ⟨hhead.isSignificant htest _,
        List.forall_mem_append.2 ⟨hinner, List.forall_mem_cons.2 ⟨isSignificant_else hopener _,
          List.forall_mem_append.2 ⟨hinner', hsignificant⟩⟩⟩⟩, ?_⟩
      intro number
      rw [Layout.numbered, Layout.numbered_append, Layout.numbered, Layout.numbered_append]
      rw [two_mul_succ] at hblock hblock'
      exact .branchElse (hhead.headerAt htest _ number) (hblock _) hne (elseAt_spells hopener _ _)
        (hblock' _) hne' (hmore _)
  | @route depth plan options head texts rest stmts hhead hlisted htexts _ ih =>
      obtain ⟨hplan, hrest⟩ := hplain
      obtain ⟨hsignificant, hmore⟩ := ih hrest
      have hoptions := optionsAt htexts (hlisted.isPlain hplan) depth
      refine ⟨List.forall_mem_cons.2 ⟨hhead.isSignificant hplan.name _,
        List.forall_mem_append.2 ⟨(hoptions 0).1, hsignificant⟩⟩, ?_⟩
      intro number
      rw [Layout.numbered, Layout.numbered_append, ← hlisted.ofOptions_eq hplan]
      exact .route (hhead.headerAt hplan.name _ number) (hoptions _).2 (hlisted.ne_nil hplan)
        hlisted.nodup_slots (hmore _)

/-- **A program is read back from every source that is written for it.** -/
theorem parse_source {program : Program} {source : String} (hplain : program.IsPlain)
    (h : Source program source) : Program.parse source = .ok program := by
  obtain ⟨rows, final, hblock, rfl⟩ := h
  obtain ⟨hsignificant, hrows⟩ := hblock.block hplain
  rw [Program.parse, Layout.lines_write hsignificant]
  simp only [Grammar.Block.ofLines_eq (hrows 1)]

/-! ### A program with keywords for names -/

/-- A program in which names, events and texts are words of the language. -/
def errand : Program where
  body :=
    [.when "is not after"
      [.branch (.compare .isNot (.identifier "is") (.identifier "not"))
        [.display (.text "it's after")]
        (some [.assign "to" (.compare .after (.identifier "after") (.time "09:30"))])],
    .route
      { name := "set", origin := some "is", avoid := some [.traffic, .tolls], maxStops := some 7 }]

/-- Rows that are written for `errand`. -/
def errandRows : List Row :=
  [⟨0, "WHEN is not after".toList⟩, ⟨1, "If is Is NOT not".toList⟩,
    ⟨2, "show \"it's after\"".toList⟩, ⟨1, "ELSE".toList⟩,
    ⟨2, "set to TO after is After 09:30".toList⟩, ⟨0, "route set".toList⟩,
    ⟨1, "avoid TRAFFIC".toList⟩, ⟨1, "Max stops 007".toList⟩, ⟨1, "from 'is'".toList⟩,
    ⟨1, "Avoid tolls".toList⟩]

theorem errand_isPlain : errand.IsPlain := by
  have hevent : Text.IsPhrase "is not after".toList :=
    ⟨by decide, by decide, by decide, by decide⟩
  have htext : Text.IsPlain "it's after" := ⟨by decide, by decide, by decide, by decide⟩
  have hplace : Text.IsPlain "is" := ⟨by decide, by decide, by decide, by decide⟩
  have hclock : Text.IsClock "09:30".toList := ⟨'0', '9', '3', '0', rfl, by decide⟩
  have htest : Expr.IsPlain (.compare .isNot (.identifier "is") (.identifier "not")) :=
    ⟨⟨by decide, by decide, by decide⟩, ⟨by decide, by decide, by decide⟩⟩
  have hvalue : Expr.IsPlain (.compare .after (.identifier "after") (.time "09:30")) :=
    ⟨⟨by decide, by decide, by decide⟩, hclock⟩
  refine ⟨⟨hevent, by simp, ⟨htest, ⟨by simp, htext, trivial⟩, by simp, ⟨by decide, hvalue⟩,
    trivial⟩, trivial⟩, ?_, trivial⟩
  refine ⟨by decide, by decide, ?_, by simp, by decide, by simp, by simp⟩
  rintro place ⟨rfl⟩
  exact hplace

theorem errand_block : Block 0 errandRows errand.body := by
  have hwhen : Spells "when" "WHEN".toList := by decide
  have hevent : HeaderLine (.when "is not after") "WHEN is not after".toList := .when hwhen
  have hif : Spells "if" "If".toList := by decide
  have hnot : Comparison .isNot "Is NOT".toList := ⟨"is not", by decide, by decide⟩
  have htest : HeaderLine (.branch (.compare .isNot (.identifier "is") (.identifier "not")))
      "If is Is NOT not".toList :=
    .branch hif (.compare (.identifier "is") hnot (.identifier "not"))
  have hshow : Spells "show" "show".toList := by decide
  have htext : HeaderLine (.display (.text "it's after")) "show \"it's after\"".toList :=
    .display hshow (.atom (.text ⟨'"', by decide, by decide⟩))
  have helse : Spells "else" "ELSE".toList := by decide
  have hset : Spells "set" "set".toList := by decide
  have hto : Spells "to" "TO".toList := by decide
  have hafter : Comparison .after "is After".toList := ⟨"is after", by decide, by decide⟩
  have hvalue : HeaderLine (.assign "to" (.compare .after (.identifier "after") (.time "09:30")))
      "set to TO after is After 09:30".toList :=
    .assign hset hto (.compare (.identifier "after") hafter (.time "09:30"))
  have hword : Spells "route" "route".toList := by decide
  have hroute : HeaderLine (.route "set") "route set".toList := .route hword
  have hoptions : List.Forall₂ OptionLine
      [.avoid .traffic, .maxStops 7, .origin "is", .avoid .tolls]
      ["avoid TRAFFIC".toList, "Max stops 007".toList, "from 'is'".toList,
        "Avoid tolls".toList] := by
    have havoid : Spells "avoid" "avoid".toList := by decide
    have htraffic : Spells "traffic" "TRAFFIC".toList := by decide
    have hmax : Spells "max stops" "Max stops".toList := by decide
    have hdigits : "007".toList ≠ [] := by decide
    have hfrom : Spells "from" "from".toList := by decide
    have havoid' : Spells "avoid" "Avoid".toList := by decide
    have htolls : Spells "tolls" "tolls".toList := by decide
    refine .cons ?_ (.cons ?_ (.cons ?_ (.cons ?_ .nil)))
    · exact .avoid havoid htraffic
    · exact .maxStops hmax hdigits (by decide) (by decide)
    · exact .origin hfrom ⟨'\x27', by decide, by decide⟩
    · exact .avoid havoid' htolls
  exact .when hevent
    (.branchElse htest (.display htext (.nil 2)) helse (.assign hvalue (.nil 2)) (.nil 1))
    (.route hroute ⟨rfl, rfl, rfl, rfl, rfl, rfl, rfl⟩ hoptions (.nil 0))

/-- The source that the rows make. -/
theorem errand_source :
    Source errand ("WHEN is not after\n  If is Is NOT not\n    show \"it's after\"\n  ELSE\n" ++
      "    set to TO after is After 09:30\nroute set\n  avoid TRAFFIC\n  Max stops 007\n" ++
      "  from 'is'\n  Avoid tolls\n") :=
  ⟨errandRows, true, errand_block, by decide +kernel⟩

/-- Words of comparisons are read as names and as text where they stand for these. -/
theorem parse_errand :
    errand.IsPlain ∧
      Program.parse
        ("WHEN is not after\n  If is Is NOT not\n    show \"it's after\"\n  ELSE\n" ++
          "    set to TO after is After 09:30\nroute set\n  avoid TRAFFIC\n  Max stops 007\n" ++
          "  from 'is'\n  Avoid tolls\n") = .ok errand :=
  ⟨errand_isPlain, parse_source errand_isPlain errand_source⟩

end Render

end Waymark
