/-
**What holds of every program that is read.**

A program that is read from a source is more than a tree of the right type.  Blocks are not empty,
events are phrases, both sides of a comparison are atoms, identifiers are plain and no truth values,
times have the form of a clock reading, numbers are numbers, no text goes beyond its line, and route
plans say something.

These facts come from different readers.  The reader of lines trims texts and cuts them at line
breaks; the recognisers of single words give names and clocks their form; the reader of blocks asks
for a first line; and the options of a route plan are collected one by one.  Each is shown where it
arises, and the grammar of blocks carries them through the tree.

Main definitions:

* `Expr.WellFormed`, `Route.WellFormed`, `Stmt.WellFormed`, `Program.WellFormed` — what holds of the
  parts of a program that is read;
* `Program.strings` — all texts in a program.

Main results:

* `Parse.readExpr_wellFormed`, `Parse.readHeader_wellFormed`, `Parse.readOption_wellFormed` — what
  holds of what one line says;
* `Route.ofOptions_wellFormed` — what holds of a route plan;
* `Grammar.Block.wellFormed` — what holds of a block;
* `Program.WellFormed.no_break` — no text of such a program goes beyond its line;
* `Program.parse_wellFormed` — **what holds of every program that is read**.
-/
import Mathlib.Data.List.Induction
import Waymark.Proofs.Grammar
import Waymark.Proofs.SourceLine
import Waymark.Proofs.WrittenLine

set_option relaxedAutoImplicit false
set_option autoImplicit false

namespace Waymark

/-! ### Well-formed programs -/

/-- An expression as it is read: a text keeps to its line, a number is one, times and identifiers
have their form, and only atoms are compared. -/
def Expr.WellFormed (e : Expr) : Prop :=
  match e with
  | .text s => '\n' ∉ s.toList
  | .number x => x.isNaN = false
  | .boolean _ => True
  | .time s => Text.IsClock s.toList
  | .identifier name =>
    Text.isIdentifier name.toList = true ∧
      ¬ Text.Spells "true" name.toList ∧ ¬ Text.Spells "false" name.toList
  | .compare _ left right =>
    (left.isAtom = true ∧ left.WellFormed) ∧ right.isAtom = true ∧ right.WellFormed

/-- A route plan as it is read: it says something beyond its name, it names at least one thing if it
has a list of things to avoid, and none of them twice, and its times have the form of a clock
reading.  That a number of stops is not negative is part of its type. -/
structure Route.WellFormed (plan : Route) : Prop where
  name : '\n' ∉ plan.name.toList
  not_empty : plan ≠ { name := plan.name }
  origin : ∀ place ∈ plan.origin, '\n' ∉ place.toList
  destination : ∀ place ∈ plan.destination, '\n' ∉ place.toList
  avoid : ∀ as ∈ plan.avoid, as ≠ [] ∧ as.Nodup
  departAt : ∀ clock ∈ plan.departAt, Text.IsClock clock.toList
  arriveBefore : ∀ clock ∈ plan.arriveBefore, Text.IsClock clock.toList

namespace Stmt

mutual

/-- A statement as it is read: its event is a phrase, its blocks are not empty, and its parts are
well formed. -/
def WellFormed (s : Stmt) : Prop :=
  match s with
  | .when event body => Text.IsPhrase event.toList ∧ body ≠ [] ∧ AllWellFormed body
  | .branch test thenBody none => test.WellFormed ∧ thenBody ≠ [] ∧ AllWellFormed thenBody
  | .branch test thenBody (some elseBody) =>
    test.WellFormed ∧ (thenBody ≠ [] ∧ AllWellFormed thenBody) ∧
      elseBody ≠ [] ∧ AllWellFormed elseBody
  | .display value => value.WellFormed
  | .assign name value => '\n' ∉ name.toList ∧ value.WellFormed
  | .route plan => plan.WellFormed

/-- Statements that are all well formed. -/
def AllWellFormed (body : List Stmt) : Prop :=
  match body with
  | [] => True
  | s :: body => WellFormed s ∧ AllWellFormed body

end

end Stmt

/-- A program as it is read. -/
def Program.WellFormed (program : Program) : Prop := Stmt.AllWellFormed program.body

/-! ### The texts of a program -/

/-- The texts in an expression. -/
def Expr.strings (e : Expr) : List String :=
  match e with
  | .text s => [s]
  | .number _ => []
  | .boolean _ => []
  | .time s => [s]
  | .identifier name => [name]
  | .compare _ left right => left.strings ++ right.strings

/-- The texts in a route plan. -/
def Route.strings (plan : Route) : List String :=
  plan.name :: (plan.origin.toList ++ plan.destination.toList ++ plan.departAt.toList ++
    plan.arriveBefore.toList)

namespace Stmt

mutual

/-- The texts in a statement. -/
def strings (s : Stmt) : List String :=
  match s with
  | .when event body => event :: stringsOf body
  | .branch test thenBody none => test.strings ++ stringsOf thenBody
  | .branch test thenBody (some elseBody) =>
    test.strings ++ stringsOf thenBody ++ stringsOf elseBody
  | .display value => value.strings
  | .assign name value => name :: value.strings
  | .route plan => plan.strings

/-- The texts in several statements. -/
def stringsOf (body : List Stmt) : List String :=
  match body with
  | [] => []
  | s :: body => strings s ++ stringsOf body

end

end Stmt

/-- The texts in a program. -/
def Program.strings (program : Program) : List String := Stmt.stringsOf program.body

/-! ### No text goes beyond its line -/

theorem Expr.WellFormed.no_break {e : Expr} (h : e.WellFormed) :
    ∀ s ∈ e.strings, '\n' ∉ s.toList := by
  induction e with
  | text s => exact List.forall_mem_singleton.2 h
  | number x => simp [strings]
  | boolean b => simp [strings]
  | time s => simpa [strings] using (Render.isPhrase_clock h).no_break
  | identifier name => simpa [strings] using (Render.isPhrase_identifier h.1).no_break
  | compare op left right ihleft ihright =>
      obtain ⟨⟨-, hleft⟩, -, hright⟩ := h
      exact List.forall_mem_append.2 ⟨ihleft hleft, ihright hright⟩

theorem Route.WellFormed.no_break {plan : Route} (h : plan.WellFormed) :
    ∀ s ∈ plan.strings, '\n' ∉ s.toList := by
  have hclock : ∀ part : Option String, (∀ clock ∈ part, Text.IsClock clock.toList) →
      ∀ s ∈ part.toList, '\n' ∉ s.toList := by
    intro part hpart s hs
    exact (Render.isPhrase_clock (hpart s (Option.mem_toList.1 hs))).no_break
  simp only [strings, List.forall_mem_cons, List.forall_mem_append]
  refine ⟨h.name, ⟨⟨?_, ?_⟩, hclock _ h.departAt⟩, hclock _ h.arriveBefore⟩
  · exact fun s hs => h.origin s (Option.mem_toList.1 hs)
  · exact fun s hs => h.destination s (Option.mem_toList.1 hs)

namespace Stmt

mutual

theorem WellFormed.no_break {s : Stmt} (h : s.WellFormed) : ∀ t ∈ s.strings, '\n' ∉ t.toList := by
  match s with
  | .when event body =>
      obtain ⟨hevent, -, hbody⟩ := h
      exact List.forall_mem_cons.2 ⟨hevent.no_break, AllWellFormed.no_break hbody⟩
  | .branch test thenBody none =>
      obtain ⟨htest, -, hthen⟩ := h
      exact List.forall_mem_append.2 ⟨htest.no_break, AllWellFormed.no_break hthen⟩
  | .branch test thenBody (some elseBody) =>
      obtain ⟨htest, ⟨-, hthen⟩, -, helse⟩ := h
      have hfirst := List.forall_mem_append.2 ⟨htest.no_break, AllWellFormed.no_break hthen⟩
      exact List.forall_mem_append.2 ⟨hfirst, AllWellFormed.no_break helse⟩
  | .display value => exact Expr.WellFormed.no_break h
  | .assign name value =>
      obtain ⟨hname, hvalue⟩ := h
      exact List.forall_mem_cons.2 ⟨hname, hvalue.no_break⟩
  | .route plan => exact Route.WellFormed.no_break h

theorem AllWellFormed.no_break {body : List Stmt} (h : AllWellFormed body) :
    ∀ t ∈ stringsOf body, '\n' ∉ t.toList := by
  match body with
  | [] => simp [stringsOf]
  | s :: body =>
      obtain ⟨hs, hbody⟩ := h
      exact List.forall_mem_append.2 ⟨WellFormed.no_break hs, AllWellFormed.no_break hbody⟩

end

end Stmt

/-- **No text of a well-formed program goes beyond its line.** -/
theorem Program.WellFormed.no_break {program : Program} (h : program.WellFormed) :
    ∀ s ∈ program.strings, '\n' ∉ s.toList :=
  Stmt.AllWellFormed.no_break h

/-! ### What one line says -/

namespace Text

/-- What a recogniser finds behind a keyword, it finds behind the text that is written for it. -/
theorem afterWord_eq_some {α : Type} {word : String} {next : List Char → Option α}
    {cs : List Char} {found : α} (h : afterWord word next cs = some found) :
    ∃ written rest, cs = written ++ rest ∧ next rest = some found := by
  rw [afterWord] at h
  cases hword : dropWord? word.toList cs with
  | none => simp [hword] at h
  | some rest =>
      simp only [hword] at h
      obtain ⟨written, hcs, -⟩ := dropWord?_eq_some hword
      exact ⟨written, rest, hcs, h⟩

/-- The rest of a line has no line break. -/
theorem no_break_of_restOfLine? {cs line : List Char} (h : restOfLine? cs = some line) :
    '\n' ∉ line :=
  (restOfLine?_eq_some_iff.1 h).2.1

/-- What follows a keyword has no line break. -/
theorem no_break_of_argument? {cs found : List Char} (h : argument? cs = some found) :
    '\n' ∉ found := by
  rw [argument?, Option.map_eq_some_iff] at h
  obtain ⟨line, hline, rfl⟩ := h
  obtain ⟨blanks, rest, -, -, -, hrest⟩ := afterBlanks_eq_some hline
  intro hmem
  exact no_break_of_restOfLine? hrest (mem_of_mem_strip hmem)

/-- Where a text is split: the left part has no line break, and the separator is found behind it. -/
theorem splitAt?_eq_some {α : Type} {separator : List Char → Option α} {cs left : List Char}
    {found : α} (h : splitAt? separator cs = some (left, found)) :
    '\n' ∉ left ∧ ∃ rest, cs = left ++ rest ∧ separator rest = some found := by
  obtain ⟨-, hbreak, rest, hcs, hrest, -⟩ := splitAt?_shortest h
  exact ⟨hbreak, rest, hcs, hrest⟩

/-- What remains of the end of a phrase without outer blanks is a phrase. -/
theorem IsPhrase.strip_suffix {cs tail : List Char} (h : IsPhrase cs) (hsuffix : tail <:+ cs)
    (hne : tail ≠ []) : IsPhrase (strip tail) := by
  obtain ⟨pre, rfl⟩ := hsuffix
  have hbreak : '\n' ∉ tail := fun hmem => h.no_break (List.mem_append_right pre hmem)
  refine isPhrase_strip hbreak ?_
  cases hdrop : tail.dropWhile isBlank with
  | cons c rest =>
      obtain ⟨-, more, hstrip⟩ := exists_strip_eq hdrop
      rw [hstrip]
      exact List.cons_ne_nil c more
  | nil =>
      -- the last character of a phrase is not blank
      obtain ⟨front, c, rfl⟩ := (List.eq_nil_or_concat' tail).resolve_left hne
      have hsolid := h.ends c (by simp)
      have hblank := List.dropWhile_eq_nil_iff.1 hdrop c (by simp)
      rw [hblank] at hsolid
      simp at hsolid

/-- What follows a keyword in a phrase is a phrase. -/
theorem IsPhrase.isPhrase_argument? {cs rest found : List Char} (h : IsPhrase cs)
    (hsuffix : rest <:+ cs) (hfound : argument? rest = some found) : IsPhrase found := by
  rw [argument?, Option.map_eq_some_iff] at hfound
  obtain ⟨line, hline, rfl⟩ := hfound
  obtain ⟨blanks, tail, rfl, -, -, htail⟩ := afterBlanks_eq_some hline
  have htail' : tail <:+ cs := (List.suffix_append blanks tail).trans hsuffix
  have hne : tail ≠ [] := by
    rintro rfl
    simp [restOfLine?] at htail
  have hbreak : '\n' ∉ tail := fun hmem => h.no_break (htail'.mem hmem)
  rw [restOfLine?_eq hne hbreak, Option.some.injEq] at htail
  rw [← htail]
  exact h.strip_suffix htail' hne

/-- A name has no line break. -/
theorem no_break_of_name? {cs name rest : List Char} (h : name? cs = some (name, rest)) :
    '\n' ∉ name := by
  cases cs with
  | nil => simp [name?] at h
  | cons c cs =>
      rw [name?] at h
      split at h
      · rename_i hstart
        simp only [Option.some.injEq, Prod.mk.injEq] at h
        obtain ⟨rfl, -⟩ := h
        intro hmem
        rcases List.mem_cons.1 hmem with rfl | hmem
        · exact absurd hstart (by decide)
        · have hpart : isNamePart '\n' = true := List.mem_takeWhile_imp hmem
          exact absurd hpart (by decide)
      · simp at h

/-- A clock reading at the start of a text. -/
theorem clock?_eq_some {cs rest : List Char} {a b c d : Char}
    (h : clock? cs = some ((a, b, c, d), rest)) :
    cs = a :: b :: ':' :: c :: d :: rest ∧ ∀ x ∈ [a, b, c, d], x.isDigit = true := by
  unfold clock? at h
  split at h
  · split at h
    · rename_i hdigits
      simp only [Option.some.injEq, Prod.mk.injEq] at h
      obtain ⟨⟨rfl, rfl, rfl, rfl⟩, rfl⟩ := h
      simp only [Bool.and_eq_true] at hdigits
      obtain ⟨⟨⟨ha, hb⟩, hc⟩, hd⟩ := hdigits
      exact ⟨rfl, by simp [ha, hb, hc, hd]⟩
    · simp at h
  · simp at h

end Text

namespace Parse

/-! ### Expressions -/

theorem no_break_of_afterWords? {words : List String} {cs right : List Char}
    (h : afterWords? words cs = some right) : '\n' ∉ right := by
  induction words generalizing cs with
  | nil =>
      obtain ⟨blanks, rest, -, -, -, hrest⟩ := Text.afterBlanks_eq_some h
      exact Text.no_break_of_restOfLine? hrest
  | cons word words ih =>
      obtain ⟨blanks, rest, -, -, -, hrest⟩ := Text.afterBlanks_eq_some h
      obtain ⟨written, behind, -, hbehind⟩ := Text.afterWord_eq_some hrest
      exact ih hbehind

theorem no_break_of_afterSign? {sign : Char} {cs right : List Char}
    (h : afterSign? sign cs = some right) : '\n' ∉ right := by
  obtain ⟨blanks, behind, -, -, hbehind⟩ := Text.afterOptionalBlanks_eq_some h
  cases behind with
  | nil => simp at hbehind
  | cons c behind =>
      simp only at hbehind
      split at hbehind
      · obtain ⟨blanks', rest, -, -, hrest⟩ := Text.afterOptionalBlanks_eq_some hbehind
        exact Text.no_break_of_restOfLine? hrest
      · simp at hbehind

/-- Both sides of a comparison keep to their line. -/
theorem no_break_of_split? {cs left right : List Char} {op : Operator}
    (h : split? cs = some (left, op, right)) : '\n' ∉ left ∧ '\n' ∉ right := by
  obtain ⟨⟨separator, op'⟩, -, hfound⟩ := List.exists_of_findSome?_eq_some h
  simp only at hfound
  cases hsplit : Text.splitAt? separator.after? cs with
  | none => simp [hsplit] at hfound
  | some pair =>
      obtain ⟨left', right'⟩ := pair
      simp only [hsplit, Option.some.injEq, Prod.mk.injEq] at hfound
      obtain ⟨rfl, -, rfl⟩ := hfound
      obtain ⟨hleft, rest, -, hrest⟩ := Text.splitAt?_eq_some hsplit
      have hright : '\n' ∉ right' := by
        cases separator with
        | words words => exact no_break_of_afterWords? hrest
        | sign sign => exact no_break_of_afterSign? hrest
      exact ⟨fun hmem => hleft (Text.mem_of_mem_strip hmem),
        fun hmem => hright (Text.mem_of_mem_strip hmem)⟩

theorem mem_of_mem_unquote {cs : List Char} {c : Char} (h : c ∈ unquote cs) : c ∈ cs := by
  rw [unquote] at h
  split at h
  · exact List.mem_of_mem_tail ((List.dropLast_sublist _).mem h)
  · exact h

/-- A text that names no truth value is none in any letter case. -/
theorem not_spells_of_boolean? {cs : List Char} (h : boolean? cs = none) :
    ¬ Text.Spells "true" cs ∧ ¬ Text.Spells "false" cs := by
  constructor
  · intro htrue
    simp only [boolean?, htrue.dropWord?_eq, if_true] at h
    simp at h
  · intro hfalse
    simp only [boolean?, hfalse.dropWord?_eq, if_true] at h
    split at h <;> simp at h

/-- A numeral stands for a number. -/
theorem isNaN_of_number? {cs : List Char} {x : Double} (h : number? cs = some x) :
    x.isNaN = false := by
  rw [number?] at h
  split at h
  · obtain ⟨decimal, -, rfl⟩ := Option.map_eq_some_iff.1 h
    rfl
  · simp at h

/-- A text that counts as a clock reading is one. -/
theorem isClock_of_isClock {cs : List Char} (h : isClock cs = true) : Text.IsClock cs := by
  rw [isClock] at h
  split at h
  · rename_i digits hclock
    obtain ⟨a, b, c, d⟩ := digits
    obtain ⟨rfl, hdigits⟩ := Text.clock?_eq_some hclock
    exact ⟨a, b, c, d, rfl, hdigits⟩
  · simp at h

/-- **What holds of an atom that is read**: it is one, and well formed. -/
theorem atom?_wellFormed {cs : List Char} {e : Expr} (hbreak : '\n' ∉ cs) (h : atom? cs = some e) :
    e.isAtom = true ∧ e.WellFormed := by
  rw [atom?] at h
  by_cases hquoted : isQuoted cs = true
  · rw [if_pos hquoted, Option.some.injEq] at h
    subst h
    refine ⟨rfl, ?_⟩
    rw [Expr.WellFormed, String.toList_ofList]
    exact fun hmem => hbreak (mem_of_mem_unquote hmem)
  rw [if_neg hquoted] at h
  cases hbool : boolean? cs with
  | some b =>
      simp only [hbool, Option.some.injEq] at h
      subst h
      exact ⟨rfl, trivial⟩
  | none =>
      cases hnumber : number? cs with
      | some x =>
          simp only [hbool, hnumber, Option.some.injEq] at h
          subst h
          exact ⟨rfl, isNaN_of_number? hnumber⟩
      | none =>
          simp only [hbool, hnumber] at h
          by_cases hclock : isClock cs = true
          · rw [if_pos hclock, Option.some.injEq] at h
            subst h
            refine ⟨rfl, ?_⟩
            rw [Expr.WellFormed, String.toList_ofList]
            exact isClock_of_isClock hclock
          rw [if_neg hclock] at h
          by_cases hidentifier : Text.isIdentifier cs = true
          · rw [if_pos hidentifier, Option.some.injEq] at h
            subst h
            refine ⟨rfl, ?_⟩
            rw [Expr.WellFormed, String.toList_ofList]
            exact ⟨hidentifier, not_spells_of_boolean? hbool⟩
          · simp [hidentifier] at h

/-- What holds of an atom, with or without outer blanks. -/
theorem readAtom_wellFormed {cs : List Char} {e : Expr} (hbreak : '\n' ∉ cs)
    (h : readAtom cs = .ok e) : e.isAtom = true ∧ e.WellFormed := by
  simp only [readAtom] at h
  cases hatom : atom? (Text.strip cs) with
  | none => simp [hatom] at h
  | some e' =>
      simp only [hatom, Except.ok.injEq] at h
      subst h
      exact atom?_wellFormed (fun hmem => hbreak (Text.mem_of_mem_strip hmem)) hatom

/-- **What holds of an expression that is read.** -/
theorem readExpr_wellFormed {cs : List Char} {e : Expr} (hbreak : '\n' ∉ cs)
    (h : readExpr cs = .ok e) : e.WellFormed := by
  rw [readExpr] at h
  cases hsplit : split? cs with
  | none =>
      simp only [hsplit] at h
      exact (readAtom_wellFormed hbreak h).2
  | some parts =>
      obtain ⟨left, op, right⟩ := parts
      obtain ⟨hleft, hright⟩ := no_break_of_split? hsplit
      simp only [hsplit] at h
      cases hl : readAtom left with
      | error cause => simp [hl] at h
      | ok l =>
          cases hr : readAtom right with
          | error cause => simp [hl, hr] at h
          | ok r =>
              simp only [hl, hr, Except.ok.injEq] at h
              subst h
              exact ⟨readAtom_wellFormed hleft hl, readAtom_wellFormed hright hr⟩

/-! ### Headers and options -/

/-- A header as it is read. -/
def Header.WellFormed (header : Header) : Prop :=
  match header with
  | .when event => Text.IsPhrase event.toList
  | .branch test => test.WellFormed
  | .display value => value.WellFormed
  | .assign name value => '\n' ∉ name.toList ∧ value.WellFormed
  | .route name => '\n' ∉ name.toList

/-- A route option as it is read. -/
def RouteOption.WellFormed (option : RouteOption) : Prop :=
  match option with
  | .avoid _ => True
  | .origin place => '\n' ∉ place.toList
  | .destination place => '\n' ∉ place.toList
  | .prefer _ => True
  | .maxStops _ => True
  | .departAt clock => Text.IsClock clock.toList
  | .arriveBefore clock => Text.IsClock clock.toList

theorem isPhrase_of_argumentOf? {keyword : String} {cs found : List Char} (h : Text.IsPhrase cs)
    (hfound : argumentOf? keyword cs = some found) : Text.IsPhrase found := by
  obtain ⟨written, rest, rfl, hrest⟩ := Text.afterWord_eq_some hfound
  exact h.isPhrase_argument? (List.suffix_append written rest) hrest

theorem exprAt_wellFormed {line : Line} {cs : List Char} {e : Expr} (hbreak : '\n' ∉ cs)
    (h : exprAt line cs = .ok e) : e.WellFormed := by
  rw [exprAt] at h
  cases hexpr : readExpr cs with
  | error cause => simp [hexpr] at h
  | ok e' =>
      simp only [hexpr, Except.ok.injEq] at h
      exact h ▸ readExpr_wellFormed hbreak hexpr

/-- The parts of an assignment: a name, and an argument behind it. -/
theorem exists_of_assignment? {cs name value : List Char}
    (h : assignment? cs = some (name, value)) :
    ∃ tail behind rest, Text.name? tail = some (name, behind) ∧
      Text.argument? rest = some value := by
  obtain ⟨written, rest, -, hrest⟩ := Text.afterWord_eq_some h
  obtain ⟨blanks, tail, -, -, -, htail⟩ := Text.afterBlanks_eq_some hrest
  cases hname : Text.name? tail with
  | none => simp [hname] at htail
  | some parts =>
      obtain ⟨name', behind⟩ := parts
      simp only [hname] at htail
      cases hvalue : Text.afterBlanks (Text.afterWord "to" Text.argument?) behind with
      | none => simp [hvalue] at htail
      | some value' =>
          simp only [hvalue, Option.some.injEq, Prod.mk.injEq] at htail
          obtain ⟨rfl, rfl⟩ := htail
          obtain ⟨blanks', rest', -, -, -, hrest'⟩ := Text.afterBlanks_eq_some hvalue
          obtain ⟨written', tail', -, htail'⟩ := Text.afterWord_eq_some hrest'
          exact ⟨tail, behind, tail', hname, htail'⟩

/-- The name and the value of an assignment keep to their line. -/
theorem no_break_of_assignment? {cs name value : List Char}
    (h : assignment? cs = some (name, value)) : '\n' ∉ name ∧ '\n' ∉ value := by
  obtain ⟨tail, behind, rest, hname, hvalue⟩ := exists_of_assignment? h
  exact ⟨Text.no_break_of_name? hname, Text.no_break_of_argument? hvalue⟩

/-- The name of a route plan keeps to its line. -/
theorem no_break_of_routeName? {cs name : List Char} (h : routeName? cs = some name) :
    '\n' ∉ name := by
  obtain ⟨written, rest, -, hrest⟩ := Text.afterWord_eq_some h
  obtain ⟨blanks, tail, -, -, -, htail⟩ := Text.afterBlanks_eq_some hrest
  cases hname : Text.name? tail with
  | none => simp [hname] at htail
  | some parts =>
      obtain ⟨name', behind⟩ := parts
      simp only [hname] at htail
      split at htail
      · rw [Option.some.injEq] at htail
        exact htail ▸ Text.no_break_of_name? hname
      · simp at htail

section Lines

variable {line : Line} (hline : Text.IsPhrase line.text.toList)

include hline

theorem readWhen_wellFormed {header : Header} (h : readWhen line = .ok header) :
    header.WellFormed := by
  rw [readWhen] at h
  cases hargument : argumentOf? "when" line.text.toList with
  | none => simp [hargument] at h
  | some event =>
      simp only [hargument, Except.ok.injEq] at h
      subst h
      rw [Header.WellFormed, String.toList_ofList]
      exact isPhrase_of_argumentOf? hline hargument

/-- A header that holds the expression behind a keyword. -/
theorem argument_wellFormed {keyword : String} {test : List Char} {e : Expr}
    (hargument : argumentOf? keyword line.text.toList = some test)
    (h : exprAt line test = .ok e) : e.WellFormed :=
  exprAt_wellFormed (isPhrase_of_argumentOf? hline hargument).no_break h

theorem readIf_wellFormed {header : Header} (h : readIf line = .ok header) :
    header.WellFormed := by
  rw [readIf] at h
  cases hargument : argumentOf? "if" line.text.toList with
  | none => simp [hargument] at h
  | some test =>
      cases hexpr : exprAt line test with
      | error fault => simp [hargument, hexpr] at h
      | ok e =>
          simp only [hargument, hexpr, Except.ok.injEq] at h
          subst h
          exact argument_wellFormed hline hargument hexpr

theorem readShow_wellFormed {header : Header} (h : readShow line = .ok header) :
    header.WellFormed := by
  rw [readShow] at h
  cases hargument : argumentOf? "show" line.text.toList with
  | none => simp [hargument] at h
  | some value =>
      cases hexpr : exprAt line value with
      | error fault => simp [hargument, hexpr] at h
      | ok e =>
          simp only [hargument, hexpr, Except.ok.injEq] at h
          subst h
          exact argument_wellFormed hline hargument hexpr

omit hline in
theorem readSet_wellFormed {header : Header} (h : readSet line = .ok header) :
    header.WellFormed := by
  rw [readSet] at h
  cases hassign : assignment? line.text.toList with
  | none => simp [hassign] at h
  | some parts =>
      obtain ⟨name, value⟩ := parts
      obtain ⟨hname, hvalue⟩ := no_break_of_assignment? hassign
      cases hexpr : exprAt line value with
      | error fault => simp [hassign, hexpr] at h
      | ok e =>
          simp only [hassign, hexpr, Except.ok.injEq] at h
          subst h
          refine ⟨?_, exprAt_wellFormed hvalue hexpr⟩
          rwa [String.toList_ofList]

omit hline in
theorem readRoute_wellFormed {header : Header} (h : readRoute line = .ok header) :
    header.WellFormed := by
  rw [readRoute] at h
  cases hname : routeName? line.text.toList with
  | none => simp [hname] at h
  | some name =>
      simp only [hname, Except.ok.injEq] at h
      subst h
      rw [Header.WellFormed, String.toList_ofList]
      exact no_break_of_routeName? hname

/-- **What holds of a header that is read.** -/
theorem readHeader_wellFormed {header : Header} (h : readHeader line = .ok header) :
    header.WellFormed := by
  simp only [readHeader] at h
  split at h
  · exact readWhen_wellFormed hline h
  split at h
  · exact readIf_wellFormed hline h
  split at h
  · exact readShow_wellFormed hline h
  split at h
  · exact readSet_wellFormed h
  split at h
  · exact readRoute_wellFormed h
  · simp at h

/-- The place behind a keyword keeps to its line. -/
theorem readPlace_wellFormed {keyword : String} {text : List Char} {place : String}
    (hargument : argumentOf? keyword line.text.toList = some text)
    (h : readPlace line keyword text = .ok place) : '\n' ∉ place.toList := by
  rw [readPlace] at h
  cases hexpr : exprAt line text with
  | error fault => simp [hexpr] at h
  | ok e =>
      have hwell := argument_wellFormed hline hargument hexpr
      cases e with
      | text s =>
          simp only [hexpr, Except.ok.injEq] at h
          exact h ▸ hwell
      | _ => simp [hexpr] at h

theorem map_readPlace_wellFormed {keyword : String} {text : List Char} {option : RouteOption}
    {make : String → RouteOption} (hargument : argumentOf? keyword line.text.toList = some text)
    (hmake : ∀ place : String, '\n' ∉ place.toList → (make place).WellFormed)
    (h : (readPlace line keyword text).map make = .ok option) : option.WellFormed := by
  cases hplace : readPlace line keyword text with
  | error fault => simp [hplace, Except.map] at h
  | ok place =>
      simp only [hplace, Except.map, Except.ok.injEq] at h
      rw [← h]
      exact hmake place (readPlace_wellFormed hline hargument hplace)

omit hline in
/-- The clock reading behind two keywords is one. -/
theorem isClock_of_clockAfter? {first second : String} {cs clock : List Char}
    (h : clockAfter? first second cs = some clock) : Text.IsClock clock := by
  obtain ⟨written, rest, -, hrest⟩ := Text.afterWord_eq_some h
  obtain ⟨blanks, tail, -, -, -, htail⟩ := Text.afterBlanks_eq_some hrest
  obtain ⟨written', rest', -, hrest'⟩ := Text.afterWord_eq_some htail
  obtain ⟨blanks', tail', -, -, -, hclock⟩ := Text.afterBlanks_eq_some hrest'
  rw [lineClock?] at hclock
  cases hfound : Text.clock? tail' with
  | none => simp [hfound] at hclock
  | some parts =>
      obtain ⟨⟨a, b, c, d⟩, behind⟩ := parts
      obtain ⟨-, hdigits⟩ := Text.clock?_eq_some hfound
      simp only [hfound] at hclock
      split at hclock
      · rw [Option.some.injEq] at hclock
        exact ⟨a, b, c, d, hclock.symm, hdigits⟩
      · simp at hclock

/-- **What holds of a route option that is read.** -/
theorem readOption_wellFormed {option : RouteOption} (h : readOption line = .ok option) :
    option.WellFormed := by
  -- one case for each shape, in the order in which they are tried
  simp only [readOption] at h
  split at h
  · rw [readAvoidance] at h
    split at h
    · cases h
      trivial
    · simp at h
  split at h
  · rename_i text hfrom
    refine map_readPlace_wellFormed hline hfrom ?_ h
    exact fun place hplace => hplace
  split at h
  · rename_i text hto
    refine map_readPlace_wellFormed hline hto ?_ h
    exact fun place hplace => hplace
  split at h
  · rw [readPreference] at h
    split at h
    · cases h
      trivial
    · simp at h
  split at h
  · rw [readStops] at h
    split at h
    · simp at h
    · cases h
      trivial
  split at h
  · rename_i clock hclock
    cases h
    rw [RouteOption.WellFormed, String.toList_ofList]
    exact isClock_of_clockAfter? hclock
  split at h
  · rename_i clock hclock
    cases h
    rw [RouteOption.WellFormed, String.toList_ofList]
    exact isClock_of_clockAfter? hclock
  · simp at h

end Lines

end Parse

/-! ### Route plans -/

namespace Route

open Parse (RouteOption)
open Parse.RouteOption (avoidance? origin? destination? preference? stops? departure? arrival?)

/-- One more thing to avoid is added to the list, which then is not empty, unless it is there
already. -/
theorem nodup_avoiding (a : Avoidance) {avoid : Option (List Avoidance)}
    (h : ∀ as ∈ avoid, as ≠ [] ∧ as.Nodup) : avoiding a avoid ≠ [] ∧ (avoiding a avoid).Nodup := by
  cases avoid with
  | none => simp [avoiding]
  | some as =>
      obtain ⟨hne, hnodup⟩ := h as rfl
      rw [avoiding]
      split
      · exact ⟨hne, hnodup⟩
      · rename_i hnew
        refine ⟨by simp, ?_⟩
        exact List.nodup_append_comm.1 (List.nodup_cons.2 ⟨hnew, hnodup⟩)

/-- A list of things to avoid is not empty and names nothing twice. -/
theorem nodup_avoidList (named : List Avoidance) :
    ∀ as ∈ avoidList named, as ≠ [] ∧ as.Nodup := by
  induction named using List.reverseRecOn with
  | nil => simp [avoidList]
  | append_singleton named a ih =>
      rw [avoidList_concat]
      rintro as ⟨rfl⟩
      exact nodup_avoiding a ih

/-- A plan that options make says something, if there are any. -/
theorem ofOptions_ne {name : String} {options : List RouteOption} (hne : options ≠ []) :
    ofOptions name options ≠ { name := name } := by
  intro heq
  cases options with
  | nil => exact hne rfl
  | cons option options =>
      -- the part that the first option gives is there
      cases option with
      | avoid a =>
          exact absurd (congrArg Route.avoid heq) (by simp [ofOptions, avoidList, avoidance?])
      | origin place => exact absurd (congrArg Route.origin heq) (by simp [ofOptions, origin?])
      | destination place =>
          exact absurd (congrArg Route.destination heq) (by simp [ofOptions, destination?])
      | prefer p => exact absurd (congrArg Route.prefer heq) (by simp [ofOptions, preference?])
      | maxStops n => exact absurd (congrArg Route.maxStops heq) (by simp [ofOptions, stops?])
      | departAt clock =>
          exact absurd (congrArg Route.departAt heq) (by simp [ofOptions, departure?])
      | arriveBefore clock =>
          exact absurd (congrArg Route.arriveBefore heq) (by simp [ofOptions, arrival?])

/-- **What holds of the plan that options make.** -/
theorem ofOptions_wellFormed {name : String} {options : List RouteOption}
    (hname : '\n' ∉ name.toList) (hne : options ≠ [])
    (h : ∀ option ∈ options, option.WellFormed) : (ofOptions name options).WellFormed := by
  have hpart : ∀ {get? : RouteOption → Option String} {P : String → Prop},
      (∀ option value, option.WellFormed → get? option = some value → P value) →
      ∀ value ∈ options.findSome? get?, P value := by
    intro get? P hget value hvalue
    obtain ⟨option, hmem, hoption⟩ := List.exists_of_findSome?_eq_some hvalue
    exact hget option value (h option hmem) hoption
  refine ⟨hname, ofOptions_ne hne, hpart ?origin, hpart ?destination, nodup_avoidList _,
    hpart ?departAt, hpart ?arriveBefore⟩
  all_goals
    intro option value hoption hget
    cases option <;> cases hget
    exact hoption

end Route

/-! ### Blocks and programs -/

namespace Grammar

open Parse

/-- The options of a route block are well formed. -/
theorem optionsAt_wellFormed {indent : Int} {inner : List Line} {options : List RouteOption}
    (h : List.Forall₂ (OptionAt indent) inner options)
    (hinner : ∀ line ∈ inner, Text.IsPhrase line.text.toList) :
    ∀ option ∈ options, option.WellFormed := by
  induction h with
  | nil => simp
  | @cons line option inner options hline _ ih =>
      obtain ⟨hfirst, hrest⟩ := List.forall_mem_cons.1 hinner
      exact List.forall_mem_cons.2 ⟨readOption_wellFormed hfirst hline.2, ih hrest⟩

/-- **What holds of a block** whose lines are phrases. -/
theorem Block.wellFormed {base : Int} {lines : List Line} {stmts : List Stmt}
    (h : Block base lines stmts) (hlines : ∀ line ∈ lines, Text.IsPhrase line.text.toList) :
    Stmt.AllWellFormed stmts := by
  induction h with
  | nil base => trivial
  | display hd _ ih =>
      obtain ⟨hhead, hrest⟩ := List.forall_mem_cons.1 hlines
      exact ⟨readHeader_wellFormed hhead hd.2, ih hrest⟩
  | assign hd _ ih =>
      obtain ⟨hhead, hrest⟩ := List.forall_mem_cons.1 hlines
      exact ⟨readHeader_wellFormed hhead hd.2, ih hrest⟩
  | when hd _ hne _ ihbody ih =>
      obtain ⟨hhead, htail⟩ := List.forall_mem_cons.1 hlines
      obtain ⟨hinner, hrest⟩ := List.forall_mem_append.1 htail
      exact ⟨⟨readHeader_wellFormed hhead hd.2, hne, ihbody hinner⟩, ih hrest⟩
  | branch hd _ hne _ ihbody ih =>
      obtain ⟨hhead, htail⟩ := List.forall_mem_cons.1 hlines
      obtain ⟨hinner, hrest⟩ := List.forall_mem_append.1 htail
      exact ⟨⟨readHeader_wellFormed hhead hd.2, hne, ihbody hinner⟩, ih hrest⟩
  | branchElse hd _ hne _ _ hne' _ ihbody ihother ih =>
      obtain ⟨hhead, htail⟩ := List.forall_mem_cons.1 hlines
      obtain ⟨hinner, hmore⟩ := List.forall_mem_append.1 htail
      obtain ⟨-, hmore⟩ := List.forall_mem_cons.1 hmore
      obtain ⟨hother, hrest⟩ := List.forall_mem_append.1 hmore
      exact ⟨⟨readHeader_wellFormed hhead hd.2, ⟨hne, ihbody hinner⟩, hne', ihother hother⟩,
        ih hrest⟩
  | route hd hall hne _ _ ih =>
      obtain ⟨hhead, htail⟩ := List.forall_mem_cons.1 hlines
      obtain ⟨hinner, hrest⟩ := List.forall_mem_append.1 htail
      have hoptions := optionsAt_wellFormed hall hinner
      exact ⟨Route.ofOptions_wellFormed (readHeader_wellFormed hhead hd.2) hne hoptions, ih hrest⟩

end Grammar

namespace Program

/-- **What holds of every program that is read**: it is well formed at every depth, and none of its
texts goes beyond its line. -/
theorem parse_wellFormed {source : String} {program : Program} (h : parse source = .ok program) :
    program.WellFormed ∧ ∀ s ∈ program.strings, '\n' ∉ s.toList := by
  obtain ⟨lines, hlines, hblock⟩ := Grammar.parse_eq_ok_iff.1 h
  have hwell : program.WellFormed :=
    hblock.wellFormed fun line hline => Source.isPhrase_text hlines hline
  exact ⟨hwell, hwell.no_break⟩

/-- A conditional on the clock, and a route plan that names one thing twice. -/
theorem parse_wellFormed_detour :
    parse "if t after 08:00\n  route home\n    avoid tolls\n    AVOID Tolls" =
      .ok ⟨[.branch (.compare .after (.identifier "t") (.time "08:00"))
        [.route { name := "home", avoid := some [.tolls] }] none]⟩ ∧
    WellFormed ⟨[.branch (.compare .after (.identifier "t") (.time "08:00"))
      [.route { name := "home", avoid := some [.tolls] }] none]⟩ := by
  have hparse : parse "if t after 08:00\n  route home\n    avoid tolls\n    AVOID Tolls" =
      .ok ⟨[.branch (.compare .after (.identifier "t") (.time "08:00"))
        [.route { name := "home", avoid := some [.tolls] }] none]⟩ := by
    have hif : Grammar.HeaderAt 0 ⟨1, 0, "if t after 08:00", "if t after 08:00"⟩
        (.branch (.compare .after (.identifier "t") (.time "08:00"))) := ⟨rfl, rfl⟩
    have hroute : Grammar.HeaderAt 2 ⟨2, 2, "route home", "  route home"⟩ (.route "home") :=
      ⟨rfl, rfl⟩
    have hoptions : List.Forall₂ (Grammar.OptionAt 4)
        [⟨3, 4, "avoid tolls", "    avoid tolls"⟩, ⟨4, 4, "AVOID Tolls", "    AVOID Tolls"⟩]
        [.avoid .tolls, .avoid .tolls] := .cons ⟨rfl, rfl⟩ (.cons ⟨rfl, rfl⟩ .nil)
    have hinner := Grammar.Block.route hroute hoptions (List.cons_ne_nil _ _) (by decide) (.nil 2)
    have hblock := Grammar.Block.branch hif hinner (List.cons_ne_nil _ _) (.nil 0)
    exact Grammar.parse_eq_ok_iff.2 ⟨_, rfl, hblock⟩
  exact ⟨hparse, (parse_wellFormed hparse).1⟩

end Program

end Waymark
