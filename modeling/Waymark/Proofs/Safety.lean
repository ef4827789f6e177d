/-
**Programs that are read do not go wrong.**

A program that is read from a source is made of the nodes that the runner knows, and its values come
from few places: the literals of the program, the names of identifiers that are not bound, the
outcomes of comparisons and the variables it is given.  All of them have the coercions that
comparisons, tests and printing ask for, as long as the given whole numbers lie in the range of
doubles, so a run comes to its end.

The invariant says where the values of a state come from.  It is kept by every statement, and what it
says of a value is enough to evaluate with it.

Main definitions:

* `Expr.atoms`, `Stmt.atoms`, `Program.atoms` — the atoms that occur in a tree;
* `Run.Origin` — where a value may come from;
* `Run.Within` — the invariant: all values of a state satisfy a predicate.

Main results:

* `Run.exists_eval_eq` — an expression of a program has a value that comes from the same places;
* `Run.exec_safe` — one statement keeps the invariant and ends without a fault;
* `Run.perform_safe` — **a program that is read from a source runs to its end, and every value that it
  shows or leaves in a variable comes from the program, from a comparison or from a given variable**.
-/
import Waymark.Proofs.Grammar
import Waymark.Proofs.Range
import Waymark.Proofs.WrittenLine
import Waymark.Session

set_option relaxedAutoImplicit false
set_option autoImplicit false

namespace Waymark

/-! ### The atoms of a program -/

namespace Expr

/-- The atoms of an expression, from left to right. -/
def atoms (e : Expr) : List Expr :=
  match e with
  | .compare _ left right => left.atoms ++ right.atoms
  | e => [e]

/-- The value of a literal. -/
def literal? (e : Expr) : Option Value :=
  match e with
  | .text s => some (.text s)
  | .number x => some (.float x)
  | .boolean b => some (.bool b)
  | .time s => some (.text s)
  | .identifier _ => none
  | .compare _ _ _ => none

end Expr

namespace Stmt

mutual

/-- The atoms in a statement, in source order. -/
def atoms (s : Stmt) : List Expr :=
  match s with
  | .when _ body => atomsOf body
  | .branch test thenBody none => test.atoms ++ atomsOf thenBody
  | .branch test thenBody (some elseBody) => test.atoms ++ (atomsOf thenBody ++ atomsOf elseBody)
  | .display value => value.atoms
  | .assign _ value => value.atoms
  | .route _ => []

/-- The atoms in several statements, in source order. -/
def atomsOf (body : List Stmt) : List Expr :=
  match body with
  | [] => []
  | s :: body => atoms s ++ atomsOf body

end

end Stmt

/-- The atoms in a program, in source order. -/
def Program.atoms (program : Program) : List Expr := Stmt.atomsOf program.body

/-! ### Variables -/

namespace Bindings

/-- A value that is found is bound. -/
theorem exists_mem_of_getIn? {entries : List (Value × Value)} {name value : Value}
    (h : getIn? entries name = some value) : ∃ n, (n, value) ∈ entries := by
  induction entries with
  | nil => simp [getIn?] at h
  | cons entry entries ih =>
      obtain ⟨n, v⟩ := entry
      rw [getIn?] at h
      split at h
      · simp only [Option.some.injEq] at h
        exact ⟨n, by rw [h]; exact List.mem_cons_self⟩
      · obtain ⟨n', hmem⟩ := ih h
        exact ⟨n', List.mem_cons_of_mem _ hmem⟩

/-- What holds of the value that is bound and of the values that were there holds of all. -/
theorem forall_bindIn {P : Value → Prop} {entries : List (Value × Value)} {name value : Value}
    (hvalue : P value) (h : ∀ entry ∈ entries, P entry.2) :
    ∀ entry ∈ bindIn entries name value, P entry.2 := by
  induction entries with
  | nil => simpa [bindIn] using hvalue
  | cons entry entries ih =>
      obtain ⟨hentry, hentries⟩ := List.forall_mem_cons.1 h
      rw [bindIn]
      split
      · exact List.forall_mem_cons.2 ⟨hvalue, hentries⟩
      · exact List.forall_mem_cons.2 ⟨hentry, ih hentries⟩

end Bindings

namespace Run

/-! ### Where values come from -/

/-- `Origin atoms given v`: the value is a literal among the atoms, the name of an identifier among
them, a truth value, or the value of a given variable. -/
inductive Origin (atoms : List Expr) (given : Bindings) : Value → Prop
  | literal {e : Expr} {v : Value} : e ∈ atoms → e.literal? = some v → Origin atoms given v
  | name {name : String} : .identifier name ∈ atoms → Origin atoms given (.text name)
  | truth (b : Bool) : Origin atoms given (.bool b)
  | given {name v : Value} : (name, v) ∈ given.entries → Origin atoms given v

/-- The values of a state, shown or bound, all satisfy a predicate. -/
structure Within (P : Value → Prop) (s : State) : Prop where
  shows : ∀ v ∈ s.shows, P v
  vars : ∀ entry ∈ s.vars.entries, P entry.2

/-- The atoms supply a predicate: it holds of every literal and of every name among them. -/
structure Supplies (P : Value → Prop) (atoms : List Expr) : Prop where
  literal : ∀ e ∈ atoms, ∀ v, e.literal? = some v → P v
  name : ∀ name, .identifier name ∈ atoms → P (.text name)

theorem Supplies.left {P : Value → Prop} {atoms more : List Expr}
    (h : Supplies P (atoms ++ more)) : Supplies P atoms where
  literal e he := h.literal e (List.mem_append_left more he)
  name n hn := h.name n (List.mem_append_left more hn)

theorem Supplies.right {P : Value → Prop} {atoms more : List Expr}
    (h : Supplies P (atoms ++ more)) : Supplies P more where
  literal e he := h.literal e (List.mem_append_right atoms he)
  name n hn := h.name n (List.mem_append_right atoms hn)

/-- A predicate that is enough to run with: it holds of truth values, and only of values in range. -/
structure Suffices (P : Value → Prop) : Prop where
  range : ∀ v, P v → v.InRange
  truth : ∀ b, P (.bool b)

variable {P : Value → Prop}

/-! ### Expressions -/

/-- A comparison of values in range has an outcome. -/
theorem exists_compare_eq (hP : Suffices P) (now : Clock) (op : Operator) {a b : Value} (ha : P a)
    (hb : P b) :
    ∃ holds, compare now op a b = .ok holds := by
  have ha' := hP.range a ha
  have hb' := hP.range b hb
  have hby : ∀ {α : Type} (coerce : Value → Option α) (holds : α → α → Bool),
      (∃ x, coerce a = some x) → (∃ y, coerce b = some y) →
      ∃ outcome, compareBy coerce holds a b = .ok outcome := by
    rintro α coerce holds ⟨x, hx⟩ ⟨y, hy⟩
    exact ⟨holds x y, by rw [compareBy, hx]; simp only [hy]⟩
  cases op with
  | is => exact hby _ _ ha'.toText? hb'.toText?
  | isNot => exact hby _ _ ha'.toText? hb'.toText?
  | greater => exact hby _ _ ha'.toNumber? hb'.toNumber?
  | less => exact hby _ _ ha'.toNumber? hb'.toNumber?
  | after => exact hby _ _ (ha'.toMinutes? now) (hb'.toMinutes? now)
  | before => exact hby _ _ (ha'.toMinutes? now) (hb'.toMinutes? now)

/-- What an expression evaluates to satisfies what its atoms and the variables supply. -/
theorem eval_satisfies (htruth : ∀ b, P (.bool b)) {now : Clock} {vars : Bindings}
    (hvars : ∀ entry ∈ vars.entries, P entry.2) {e : Expr} (he : Supplies P e.atoms) {v : Value}
    (h : eval now vars e.toValue = .ok v) : P v := by
  cases e with
  | text s => cases h; exact he.literal (.text s) List.mem_cons_self _ rfl
  | number x => cases h; exact he.literal (.number x) List.mem_cons_self _ rfl
  | boolean b => cases h; exact htruth b
  | time s => cases h; exact he.literal (.time s) List.mem_cons_self _ rfl
  | identifier name =>
      -- a name that is not bound is its own value
      cases h
      rw [Bindings.lookup]
      cases hget : vars.get? (.text name) with
      | none => exact he.name name List.mem_cons_self
      | some v =>
          obtain ⟨n, hmem⟩ := Bindings.exists_mem_of_getIn? hget
          exact hvars (n, v) hmem
  | compare op left right =>
      -- a comparison has a truth value, whatever its sides are
      rw [Expr.toValue, eval] at h
      cases hleft : eval now vars left.toValue with
      | error f => simp [hleft] at h
      | ok a =>
          cases hright : eval now vars right.toValue with
          | error f => simp [hleft, hright] at h
          | ok b =>
              cases hholds : compare now op a b with
              | error f => simp [hleft, hright, compareValue, hholds] at h
              | ok holds =>
                  simp only [hleft, hright, compareValue, hholds, Except.ok.injEq] at h
                  exact h ▸ htruth holds

/-- **An expression has a value**, and the value satisfies what its atoms and the variables
supply. -/
theorem exists_eval_eq (hP : Suffices P) (now : Clock) {vars : Bindings}
    (hvars : ∀ entry ∈ vars.entries, P entry.2) {e : Expr} (he : Supplies P e.atoms) :
    ∃ v, eval now vars e.toValue = .ok v ∧ P v := by
  suffices hvalue : ∃ v, eval now vars e.toValue = .ok v by
    obtain ⟨v, hv⟩ := hvalue
    exact ⟨v, hv, eval_satisfies hP.truth hvars he hv⟩
  induction e with
  | compare op left right ihleft ihright =>
      obtain ⟨a, hleft⟩ := ihleft he.left
      obtain ⟨b, hright⟩ := ihright he.right
      have ha := eval_satisfies hP.truth hvars he.left hleft
      have hb := eval_satisfies hP.truth hvars he.right hright
      obtain ⟨holds, hcompare⟩ := exists_compare_eq hP now op ha hb
      refine ⟨.bool holds, ?_⟩
      rw [Expr.toValue, eval, hleft]
      simp only [hright, compareValue, hcompare]
  | _ => exact ⟨_, rfl⟩

/-! ### Statements -/

/-- Shown values are handed to no listener, or to one that takes every value. -/
def Context.IsPatient (ctx : Context) : Prop :=
  ∀ listener ∈ ctx.listener, ∀ heard value, listener heard value = none

theorem Within.note {s : State} (h : Within P s) (e : Event) : Within P (s.note e) :=
  ⟨h.shows, h.vars⟩

/-- An outcome without a fault, in a state whose values satisfy a predicate. -/
def Safe (P : Value → Prop) (outcome : Outcome) : Prop :=
  outcome.2 = none ∧ Within P outcome.1

/-- A value in range is shown, handed on or printed without a fault. -/
theorem display_safe (hP : Suffices P) {ctx : Context} (hctx : ctx.IsPatient) {v : Value}
    (hv : P v) {s : State} (hs : Within P s) : Safe P (display ctx v s) := by
  have hshows : ∀ x ∈ s.shows ++ [v], P x :=
    List.forall_mem_append.2 ⟨hs.shows, List.forall_mem_singleton.2 hv⟩
  rw [display]
  split
  · rename_i listener hlistener
    refine ⟨?_, hshows, hs.vars⟩
    simp only [hctx listener hlistener, Option.map_none]
  split
  · obtain ⟨text, htext⟩ := (hP.range v hv).toText?
    simp only [htext]
    exact ⟨rfl, hshows, hs.vars⟩
  · exact ⟨rfl, hshows, hs.vars⟩

/-- An expression is evaluated without a fault, and what follows it goes on with its value. -/
theorem withValue_safe (hP : Suffices P) (ctx : Context) {e : Expr} (he : Supplies P e.atoms)
    {s : State} (hs : Within P s) {next : Value → State → Outcome}
    (hnext : ∀ v s, P v → Within P s → Safe P (next v s)) :
    Safe P (withValue ctx e.toValue s next) := by
  obtain ⟨v, hv, hP⟩ := exists_eval_eq hP ctx.now hs.vars he
  have hs' : Within P (s.noteUnbound ctx.now e.toValue) := ⟨hs.shows, hs.vars⟩
  have hvars : (s.noteUnbound ctx.now e.toValue).vars = s.vars := rfl
  rw [withValue]
  simp only [hvars, hv]
  exact hnext v _ hP hs'

/-- A test is decided without a fault, and what follows it goes on with its truth. -/
theorem withTest_safe (hP : Suffices P) (ctx : Context) {e : Expr} (he : Supplies P e.atoms)
    {s : State} (hs : Within P s) {next : Bool → State → Outcome}
    (hnext : ∀ b s, Within P s → Safe P (next b s)) :
    Safe P (withTest ctx e.toValue s next) := by
  apply withValue_safe hP ctx he hs
  intro v s hv hs
  obtain ⟨holds, hholds⟩ := (hP.range v hv).isTrue?
  simp only [hholds]
  exact hnext holds s hs

/-- A variable is bound to a value of the same origin. -/
theorem Within.bind {s : State} (h : Within P s) (name : Value) {v : Value} (hv : P v) :
    Within P { s with vars := s.vars.bind name v } :=
  ⟨h.shows, Bindings.forall_bindIn hv h.vars⟩

mutual

/-- **One statement keeps the invariant and ends without a fault.** -/
theorem exec_safe (hP : Suffices P) {ctx : Context} (hctx : ctx.IsPatient) (stmt : Stmt)
    (hstmt : Supplies P stmt.atoms) {s : State} (hs : Within P s) :
    Safe P (exec ctx stmt.toValue s) := by
  -- one case for each kind of statement; the statements inside it are run from a state that is safe
  match stmt with
  | .when event body =>
      rw [Stmt.atoms] at hstmt
      rw [Stmt.toValue, exec, execBody]
      exact execAll_safe hP hctx body hstmt (hs.note _)
  | .branch test thenBody none =>
      rw [Stmt.atoms] at hstmt
      rw [Stmt.toValue, exec]
      apply withTest_safe hP ctx hstmt.left hs
      intro holds s hs
      cases holds with
      | true =>
          simp only [execBody]
          exact execAll_safe hP hctx thenBody hstmt.right hs
      | false => exact ⟨rfl, hs⟩
  | .branch test thenBody (some elseBody) =>
      rw [Stmt.atoms] at hstmt
      rw [Stmt.toValue, exec]
      apply withTest_safe hP ctx hstmt.left hs
      intro holds s hs
      cases holds with
      | true =>
          simp only [execBody]
          exact execAll_safe hP hctx thenBody hstmt.right.left hs
      | false =>
          simp only [execBody]
          exact execAll_safe hP hctx elseBody hstmt.right.right hs
  | .display value =>
      rw [Stmt.atoms] at hstmt
      rw [Stmt.toValue, exec]
      apply withValue_safe hP ctx hstmt hs
      intro v s hv hs
      exact display_safe hP hctx hv hs
  | .assign name value =>
      rw [Stmt.atoms] at hstmt
      rw [Stmt.toValue, exec]
      apply withValue_safe hP ctx hstmt hs
      intro v s hv hs
      exact ⟨rfl, hs.bind _ hv⟩
  | .route plan =>
      rw [Stmt.toValue, Route.toValue, exec]
      exact ⟨rfl, hs.shows, hs.vars⟩

/-- Statements one after the other keep the invariant and end without a fault. -/
theorem execAll_safe (hP : Suffices P) {ctx : Context} (hctx : ctx.IsPatient) (body : List Stmt)
    (hbody : Supplies P (Stmt.atomsOf body)) {s : State} (hs : Within P s) :
    Safe P (execAll ctx (Stmt.toValues body) s) := by
  match body with
  | [] =>
      rw [Stmt.toValues, execAll]
      exact ⟨rfl, hs⟩
  | stmt :: body =>
      rw [Stmt.atomsOf] at hbody
      obtain ⟨hnone, hnext⟩ := exec_safe hP hctx stmt hbody.left hs
      rw [Stmt.toValues, execAll]
      have hsplit : exec ctx stmt.toValue s = ((exec ctx stmt.toValue s).1, none) :=
        Prod.ext rfl hnone
      rw [hsplit]
      exact execAll_safe hP hctx body hbody.right hnext

end

/-- A program keeps the invariant and ends without a fault. -/
theorem run_safe (hP : Suffices P) {ctx : Context} (hctx : ctx.IsPatient) (program : Program)
    (hprogram : Supplies P program.atoms) {s : State} (hs : Within P s) :
    Safe P (run ctx program.toValue s) := by
  obtain ⟨hnone, hend⟩ := execAll_safe hP hctx program.body hprogram hs
  have hsplit : execAll ctx (Stmt.toValues program.body) s =
      ((execAll ctx (Stmt.toValues program.body) s).1, none) :=
    Prod.ext rfl hnone
  rw [Program.toValue, run, execBody, hsplit]
  exact ⟨rfl, hend.shows, hend.vars⟩

/-! ### Programs that are read -/

/-- The listener of a job, if it has one, takes every value. -/
theorem isPatient_context (job : Job) : job.context.IsPatient := by
  intro listener hlistener heard value
  simp only [Job.context] at hlistener
  split at hlistener
  · cases hlistener
    rfl
  · cases hlistener

/-- What comes from a program in which given values are in range is in range. -/
theorem Origin.inRange {atoms : List Expr} {given : Bindings}
    (hgiven : ∀ entry ∈ given.entries, entry.2.InRange) {v : Value} (h : Origin atoms given v) :
    v.InRange := by
  cases h with
  | @literal e v _ he =>
      cases e with
      | text s => cases he; trivial
      | number x => cases he; trivial
      | boolean b => cases he; trivial
      | time s => cases he; trivial
      | identifier name => cases he
      | compare op left right => cases he
  | name _ => trivial
  | truth b => trivial
  | given hmem => exact hgiven _ hmem

/-- **A program that is read from a source runs to its end**, with any settings and clocks, with or
without a listener and with any given variables in range; and every value that it shows or leaves in a
variable is a literal of the program, the name of an identifier in it, a truth value or a given
value. -/
theorem perform_safe {text : String} {program : Value}
    (hload : (Input.source text).load = .ok program) (settings : Settings) (given : Bindings)
    (hgiven : ∀ entry ∈ given.entries, entry.2.InRange) (own : Option Clock) (wall : Clock)
    (listener : Bool) :
    ∃ p : Program, Program.parse text = .ok p ∧ program = p.toValue ∧
      ∃ s : State,
        Job.perform
            { program := program, settings := settings, vars := given, own := own, wall := wall,
              listener := listener } = (s, none) ∧
        (∀ v ∈ s.shows, Origin p.atoms given v) ∧
        ∀ entry ∈ s.vars.entries, Origin p.atoms given entry.2 := by
  rw [Input.load] at hload
  cases hparse : Program.parse text with
  | error f => simp [hparse] at hload
  | ok p =>
      simp only [hparse, Except.ok.injEq] at hload
      -- the invariant is the provenance itself, which holds at the start and is enough to run with
      have hP : Suffices (Origin p.atoms given) :=
        ⟨fun v hv => hv.inRange hgiven, fun b => .truth b⟩
      have hsupplies : Supplies (Origin p.atoms given) p.atoms :=
        ⟨fun e he v hv => .literal he hv, fun name hname => .name hname⟩
      have hstart : Within (Origin p.atoms given) { vars := given } :=
        ⟨by simp, fun entry hentry => .given hentry⟩
      obtain ⟨hnone, hend⟩ := run_safe hP
        (isPatient_context
          { program := program, settings := settings, vars := given, own := own, wall := wall,
            listener := listener })
        p hsupplies hstart
      refine ⟨p, rfl, hload.symm, _, ?_, hend.shows, hend.vars⟩
      rw [Job.perform, ← hload]
      exact Prod.ext rfl hnone

/-- The source of the next theorem is a program. -/
theorem load_limit :
    (Input.source "if a > b\n  show a").load =
      .ok (Program.toValue
        ⟨[.branch (.compare .greater (.identifier "a") (.identifier "b"))
          [.display (.identifier "a")] none]⟩) := by
  have hname : ∀ name ∈ ["a", "b"], (Expr.identifier name).IsPlainAtom := by
    intro name hname
    rcases List.mem_pair.1 hname with rfl | rfl
    · exact ⟨by decide, by decide, by decide⟩
    · exact ⟨by decide, by decide, by decide⟩
  have hword : Text.Spells "if" "if".toList := by decide
  have hsign : Render.Comparison .greater ['>'] := ⟨">", by decide, by decide⟩
  have hif : Render.HeaderLine
      (.branch (.compare .greater (.identifier "a") (.identifier "b"))) "if a > b".toList :=
    .branch hword (.compare (.identifier "a") hsign (.identifier "b"))
  have hword' : Text.Spells "show" "show".toList := by decide
  have hshow : Render.HeaderLine (.display (.identifier "a")) "show a".toList :=
    .display hword' (.atom (.identifier "a"))
  have hlines : Source.lines "if a > b\n  show a" =
      .ok [⟨1, 0, "if a > b", "if a > b"⟩, ⟨2, 2, "show a", "  show a"⟩] := by
    rfl
  have hbody : Grammar.Block (0 + 2) [⟨2, 2, "show a", "  show a"⟩] [.display (.identifier "a")] :=
    .display ⟨rfl, Render.HeaderLine.readHeader_eq hshow (hname "a" (by decide))⟩ (.nil _)
  have hhead : Grammar.HeaderAt 0 ⟨1, 0, "if a > b", "if a > b"⟩
      (.branch (.compare .greater (.identifier "a") (.identifier "b"))) :=
    ⟨rfl, Render.HeaderLine.readHeader_eq hif ⟨hname "a" (by decide), hname "b" (by decide)⟩⟩
  have hblock := Grammar.Block.branch hhead hbody (by simp) (.nil 0)
  rw [List.append_nil] at hblock
  rw [Input.load, Program.parse, hlines]
  simp only [hblock.ofLines_eq]

/-- A comparison with the greatest whole number below the limit has an outcome. -/
theorem perform_limit :
    ∃ program, (Input.source "if a > b\n  show a").load = .ok program ∧
      (Job.perform
        { program := program, settings := {},
          vars := ⟨[(.text "a", .int (Int.ofNat (2 ^ 1024 - 2 ^ 970 - 1)))]⟩ }).2 = none := by
  have hgiven : ∀ entry ∈
      (⟨[(.text "a", .int (Int.ofNat (2 ^ 1024 - 2 ^ 970 - 1)))]⟩ : Bindings).entries,
      entry.2.InRange := by
    refine List.forall_mem_singleton.2 ?_
    change 2 ^ 1024 - 2 ^ 970 - 1 < 2 ^ 1024 - 2 ^ 970
    decide +kernel
  obtain ⟨p, -, -, s, hs, -⟩ := perform_safe load_limit {} _ hgiven none Clock.midnight false
  exact ⟨_, load_limit, by rw [hs]⟩

end Run

end Waymark
