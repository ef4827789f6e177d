/-
**Running one program after another.**

A run changes variables, shows values, collects route plans, and hands values to a listener or
prints them; beside that it keeps a record of what happened.  The record is written and never read:
whatever was recorded before a run only stands in front of what the run records itself.  That is
what makes it possible to say that two runs *do the same*, although one of them records more than
the other.

With it, running is compositional.  Statements that follow one another in one program do what they
do as two programs that are run one after the other, and a fault ends both in the same way.

Main definitions:

* `Run.State.behind`, `Run.Outcome.behind` — a state and an outcome with more recorded before;
* `Run.SameEffects` — outcomes that differ in what was recorded only;
* `Run.runBoth` — a program and then, unless it ends in a fault, another one.

Main results:

* `Run.exec_behind` — **the record is never read**;
* `Run.execAll_append` — statements one after the other;
* `Run.run_append` — **one program made of two does what the two do one after the other**;
* `Run.run_append_of_fault` — what follows a fault does not matter.
-/
import Waymark.Run.Exec

set_option relaxedAutoImplicit false
set_option autoImplicit false

namespace Waymark

namespace Run

/-! ### What was recorded before -/

/-- A state with more recorded before what it has recorded itself. -/
def State.behind (log : List Event) (s : State) : State := { s with log := log ++ s.log }

/-- An outcome with more recorded before what it has recorded itself. -/
def Outcome.behind (log : List Event) (o : Outcome) : Outcome := (o.1.behind log, o.2)

/-- A state is what it is without its record, behind its record. -/
theorem State.behind_log (s : State) : State.behind s.log { s with log := [] } = s := by
  rw [State.behind, List.append_nil]

section Record

variable (log : List Event)

theorem note_behind (s : State) (e : Event) : (s.behind log).note e = (s.note e).behind log := by
  simp only [State.note, State.behind, List.append_assoc]

theorem noteUnbound_behind (now : Clock) (s : State) (expr : Value) :
    (s.behind log).noteUnbound now expr = (s.noteUnbound now expr).behind log := by
  simp only [State.noteUnbound, State.behind, List.append_assoc]

theorem display_behind (ctx : Context) (value : Value) (s : State) :
    display ctx value (s.behind log) = Outcome.behind log (display ctx value s) := by
  simp only [display, note_behind]
  cases ctx.listener with
  | some listener => rfl
  | none =>
      simp only
      split
      · cases value.toText? with
        | none => rfl
        | some line => rfl
      · rfl

/-- An expression has the same value, and what follows goes on with it. -/
theorem withValue_behind (ctx : Context) (expr : Value) (s : State)
    {next : Value → State → Outcome}
    (hnext : ∀ value s, next value (s.behind log) = Outcome.behind log (next value s)) :
    withValue ctx expr (s.behind log) next = Outcome.behind log (withValue ctx expr s next) := by
  have hvars : ((s.noteUnbound ctx.now expr).behind log).vars =
      (s.noteUnbound ctx.now expr).vars := rfl
  simp only [withValue, noteUnbound_behind, hvars]
  cases eval ctx.now (s.noteUnbound ctx.now expr).vars expr with
  | error f => rfl
  | ok value => exact hnext value _

/-- A test has the same outcome, and what follows goes on with it. -/
theorem withTest_behind (ctx : Context) (test : Value) (s : State)
    {next : Bool → State → Outcome}
    (hnext : ∀ holds s, next holds (s.behind log) = Outcome.behind log (next holds s)) :
    withTest ctx test (s.behind log) next = Outcome.behind log (withTest ctx test s next) := by
  apply withValue_behind
  intro value s
  cases value.isTrue? with
  | none => rfl
  | some holds => exact hnext holds s

/-- **The record is never read**: a statement, a block and statements in order do the same behind
any record, which stands before what they record themselves. -/
theorem exec_behind (ctx : Context) :
    (∀ stmt s, exec ctx stmt (s.behind log) = Outcome.behind log (exec ctx stmt s)) ∧
    (∀ body s, execBody ctx body (s.behind log) = Outcome.behind log (execBody ctx body s)) ∧
    ∀ stmts s, execAll ctx stmts (s.behind log) = Outcome.behind log (execAll ctx stmts s) := by
  -- along the recursion of the three functions, one case for each of their equations
  refine exec.mutual_induct ctx _ _ _ ?when ?branch ?assign ?display ?route ?other ?block ?list
    ?blank ?text ?single ?nil ?fault ?cons
  case when =>
    intro s event body ih
    rw [exec, exec, note_behind, ih]
  case branch =>
    intro s test thenBody elseBody ihthen ihelse
    rw [exec, exec]
    apply withTest_behind
    intro holds s
    cases holds with
    | true => exact ihthen s
    | false =>
        simp only
        split
        · rfl
        · exact ihelse s
  case assign =>
    intro s name value
    rw [exec, exec]
    apply withValue_behind
    intro v s
    rfl
  case display =>
    intro s value
    rw [exec, exec]
    apply withValue_behind
    intro v s
    exact display_behind log ctx v s
  case route =>
    intro s name fields
    simp only [exec, note_behind]
    rfl
  case other =>
    intro s stmt hwhen hbranch hassign hdisplay hroute
    rw [exec, exec]
    · rfl
    all_goals assumption
  case block =>
    intro s stmts ih
    rw [execBody, execBody, ih]
  case list =>
    intro s stmts ih
    rw [execBody, execBody, ih]
  case blank =>
    intro s
    simp only [execBody]
    rfl
  case text =>
    intro s t ht
    simp only [execBody, if_neg ht]
    rfl
  case single =>
    intro body s hblock hlist htext
    rw [execBody, execBody]
    · rfl
    all_goals assumption
  case nil =>
    intro s
    rw [execAll, execAll]
    rfl
  case fault =>
    intro s stmt stmts s' f hstmt ih
    rw [execAll, execAll, ih, hstmt]
    rfl
  case cons =>
    intro s stmt stmts s' hstmt ih ihs
    rw [execAll, execAll, ih, hstmt]
    exact ihs

end Record

/-! ### Outcomes that differ in the record only -/

/-- Outcomes with the same effects: the same variables in the same order, the same shown values,
route plans, values handed to the listener and printed lines, and the same fault or none. -/
structure SameEffects (a b : Outcome) : Prop where
  vars : a.1.vars = b.1.vars
  shows : a.1.shows = b.1.shows
  routes : a.1.routes = b.1.routes
  heard : a.1.heard = b.1.heard
  printed : a.1.printed = b.1.printed
  fault : a.2 = b.2

theorem SameEffects.refl (o : Outcome) : SameEffects o o := ⟨rfl, rfl, rfl, rfl, rfl, rfl⟩

theorem SameEffects.symm {a b : Outcome} (h : SameEffects a b) : SameEffects b a where
  vars := h.vars.symm
  shows := h.shows.symm
  routes := h.routes.symm
  heard := h.heard.symm
  printed := h.printed.symm
  fault := h.fault.symm

theorem SameEffects.trans {a b c : Outcome} (h : SameEffects a b) (h' : SameEffects b c) :
    SameEffects a c where
  vars := h.vars.trans h'.vars
  shows := h.shows.trans h'.shows
  routes := h.routes.trans h'.routes
  heard := h.heard.trans h'.heard
  printed := h.printed.trans h'.printed
  fault := h.fault.trans h'.fault

/-- What was recorded before makes no difference. -/
theorem sameEffects_behind (log log' : List Event) (o : Outcome) :
    SameEffects (o.behind log) (o.behind log') := ⟨rfl, rfl, rfl, rfl, rfl, rfl⟩

/-- What never reads the record has the same effects from states that differ in it only. -/
theorem SameEffects.of_behind {f : State → Outcome}
    (hf : ∀ log s, f (s.behind log) = Outcome.behind log (f s)) {s t : State}
    (h : SameEffects (s, none) (t, none)) : SameEffects (f s) (f t) := by
  have hbare : ({ s with log := [] } : State) = { t with log := [] } := by
    rw [State.mk.injEq]
    exact ⟨h.vars, h.shows, h.routes, h.heard, h.printed, rfl⟩
  rw [← s.behind_log, ← t.behind_log, hf, hf, hbare]
  exact sameEffects_behind _ _ _

/-- A statement has the same effects from states that differ in the record only. -/
theorem SameEffects.exec (ctx : Context) (stmt : Value) {s t : State}
    (h : SameEffects (s, none) (t, none)) :
    SameEffects (Run.exec ctx stmt s) (Run.exec ctx stmt t) :=
  .of_behind (fun log => (exec_behind log ctx).1 stmt) h

/-- Statements have the same effects from states that differ in the record only. -/
theorem SameEffects.execAll (ctx : Context) (stmts : List Value) {s t : State}
    (h : SameEffects (s, none) (t, none)) :
    SameEffects (Run.execAll ctx stmts s) (Run.execAll ctx stmts t) :=
  .of_behind (fun log => (exec_behind log ctx).2.2 stmts) h

/-- Recording makes no difference. -/
theorem sameEffects_note (s : State) (e : Event) : SameEffects (s, none) (s.note e, none) :=
  ⟨rfl, rfl, rfl, rfl, rfl, rfl⟩

/-! ### One program after another -/

/-- Statements that follow others run from the state that those leave, unless a fault ended them. -/
theorem execAll_append (ctx : Context) (first second : List Value) (s : State) :
    execAll ctx (first ++ second) s =
      match execAll ctx first s with
      | (s, some f) => (s, some f)
      | (s, none) => execAll ctx second s := by
  induction first generalizing s with
  | nil => rw [List.nil_append, execAll]
  | cons stmt first ih =>
      rw [List.cons_append, execAll, execAll]
      cases exec ctx stmt s with
      | mk s' fault =>
          cases fault with
          | some f => rfl
          | none => exact ih s'

/-- Run a program and then, unless it ends in a fault, another one in the state that it leaves. -/
def runBoth (ctx : Context) (first second : Value) (s : State) : Outcome :=
  match run ctx first s with
  | (s, some f) => (s, some f)
  | (s, none) => run ctx second s

/-- At its end a program records how much it did, and has no other effect. -/
theorem sameEffects_run (ctx : Context) (stmts : List Value) (s : State) :
    SameEffects (run ctx (.programNode (.block stmts)) s) (execAll ctx stmts s) := by
  rw [run, execBody]
  cases execAll ctx stmts s with
  | mk s' fault =>
      cases fault with
      | some f => exact .refl _
      | none => exact ⟨rfl, rfl, rfl, rfl, rfl, rfl⟩

/-- **One program made of the statements of two does what the two do one after the other.** -/
theorem run_append (ctx : Context) (first second : List Value) (s : State) :
    SameEffects (run ctx (.programNode (.block (first ++ second))) s)
      (runBoth ctx (.programNode (.block first)) (.programNode (.block second)) s) := by
  refine (sameEffects_run ctx (first ++ second) s).trans ?_
  rw [execAll_append, runBoth, run, execBody]
  cases execAll ctx first s with
  | mk s' fault =>
      cases fault with
      | some f => exact .refl _
      | none =>
          -- between the two programs the end of the first one is recorded
          have hend := (sameEffects_note s'
            (.finished s'.shows.length s'.vars.size s'.routes.length)).execAll ctx second
          exact hend.trans (sameEffects_run ctx second _).symm

/-- **What follows a fault does not matter**: the outcome is that of the statements before it. -/
theorem run_append_of_fault (ctx : Context) (first second : List Value) {s : State} {fault : Fault}
    (h : (run ctx (.programNode (.block first)) s).2 = some fault) :
    run ctx (.programNode (.block (first ++ second))) s =
      run ctx (.programNode (.block first)) s := by
  rw [run, execBody] at h
  rw [run, run, execBody, execBody, execAll_append]
  cases hfirst : execAll ctx first s with
  | mk s' fault' =>
      cases fault' with
      | some f => rfl
      | none => simp [hfirst] at h

end Run

end Waymark
