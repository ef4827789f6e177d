/-
**Sessions.**

A session is one environment, variables and an optional clock of its own, and one runner on it.  The
runner takes its clock when it is made: that of the environment, else that of the settings.  A later
change of the environment's clock is seen by the next runner only.  If neither has a clock, the
runner looks at the wall clock each time it needs the time.  The wall clock is taken to stand still
here, so that all these looks show one time, which is kept with the session.  A fresh runner starts
without shown values and route plans and keeps the variables.

Main definitions:

* `Session` — an environment and its runner;
* `Session.Step` — what may be done in a session;
* `Session.step` — what a step does, and its result;
* `Session.play` — what is told after each of several steps;
* `Job`, `Job.perform` — one program run in an environment of its own.
-/
import Waymark.Input
import Waymark.Run.Exec
import Waymark.Settings.Basic

set_option relaxedAutoImplicit false
set_option autoImplicit false

namespace Waymark

/-- The clock that a runner goes by: that of the environment, else that of the settings, else the
wall clock.  The first two are taken when the runner is made; the wall clock, which is looked at
whenever the time is needed, is taken to stand still. -/
def chooseClock (own fixed : Option Clock) (wall : Clock) : Clock :=
  match own with
  | some c => c
  | none =>
    match fixed with
    | some c => c
    | none => wall

/-- An environment and the runner on it. -/
structure Session where
  settings : Settings
  /-- What the wall clock shows, which stands still. -/
  wall : Clock
  /-- The clock of the environment, if it has one. -/
  own : Option Clock
  /-- The clock that the runner goes by. -/
  now : Clock
  /-- The variables, and what the runner did so far. -/
  state : Run.State

namespace Session

/-- What may be done in a session. -/
inductive Step where
  /-- Run a program. -/
  | run (input : Input)
  /-- Evaluate an expression. -/
  | eval (text : String)
  /-- Compare two atoms; the word of the operator need not be one. -/
  | compare (operator left right : String)
  | lookup (name : String)
  | bind (name : String) (value : Value)
  | unbind (name : String)
  /-- Change the clock of the environment. -/
  | setClock (own : Option Clock)
  /-- Make a new runner. -/
  | fresh

/-- A session on an empty environment. -/
def start (settings : Settings) (own : Option Clock) (wall : Clock) : Session :=
  { settings := settings, wall := wall, own := own,
    now := chooseClock own settings.now wall, state := {} }

/-- What stays fixed while the runner runs. -/
def context (s : Session) : Run.Context :=
  { now := s.now, echo := s.settings.echo }

/-- The value of an expression in a session. -/
def evalIn (s : Session) (expr : Value) : Except Fault Value :=
  match Run.eval s.now s.state.vars expr with
  | .error f => .error (.run f)
  | .ok v => .ok v

/-- A text read as an atom at the first line. -/
def atomAt (text : String) : Except Fault Expr :=
  match Parse.readAtom text.toList with
  | .error cause => .error (.parse (.at 1 cause))
  | .ok e => .ok e

/-- A text read as an expression at the first line. -/
def exprAt (text : String) : Except Fault Expr :=
  match Parse.readExpr text.toList with
  | .error cause => .error (.parse (.at 1 cause))
  | .ok e => .ok e

/-- The operator with the given word, or the word itself if there is none. -/
def operatorOf (word : String) : Value :=
  match Operator.ofWord? word with
  | some op => .operator op
  | none => .text word

/-- Run a program in a session. -/
def runIn (s : Session) (input : Input) : Session × Except Fault Value :=
  match input.load with
  | .error f => (s, .error f)
  | .ok program =>
    match Run.run s.context program s.state with
    | (state, some f) => ({ s with state := state }, .error (.run f))
    | (state, none) => ({ s with state := state }, .ok .null)

/-- Compare two atoms in a session. -/
def compareIn (s : Session) (operator left right : String) : Except Fault Value :=
  match atomAt left with
  | .error f => .error f
  | .ok l =>
    match atomAt right with
    | .error f => .error f
    | .ok r => evalIn s (.compareNode (operatorOf operator) l.toValue r.toValue)

/-- Change the variables of a session. -/
def withVars (s : Session) (vars : Bindings) : Session :=
  { s with state := { s.state with vars := vars } }

/-- What a step does, and its result. -/
def step (s : Session) (step : Step) : Session × Except Fault Value :=
  match step with
  | .run input => s.runIn input
  | .eval text =>
    match exprAt text with
    | .error f => (s, .error f)
    | .ok e => (s, s.evalIn e.toValue)
  | .compare operator left right => (s, s.compareIn operator left right)
  | .lookup name => (s, .ok (s.state.vars.lookup (.text name)))
  | .bind name value => (s.withVars (s.state.vars.bind (.text name) value), .ok .null)
  | .unbind name =>
    let bound :=
      match s.state.vars.get? (.text name) with
      | none => false
      | some .null => false
      | some _ => true
    (s.withVars (s.state.vars.erase (.text name)), .ok (.bool bound))
  | .setClock own => ({ s with own := own }, .ok .null)
  | .fresh =>
    ({ s with
        now := chooseClock s.own s.settings.now s.wall,
        state := { vars := s.state.vars } }, .ok .null)

/-- What is told after a step. -/
structure Report where
  result : Except Fault Value
  /-- The values that the runner has shown. -/
  shows : List Value
  vars : Bindings
  /-- The route plans that the runner has collected. -/
  plans : List Value
  /-- The lines that the step printed. -/
  printed : List (List Char)

/-- The name of a route plan that was collected. -/
def routeName (route : Value) : Value :=
  match route with
  | .node .route (name :: _) => name
  | _ => .null

/-- The names of the route plans that the runner has collected. -/
def Report.routes (r : Report) : List Value := r.plans.map routeName

/-- What is told after a step that took the session from `before` to `after`. -/
def report (before after : Session) (result : Except Fault Value) : Report :=
  { result := result, shows := after.state.shows, vars := after.state.vars,
    plans := after.state.routes,
    printed := after.state.printed.drop before.state.printed.length }

/-- What is told after each of several steps, done one after the other. -/
def play (s : Session) (steps : List Step) : List Report :=
  match steps with
  | [] => []
  | st :: steps =>
    let (after, result) := s.step st
    report s after result :: after.play steps

end Session

/-! ### One program in an environment of its own -/

/-- A program to run, and the environment to run it in. -/
structure Job where
  program : Value
  settings : Settings
  vars : Bindings := Bindings.empty
  /-- The clock of the environment, if it has one. -/
  own : Option Clock := none
  /-- What the wall clock shows, which stands still. -/
  wall : Clock := Clock.midnight
  /-- Whether shown values are handed to a listener. -/
  listener : Bool := false

/-- What stays fixed while a job runs; its listener, if there is one, takes every value. -/
def Job.context (job : Job) : Run.Context :=
  { now := chooseClock job.own job.settings.now job.wall,
    listener := if job.listener then some Run.Listener.patient else none,
    echo := job.settings.echo }

/-- Run a job. -/
def Job.perform (job : Job) : Run.Outcome :=
  Run.run job.context job.program { vars := job.vars }

end Waymark
