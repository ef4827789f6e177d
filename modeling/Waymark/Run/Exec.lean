/-
**Running programs.**

Statements run one after the other, those of a block before what follows it.  There is no loop and
no event system: the block of every event rule runs once, and route plans are collected, not solved.
A fault ends the run and leaves the state as it is at that point.

Main definitions:

* `Run.Listener` — who is handed shown values, and may fail on them;
* `Run.Context` — what stays fixed during a run: the clock, and what happens to shown values;
* `Run.State` — what a run changes;
* `Run.exec`, `Run.execAll`, `Run.execBody` — a statement, statements in order, and a block;
* `Run.run` — a whole program.
-/
import Waymark.Run.Eval
import Waymark.Trace

set_option relaxedAutoImplicit false
set_option autoImplicit false

namespace Waymark

namespace Run

/-- A listener, by what it does with a value after those that it was handed before: it takes the
value, or it fails for the reason that is given. -/
abbrev Listener : Type := List Value → Value → Option String

/-- The listener that takes every value. -/
def Listener.patient : Listener := fun _ _ => none

/-- What stays fixed during a run. -/
structure Context where
  /-- The clock that the word `time` reads. -/
  now : Clock
  /-- The listener that shown values are handed to, if there is one. -/
  listener : Option Listener := none
  /-- Whether shown values are printed if there is no listener. -/
  echo : Bool := false

/-- What a run changes. -/
structure State where
  vars : Bindings := Bindings.empty
  /-- The values that were shown. -/
  shows : List Value := []
  /-- The route plans that were collected. -/
  routes : List Value := []
  /-- The values that the listener was handed. -/
  heard : List Value := []
  /-- The lines that were printed. -/
  printed : List (List Char) := []
  /-- What was recorded. -/
  log : List Event := []

/-- The outcome of a step: the state after it, and the fault that ended it, if any. -/
abbrev Outcome : Type := State × Option Fault

namespace State

/-- Record an event. -/
def note (s : State) (e : Event) : State := { s with log := s.log ++ [e] }

/-- Record the names that the evaluation of an expression meets and that are not bound. -/
def noteUnbound (now : Clock) (s : State) (expr : Value) : State :=
  { s with log := s.log ++ (unboundNames now s.vars expr).map .unbound }

end State

/-- Printed lines as one text. -/
def outputOf (printed : List (List Char)) : String :=
  String.ofList (printed.flatMap (fun line => line ++ ['\n']))

/-! ### Statements -/

/-- Show a value: it is recorded, and then handed to the listener or printed. -/
def display (ctx : Context) (value : Value) (s : State) : Outcome :=
  let s := s.note (.shown value)
  let s := { s with shows := s.shows ++ [value] }
  match ctx.listener with
  | some listener =>
    ({ s with heard := s.heard ++ [value] }, (listener s.heard value).map .listenerFailed)
  | none =>
    if ctx.echo then
      match value.toText? with
      | none => (s, some .tooLarge)
      | some line => ({ s with printed := s.printed ++ [line] }, none)
    else (s, none)

/-- Evaluate an expression and go on with its value. -/
def withValue (ctx : Context) (expr : Value) (s : State) (next : Value → State → Outcome) :
    Outcome :=
  let s := s.noteUnbound ctx.now expr
  match eval ctx.now s.vars expr with
  | .error f => (s, some f)
  | .ok value => next value s

/-- Evaluate a test and go on with its truth. -/
def withTest (ctx : Context) (test : Value) (s : State) (next : Bool → State → Outcome) : Outcome :=
  withValue ctx test s fun value s =>
    match value.isTrue? with
    | none => (s, some .tooLarge)
    | some b => next b s

mutual

/-- Run a statement. -/
def exec (ctx : Context) (stmt : Value) (s : State) : Outcome :=
  match stmt with
  | .whenNode event body => execBody ctx body (s.note (.ruleStarted event))
  | .branchNode test thenBody elseBody =>
    withTest ctx test s fun holds s =>
      match holds with
      | true => execBody ctx thenBody s
      | false =>
        match elseBody with
        | .null => (s, none)
        | _ => execBody ctx elseBody s
  | .assignNode name value =>
    withValue ctx value s fun v s => ({ s with vars := s.vars.bind name v }, none)
  | .displayNode value => withValue ctx value s (display ctx)
  | .node .route (name :: fields) =>
    let s := s.note (.routeCollected name)
    ({ s with routes := s.routes ++ [.node .route (name :: fields)] }, none)
  | other => (s, some (.unknownStatement other.typeName))

/-- Run statements one after the other, up to the first fault. -/
def execAll (ctx : Context) (stmts : List Value) (s : State) : Outcome :=
  match stmts with
  | [] => (s, none)
  | stmt :: stmts =>
    match exec ctx stmt s with
    | (s, some f) => (s, some f)
    | (s, none) => execAll ctx stmts s

/-- Run a block.  A text in the place of a block has its characters for statements. -/
def execBody (ctx : Context) (body : Value) (s : State) : Outcome :=
  match body with
  | .block stmts => execAll ctx stmts s
  | .list stmts => execAll ctx stmts s
  | .text t => if t = "" then (s, none) else (s, some (.unknownStatement (Value.text t).typeName))
  | _ => (s, some .notIterable)

end

/-- Run a program, and record how much it did if it came to its end. -/
def run (ctx : Context) (program : Value) (s : State) : Outcome :=
  match program with
  | .programNode body =>
    match execBody ctx body s with
    | (s, some f) => (s, some f)
    | (s, none) => (s.note (.finished s.shows.length s.vars.size s.routes.length), none)
  | other => (s, some (.unknownStatement other.typeName))

end Run

end Waymark
