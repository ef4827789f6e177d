/-
**Programs from either form.**

A program is given as a source in the line form or as a JSON text.  Reading a source is traced:
how many significant lines there are, which route plans were complete, and how many statements
stand on the top level.

Main definitions:

* `Fault` — any reason why a program cannot be read or run;
* `Input` — a program in one of the two forms;
* `Input.load`, `Input.events` — the program that an input is, and the trace of reading it.
-/
import Waymark.Document.Load
import Waymark.Parse.Block
import Waymark.Run.Eval
import Waymark.Trace

set_option relaxedAutoImplicit false
set_option autoImplicit false

namespace Waymark

/-- Why a program cannot be read or run. -/
inductive Fault where
  | parse (fault : Parse.Fault)
  | document (fault : Document.Fault)
  | run (fault : Run.Fault)

/-- A program in one of its two forms. -/
inductive Input where
  /-- The line form. -/
  | source (text : String)
  /-- The JSON form. -/
  | document (text : String)

namespace Program

/-- What is recorded while a source is read. -/
def parseEvents (source : String) : List Event :=
  match Source.lines source with
  | .error _ => []
  | .ok lines =>
    match ofLines lines with
    | .error f => .linesRead lines.length :: f.routes.map .routeRead
    | .ok p =>
      .linesRead lines.length ::
        ((Stmt.routesOf p.body).map .routeRead ++ [.programRead p.body.length])

end Program

namespace Input

/-- The program that an input is. -/
def load (input : Input) : Except Fault Value :=
  match input with
  | .source text =>
    match Program.parse text with
    | .error f => .error (.parse f)
    | .ok p => .ok p.toValue
  | .document text =>
    match Document.readProgram text with
    | .error f => .error (.document f)
    | .ok p => .ok p

/-- What is recorded while an input is read. -/
def events (input : Input) : List Event :=
  match input with
  | .source text => Program.parseEvents text
  | .document _ => []

/-- Whether two programs are equal. -/
def same (a b : Input) : Except Fault Bool :=
  match a.load with
  | .error f => .error f
  | .ok p =>
    match b.load with
    | .error f => .error f
    | .ok q => .ok (p.same q)

end Input

end Waymark
