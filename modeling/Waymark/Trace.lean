/-
**The trace of reading and running.**

What happens while a source is read and a program is run is recorded as a list of events.  Each
event belongs to a channel and has a message.

Main definitions:

* `Event` — what may be recorded;
* `Event.channel`, `Event.message` — how an event is shown.
-/
import Waymark.Value.Basic

set_option relaxedAutoImplicit false
set_option autoImplicit false

namespace Waymark

/-- What may be recorded. -/
inductive Event where
  /-- A source was cut into so many significant lines. -/
  | linesRead (count : Nat)
  /-- A route plan was read. -/
  | routeRead (route : Route)
  /-- A program with so many statements on the top level was read. -/
  | programRead (count : Nat)
  /-- The block of an event rule is about to run. -/
  | ruleStarted (event : Value)
  /-- A value is shown. -/
  | shown (value : Value)
  /-- A route plan was collected. -/
  | routeCollected (name : Value)
  /-- A name is not bound. -/
  | unbound (name : Value)
  /-- A run came to its end. -/
  | finished (shows vars routes : Nat)

namespace Route

/-- The options of a route plan, other than avoidances, that are set, by name and in order. -/
def optionNames (r : Route) : List String :=
  (if r.arriveBefore.isSome then ["arrive_before"] else [])
    ++ (if r.departAt.isSome then ["depart_at"] else [])
    ++ (if r.destination.isSome then ["destination"] else [])
    ++ (if r.maxStops.isSome then ["max_stops"] else [])
    ++ (if r.origin.isSome then ["origin"] else [])
    ++ (if r.prefer.isSome then ["prefer"] else [])

end Route

namespace Event

/-- The level of every event. -/
def level : String := "DEBUG"

/-- The channel of an event. -/
def channel (e : Event) : String :=
  match e with
  | .linesRead _ => "flowlang.lang.parser.tokenize"
  | .routeRead _ => "flowlang.lang.parser.routes"
  | .programRead _ => "flowlang.lang.parser.parse"
  | _ => "flowlang.runtime.evaluator"

/-- A value in a message. -/
def inMessage (value : Value) : String := String.ofList value.literal

/-- The message of an event. -/
def message (e : Event) : String :=
  match e with
  | .linesRead count => "Tokenized " ++ toString count ++ " significant lines"
  | .routeRead r =>
    "Parsed route " ++ inMessage (.text r.name) ++ " with options "
      ++ inMessage (.list (r.optionNames.map .text))
  | .programRead count => "Parsed " ++ toString count ++ " top-level statements"
  | .ruleStarted event => "Running when block for event " ++ inMessage event
  | .shown value => "show " ++ inMessage value
  | .routeCollected name => "Collected route plan " ++ inMessage name
  | .unbound name => "Identifier " ++ inMessage name ++ " is unbound, using its name"
  | .finished shows vars routes =>
    "Run finished: " ++ toString shows ++ " shows, " ++ toString vars ++ " vars, "
      ++ toString routes ++ " routes"

end Event

end Waymark
