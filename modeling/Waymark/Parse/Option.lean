/-
**Reading the options of a route plan.**

A route plan has one option on each line of its block.  Every option but `avoid` may be given once;
what is to be avoided is collected, each thing once, in the order in which it is first named.

Main definitions:

* `Parse.RouteOption` — what a line of a route block says;
* `Parse.readOption` — the option that a line is;
* `Route.add` — a route plan with one option more;
* `Parse.readOptions` — all options of a route block.
-/
import Waymark.Parse.Header

set_option relaxedAutoImplicit false
set_option autoImplicit false

namespace Waymark

namespace Parse

/-- What a line of a route block says. -/
inductive RouteOption where
  | avoid (avoidance : Avoidance)
  | origin (place : String)
  | destination (place : String)
  | prefer (preference : Preference)
  | maxStops (count : Nat)
  | departAt (clock : String)
  | arriveBefore (clock : String)
deriving DecidableEq

/-! ### The shapes of options -/

/-- The first of the given words that the rest of a line is, as it is written there. -/
def oneOf? (words : List String) (cs : List Char) : Option (List Char) :=
  words.findSome? fun word =>
    match Text.dropWord? word.toList cs with
    | some rest => if Text.atEnd rest then some (cs.take word.length) else none
    | none => none

/-- The word behind a keyword, one of the given ones. -/
def choice? (keyword : String) (words : List String) (cs : List Char) : Option (List Char) :=
  Text.afterWord keyword (Text.afterBlanks (oneOf? words)) cs

/-- The digits of a number of stops. -/
def stops? (cs : List Char) : Option (List Char) :=
  Text.afterWord "max"
    (Text.afterBlanks (Text.afterWord "stops" (Text.afterBlanks fun cs =>
      match Text.digits? cs with
      | some (ds, rest) => if Text.atEnd rest then some ds else none
      | none => none)))
    cs

/-- The clock reading that the rest of a line is. -/
def lineClock? (cs : List Char) : Option (List Char) :=
  match Text.clock? cs with
  | some ((a, b, c, d), rest) => if Text.atEnd rest then some [a, b, ':', c, d] else none
  | none => none

/-- The clock reading behind two keywords. -/
def clockAfter? (first second : String) (cs : List Char) : Option (List Char) :=
  Text.afterWord first
    (Text.afterBlanks (Text.afterWord second (Text.afterBlanks lineClock?))) cs

/-! ### The values of options -/

/-- The avoidance with the given word, which may hold folded letters. -/
def readAvoidance (word : List Char) : Except Fault RouteOption :=
  let lowered := String.ofList (Text.lower word)
  match Avoidance.ofWord? lowered with
  | some a => .ok (.avoid a)
  | none => .error (.foreignWord .avoidances lowered)

/-- The preference with the given word, which may hold folded letters. -/
def readPreference (word : List Char) : Except Fault RouteOption :=
  let lowered := String.ofList (Text.lower word)
  match Preference.ofWord? lowered with
  | some p => .ok (.prefer p)
  | none => .error (.foreignWord .preferences lowered)

/-- The place behind `keyword`, which must be a quoted text. -/
def readPlace (line : Line) (keyword : String) (cs : List Char) : Except Fault String :=
  match exprAt line cs with
  | .error f => .error f
  | .ok (.text place) => .ok place
  | .ok _ => .error (.at line.number (.placeNotQuoted keyword (String.ofList cs)))

/-- The number of stops with the given digits. -/
def readStops (ds : List Char) : Except Fault RouteOption :=
  if Numeral.maxDigits < ds.length then .error (.tooManyDigits ds.length)
  else .ok (.maxStops (Text.digitsValue ds))

/-- The fault of a line that is no route option. -/
def unknownOption (line : Line) : Fault :=
  match Keyword.suggest .option line.text with
  | .error _ => .noWord
  | .ok suggestion => .at line.number (.unknownOption line.text suggestion)

/-- The option that a line is. -/
def readOption (line : Line) : Except Fault RouteOption :=
  let cs := line.text.toList
  match choice? "avoid" (Avoidance.all.map Avoidance.word) cs with
  | some word => readAvoidance word
  | none =>
  match argumentOf? "from" cs with
  | some text => (readPlace line "from" text).map .origin
  | none =>
  match argumentOf? "to" cs with
  | some text => (readPlace line "to" text).map .destination
  | none =>
  match choice? "prefer" (Preference.all.map Preference.word) cs with
  | some word => readPreference word
  | none =>
  match stops? cs with
  | some ds => readStops ds
  | none =>
  match clockAfter? "depart" "at" cs with
  | some clock => .ok (.departAt (String.ofList clock))
  | none =>
  match clockAfter? "arrive" "before" cs with
  | some clock => .ok (.arriveBefore (String.ofList clock))
  | none => .error (unknownOption line)

end Parse

/-! ### Route plans from options -/

/-- The list of avoidances with one more, unless it is there already. -/
def Route.avoiding (a : Avoidance) (avoid : Option (List Avoidance)) : List Avoidance :=
  match avoid with
  | none => [a]
  | some as => if a ∈ as then as else as ++ [a]

/-- A route plan with one option more.  An option other than an avoidance that is there already is
refused, and the result is then the keyword of that option. -/
def Route.add (plan : Route) (option : Parse.RouteOption) : Except String Route :=
  match option with
  | .avoid a => .ok { plan with avoid := some (avoiding a plan.avoid) }
  | .origin place =>
    if plan.origin.isSome then .error "from" else .ok { plan with origin := some place }
  | .destination place =>
    if plan.destination.isSome then .error "to" else .ok { plan with destination := some place }
  | .prefer p =>
    if plan.prefer.isSome then .error "prefer" else .ok { plan with prefer := some p }
  | .maxStops n =>
    if plan.maxStops.isSome then .error "max stops" else .ok { plan with maxStops := some n }
  | .departAt t =>
    if plan.departAt.isSome then .error "depart at" else .ok { plan with departAt := some t }
  | .arriveBefore t =>
    if plan.arriveBefore.isSome then .error "arrive before"
    else .ok { plan with arriveBefore := some t }

namespace Parse

/-- A route plan with the option of one line more. -/
def addOption (plan : Route) (line : Line) : Except Fault Route :=
  match readOption line with
  | .error f => .error f
  | .ok option =>
    match plan.add option with
    | .error keyword => .error (.at line.number (.duplicateOption keyword))
    | .ok plan => .ok plan

/-- The options of a block at the given indent, added to a route plan, and the lines after it. -/
def readOptions (indent : Int) (plan : Route) (lines : List Line) :
    Except Fault (Route × List Line) :=
  match lines with
  | [] => .ok (plan, [])
  | line :: lines =>
    if line.indent < indent then .ok (plan, line :: lines)
    else if indent < line.indent then .error (.at line.number (.deeperOption indent line.indent))
    else
      match addOption plan line with
      | .error f => .error f
      | .ok plan => readOptions indent plan lines

/-- The lines after a route block are not more than those before it. -/
theorem length_le_of_readOptions {indent : Int} {plan plan' : Route} {lines rest : List Line}
    (h : readOptions indent plan lines = .ok (plan', rest)) : rest.length ≤ lines.length := by
  induction lines generalizing plan with
  | nil =>
    simp only [readOptions, Except.ok.injEq, Prod.mk.injEq] at h
    simp [← h.2]
  | cons line lines ih =>
    simp only [readOptions] at h
    split at h
    · simp only [Except.ok.injEq, Prod.mk.injEq] at h
      simp [← h.2]
    · split at h
      · simp at h
      · split at h
        · simp at h
        · exact Nat.le_succ_of_le (ih h)

end Parse

end Waymark
