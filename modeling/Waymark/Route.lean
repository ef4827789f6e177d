/-
**Route plans.**

A route plan is declarative: it names a route and says what a planner should keep to.  All parts
but the name are optional.

Main definitions:

* `Preference` — what a planner should optimise;
* `Avoidance` — what a planner should stay away from;
* `Route` — a route plan.
-/

set_option relaxedAutoImplicit false
set_option autoImplicit false

namespace Waymark

/-- What a planner should optimise. -/
inductive Preference where
  | shortestTime
  | shortestDistance
deriving DecidableEq

namespace Preference

/-- All preferences, in the order in which they are listed. -/
def all : List Preference := [.shortestTime, .shortestDistance]

/-- The word for a preference. -/
def word (p : Preference) : String :=
  match p with
  | .shortestTime => "shortest_time"
  | .shortestDistance => "shortest_distance"

/-- The name under which a preference is shown in messages. -/
def label (p : Preference) : String :=
  match p with
  | .shortestTime => "SHORTEST_TIME"
  | .shortestDistance => "SHORTEST_DISTANCE"

/-- The preference with the given word. -/
def ofWord? (word : String) : Option Preference :=
  all.find? (fun p => p.word == word)

@[simp] theorem ofWord?_word (p : Preference) : ofWord? p.word = some p := by
  cases p <;> rfl

end Preference

/-- What a planner should stay away from. -/
inductive Avoidance where
  | tolls
  | highways
  | traffic
deriving DecidableEq

namespace Avoidance

/-- All avoidances, in the order in which they are listed. -/
def all : List Avoidance := [.tolls, .highways, .traffic]

/-- The word for an avoidance. -/
def word (a : Avoidance) : String :=
  match a with
  | .tolls => "tolls"
  | .highways => "highways"
  | .traffic => "traffic"

/-- The name under which an avoidance is shown in messages. -/
def label (a : Avoidance) : String :=
  match a with
  | .tolls => "TOLLS"
  | .highways => "HIGHWAYS"
  | .traffic => "TRAFFIC"

/-- The avoidance with the given word. -/
def ofWord? (word : String) : Option Avoidance :=
  all.find? (fun a => a.word == word)

@[simp] theorem ofWord?_word (a : Avoidance) : ofWord? a.word = some a := by
  cases a <;> rfl

end Avoidance

/-- A route plan. -/
structure Route where
  name : String
  origin : Option String := none
  destination : Option String := none
  prefer : Option Preference := none
  /-- What to stay away from; no list at all differs from the empty list. -/
  avoid : Option (List Avoidance) := none
  maxStops : Option Nat := none
  departAt : Option String := none
  arriveBefore : Option String := none
deriving DecidableEq

end Waymark
