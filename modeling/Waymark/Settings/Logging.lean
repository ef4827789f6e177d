/-
**Setting up the trace.**

The trace is set up at a level that is given by its name.  Among the names that the trace knows
there are two that stand for something else than a level, the layout of events and the table of
all layouts; setting up the trace at one of these fails.  A name that the trace does not know
counts as that of a warning.

Main definitions:

* `Logging` — how the trace is set up;
* `Logging.Meaning` — what a name stands for;
* `Logging.Fault` — why the trace was not set up;
* `Logging.ofName` — the trace set up at the level with a name.
-/
import Waymark.Settings.Basic
import Waymark.Text.Quoted

set_option relaxedAutoImplicit false
set_option autoImplicit false

namespace Waymark

/-- How the trace is set up. -/
structure Logging where
  /-- The root of all channels. -/
  name : String := "flowlang"
  /-- Events below this level are not shown. -/
  level : Nat
  /-- How many listeners there are. -/
  handlers : Nat := 1
deriving DecidableEq

namespace Logging

/-- What a name stands for when the trace is set up. -/
inductive Meaning where
  /-- A level, given by its number. -/
  | level (number : Nat)
  /-- The layout of an event. -/
  | layout (text : String)
  /-- The table of all layouts. -/
  | layouts
deriving DecidableEq

/-- The names that the trace knows. -/
def names : List (String × Meaning) :=
  [("DEBUG", .level 10), ("INFO", .level 20), ("WARN", .level 30), ("WARNING", .level 30),
    ("ERROR", .level 40), ("FATAL", .level 50), ("CRITICAL", .level 50), ("NOTSET", .level 0),
    ("BASIC_FORMAT", .layout "%(levelname)s:%(name)s:%(message)s"), ("_STYLES", .layouts)]

/-- What a name in any letter case stands for; any name that is not known is that of a warning. -/
def meaning (name : String) : Meaning :=
  (names.lookup (String.ofList (Text.upper name.toList))).getD (.level Level.warning.number)

/-- Why the trace was not set up. -/
inductive Fault where
  /-- The settings, which have the level, were not built. -/
  | settings (errors : List Settings.Error)
  /-- The name stands for a text, and no level has this text for its name. -/
  | textNotLevel (text : String)
  /-- The name stands for something that is neither a number nor a text. -/
  | notLevel
deriving DecidableEq

/-- What is said about a fault, if anything is. -/
def Fault.message? (f : Fault) : Option String :=
  match f with
  | .settings _ => none
  | .textNotLevel text => some ("Unknown level: " ++ String.ofList (Text.quote text.toList))
  | .notLevel => none

/-- The trace set up at the level with the given name. -/
def ofName (name : String) : Except Fault Logging :=
  match meaning name with
  | .level number => .ok { level := number }
  | .layout text => .error (.textNotLevel text)
  | .layouts => .error .notLevel

/-- The name of a level that a setting may have stands for its number. -/
theorem meaning_name (l : Level) : meaning l.name = .level l.number := by
  cases l <;> decide +kernel

/-- At the level of settings the trace can always be set up. -/
theorem ofName_name (l : Level) : ofName l.name = .ok { level := l.number } := by
  simp [ofName, meaning_name]

end Logging

end Waymark
