/-
**Settings.**

The settings are the level of the trace, whether shown values are printed, and an optional fixed
clock.  Each is given by the first of three sources that has it, the values handed in, the
environment and what is read from an environment file, or else has its default.  A value that does
not fit is reported; the other settings are checked all the same.

How an environment file is read, and which values name a truth value, is not for settings to say.
Both are conventions that settings are built with.

Main definitions:

* `Level`, `Settings` — levels and settings;
* `Settings.Error` — what is wrong about a value;
* `Settings.Conventions` — what settings are built with;
* `Settings.Sources` — where settings come from;
* `Settings.buildWith` — the settings that sources give, or all that is wrong about them.
-/
import Waymark.Clock
import Waymark.Settings.Environment
import Waymark.Value.Basic

set_option relaxedAutoImplicit false
set_option autoImplicit false

namespace Waymark

/-- The levels that a setting may name. -/
inductive Level where
  | debug
  | info
  | warning
  | error
  | critical
deriving DecidableEq

namespace Level

/-- All levels. -/
def all : List Level := [.debug, .info, .warning, .error, .critical]

/-- The name of a level. -/
def name (l : Level) : String :=
  match l with
  | .debug => "DEBUG"
  | .info => "INFO"
  | .warning => "WARNING"
  | .error => "ERROR"
  | .critical => "CRITICAL"

/-- The level with the given name in any letter case. -/
def ofName? (name : String) : Option Level :=
  all.find? (fun l => l.name.toList == Text.upper name.toList)

/-- The number of a level. -/
def number (l : Level) : Nat :=
  match l with
  | .debug => 10
  | .info => 20
  | .warning => 30
  | .error => 40
  | .critical => 50

theorem ofName?_name (l : Level) : ofName? l.name = some l := by
  cases l <;> decide +kernel

end Level

/-- The settings. -/
structure Settings where
  level : Level := .warning
  /-- Whether shown values are printed. -/
  echo : Bool := false
  /-- The fixed clock, if there is one. -/
  now : Option Clock := none
deriving DecidableEq

namespace Settings

/-! ### Names and errors -/

/-- The settings that there are, in the order in which they are checked. -/
inductive Key where
  | level
  | echo
  | now
deriving DecidableEq

/-- The name of a setting. -/
def Key.name (k : Key) : String :=
  match k with
  | .level => "log_level"
  | .echo => "echo_shows"
  | .now => "now"

/-- The name of a setting in the environment, in lower case. -/
def Key.variableName (k : Key) : String := "flowlang_" ++ k.name

/-- What may be wrong about the value of a setting. -/
inductive Cause where
  /-- The value is no text. -/
  | notText
  /-- The text has not the form of a clock time. -/
  | notClock
  /-- No level has this name. -/
  | unknownLevel (text : String)
  /-- The hour or the minute is out of range. -/
  | outOfRange (text : String)
  /-- The text or number names no truth value. -/
  | notTruthName
  /-- The value is of a kind that has no truth values. -/
  | notTruthKind
deriving DecidableEq

/-- The class of a cause. -/
def Cause.category (c : Cause) : String :=
  match c with
  | .notText => "string_type"
  | .notClock => "string_pattern_mismatch"
  | .unknownLevel _ => "value_error"
  | .outOfRange _ => "value_error"
  | .notTruthName => "bool_parsing"
  | .notTruthKind => "bool_type"

/-- What is said about a cause. -/
def Cause.message (c : Cause) : String :=
  match c with
  | .notText => "Input should be a valid string"
  | .notClock => "String should match pattern \x27^[0-9]\x7b2\x7d:[0-9]\x7b2\x7d$\x27"
  | .unknownLevel text => "Value error, Unknown log level: " ++ text
  | .outOfRange text => "Value error, Clock override out of range: " ++ text
  | .notTruthName => "Input should be a valid boolean, unable to interpret input"
  | .notTruthKind => "Input should be a valid boolean"

/-- What is wrong about which setting. -/
structure Error where
  key : Key
  cause : Cause
deriving DecidableEq

/-! ### Where settings come from -/

/-- What settings are built with. -/
structure Conventions where
  /-- What an environment file has, in order, if it is read in an environment.  A name may stand
  there without a text, and a text may refer to variables. -/
  readFile : Environment → String → List (String × Option String)
  /-- The truth value that a value names. -/
  readTruth : Value → Except Cause Bool

/-- Where settings come from. -/
structure Sources where
  /-- Values that are handed in, by the names of settings in any letter case. -/
  given : List (String × Value) := []
  /-- The environment. -/
  environment : Environment := {}
  /-- The text of an environment file. -/
  file : String := ""

namespace Sources

/-- The value of a setting that is handed in: the first one under its name in any letter case. -/
def given? (s : Sources) (k : Key) : Option Value :=
  (s.given.find? (fun (n, _) => Environment.isSpelling k.name n)).map Prod.snd

/-- What is read from the environment file. -/
def entries (c : Conventions) (s : Sources) : List (String × Option String) :=
  c.readFile s.environment s.file

/-- The text of a setting that is read from the environment file; a name without a text has
none. -/
def filed? (c : Conventions) (s : Sources) (k : Key) : Option String :=
  (Environment.lastOf? (s.entries c) k.variableName).join

/-- The value of a setting: the one handed in, else that of the environment, else that of the
environment file. -/
def value? (c : Conventions) (s : Sources) (k : Key) : Option Value :=
  match s.given? k with
  | some v => some v
  | none =>
    match s.environment.get? k.variableName with
    | some t => some (.text t)
    | none => (s.filed? c k).map .text

end Sources

/-! ### Checking values -/

/-- The level that a value names. -/
def checkLevel (value : Value) : Except Cause Level :=
  match value with
  | .text t =>
    match Level.ofName? t with
    | some l => .ok l
    | none => .error (.unknownLevel t)
  | _ => .error .notText

/-- The clock that a value names, or none at all. -/
def checkNow (value : Value) : Except Cause (Option Clock) :=
  match value with
  | .null => .ok none
  | .text t =>
    match Clock.fields? t.toList with
    | none => .error .notClock
    | some (hour, minute) =>
      match Clock.ofFields? hour minute with
      | none => .error (.outOfRange t)
      | some c => .ok (some c)
  | _ => .error .notText

/-- A setting from its sources: its default if none has it, else what its value names. -/
def choose {α : Type} (c : Conventions) (s : Sources) (k : Key) (default : α)
    (check : Value → Except Cause α) : Except Error α :=
  match s.value? c k with
  | none => .ok default
  | some v =>
    match check v with
    | .ok a => .ok a
    | .error cause => .error ⟨k, cause⟩

/-- The error of a result, if it is one. -/
def errorOf {α : Type} (result : Except Error α) : List Error :=
  match result with
  | .ok _ => []
  | .error e => [e]

/-- The settings that sources give, or all that is wrong about them. -/
def buildWith (c : Conventions) (s : Sources) : Except (List Error) Settings :=
  let level := choose c s .level Level.warning checkLevel
  let echo := choose c s .echo false c.readTruth
  let now := choose c s .now none checkNow
  match level, echo, now with
  | .ok level, .ok echo, .ok now => .ok ⟨level, echo, now⟩
  | _, _, _ => .error (errorOf level ++ errorOf echo ++ errorOf now)

end Settings

end Waymark
