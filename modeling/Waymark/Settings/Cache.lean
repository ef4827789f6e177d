/-
**The settings of an environment, built once.**

The settings of an environment are built when they are first asked for and kept from then on, also
when the environment changes, until they are cleared.  Settings that could not be built are not
kept.  Each time settings are built they get a number of their own, so that it can be told whether
two answers are the same settings.

Main definitions:

* `Cache` — an environment and the settings kept for it;
* `Cache.get` — the settings, built now or before;
* `Cache.configure` — set up the trace, at a given level or at that of the settings.
-/
import Waymark.Settings.Logging
import Waymark.Settings.Plain

set_option relaxedAutoImplicit false
set_option autoImplicit false

namespace Waymark

/-- An environment and the settings kept for it. -/
structure Cache where
  environment : Environment := {}
  /-- The settings that are kept, with their number. -/
  kept : Option (Nat × Settings) := none
  /-- How many times settings were built. -/
  built : Nat := 0
  /-- The number of the settings that were last asked for and given. -/
  last : Option Nat := none

namespace Cache

/-- Set a variable of the environment. -/
def set (c : Cache) (name text : String) : Cache :=
  { c with environment := c.environment.set name text }

/-- Remove a variable from the environment. -/
def unset (c : Cache) (name : String) : Cache :=
  { c with environment := c.environment.unset name }

/-- Forget the settings that are kept. -/
def clear (c : Cache) : Cache := { c with kept := none }

/-- The settings, built now or before, with their number. -/
def fetch (c : Cache) : Cache × Except (List Settings.Error) (Nat × Settings) :=
  match c.kept with
  | some kept => (c, .ok kept)
  | none =>
    match Settings.build { environment := c.environment } with
    | .error errors => (c, .error errors)
    | .ok s => ({ c with kept := some (c.built, s), built := c.built + 1 }, .ok (c.built, s))

/-- The settings, and whether they are the same as those given the last time. -/
def get (c : Cache) : Cache × Except (List Settings.Error) (Settings × Bool) :=
  match c.fetch with
  | (c, .error errors) => (c, .error errors)
  | (c, .ok (number, s)) => ({ c with last := some number }, .ok (s, c.last == some number))

/-- Set up the trace at the level with the given name, or at the level of the settings if no name
is given. -/
def configure (c : Cache) (name : Option String) : Cache × Except Logging.Fault Logging :=
  match name.filter (fun n => n != "") with
  | some n => (c, Logging.ofName n)
  | none =>
    match c.fetch with
    | (c, .error errors) => (c, .error (.settings errors))
    | (c, .ok (_, s)) => (c, Logging.ofName s.level.name)

end Cache

end Waymark
