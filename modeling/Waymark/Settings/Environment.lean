/-
**The environment.**

An environment holds variables and their texts.  Setting a variable again keeps its place.  A
variable is looked up by its name in any letter case; of several spellings the last one counts.

Main definitions:

* `Environment` — variables and their texts, in order;
* `Environment.set`, `Environment.unset` — set and remove a variable;
* `Environment.lastOf?` — what the last entry with a name in any letter case has;
* `Environment.get?` — the text of a variable, by its name in any letter case.
-/
import Waymark.Text.Letter

set_option relaxedAutoImplicit false
set_option autoImplicit false

namespace Waymark

/-- Variables and their texts, in the order in which the variables were first set. -/
structure Environment where
  entries : List (String × String) := []
deriving DecidableEq

namespace Environment

/-! ### Entries -/

section Entries

variable {α : Type}

/-- The entries with a name set; one that is there keeps its place. -/
def setIn (entries : List (String × α)) (name : String) (a : α) : List (String × α) :=
  match entries with
  | [] => [(name, a)]
  | (n, b) :: rest => if n = name then (n, a) :: rest else (n, b) :: setIn rest name a

/-- Names set one after the other. -/
def setAll (entries : List (String × α)) : List (String × α) :=
  entries.foldl (fun all entry => setIn all entry.1 entry.2) []

/-- Whether a name is the given one, which is in lower case, in some letter case. -/
def isSpelling (name spelling : String) : Bool := Text.lower spelling.toList == name.toList

/-- What the last entry has whose name is the given one, which is in lower case, in some letter
case. -/
def lastOf? (entries : List (String × α)) (name : String) : Option α :=
  (entries.reverse.find? (fun entry => isSpelling name entry.1)).map Prod.snd

end Entries

/-! ### Variables -/

/-- Set a variable. -/
def set (e : Environment) (name text : String) : Environment := ⟨setIn e.entries name text⟩

/-- Remove a variable. -/
def unset (e : Environment) (name : String) : Environment :=
  ⟨e.entries.filter (fun (n, _) => n != name)⟩

/-- Variables set one after the other. -/
def ofList (entries : List (String × String)) : Environment := ⟨setAll entries⟩

/-- The text of a variable, whose name is given in lower case. -/
def get? (e : Environment) (name : String) : Option String := lastOf? e.entries name

end Environment

end Waymark
