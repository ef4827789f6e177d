/-
**Variables and what they are bound to.**

Bindings keep the order in which names were first bound.  Binding a name again keeps its place;
removing it and binding it once more moves it to the end.  Names are values, compared as values are.

Main definitions:

* `Bindings` — names with their values, in order;
* `Bindings.get?`, `Bindings.bind`, `Bindings.erase` — look up, set and remove.
-/
import Waymark.Value.Basic

set_option relaxedAutoImplicit false
set_option autoImplicit false

namespace Waymark

/-- Names with their values, in the order in which the names were first bound. -/
structure Bindings where
  entries : List (Value × Value)

namespace Bindings

/-- No names at all. -/
def empty : Bindings := ⟨[]⟩

/-- The value of a name among entries. -/
def getIn? (entries : List (Value × Value)) (name : Value) : Option Value :=
  match entries with
  | [] => none
  | (n, v) :: rest => if n.same name then some v else getIn? rest name

/-- The entries with a name set; a name that is there keeps its place. -/
def bindIn (entries : List (Value × Value)) (name value : Value) : List (Value × Value) :=
  match entries with
  | [] => [(name, value)]
  | (n, v) :: rest => if n.same name then (n, value) :: rest else (n, v) :: bindIn rest name value

/-- The entries without a name. -/
def eraseIn (entries : List (Value × Value)) (name : Value) : List (Value × Value) :=
  match entries with
  | [] => []
  | (n, v) :: rest => if n.same name then rest else (n, v) :: eraseIn rest name

/-- The value that a name is bound to. -/
def get? (b : Bindings) (name : Value) : Option Value := getIn? b.entries name

/-- Bind a name to a value. -/
def bind (b : Bindings) (name value : Value) : Bindings := ⟨bindIn b.entries name value⟩

/-- Remove a name. -/
def erase (b : Bindings) (name : Value) : Bindings := ⟨eraseIn b.entries name⟩

/-- The number of names. -/
def size (b : Bindings) : Nat := b.entries.length

/-- The value of a name, which is its own value if it is not bound. -/
def lookup (b : Bindings) (name : Value) : Value :=
  match b.get? name with
  | some v => v
  | none => name

/-- Bindings made one after the other. -/
def ofList (entries : List (Value × Value)) : Bindings :=
  entries.foldl (fun b (name, value) => b.bind name value) empty

end Bindings

end Waymark
