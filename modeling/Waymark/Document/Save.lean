/-
**Programs as documents.**

A node is saved as an object with its tag and its fields in order; a field without a value is left
out.  Members of vocabularies are saved as their words.

Main definitions:

* `Value.toJson` — the document of a value;
* `Value.toDocument` — the JSON text of a value.
-/
import Waymark.Json.Writer
import Waymark.Value.Basic

set_option relaxedAutoImplicit false
set_option autoImplicit false

namespace Waymark

namespace Value

/-- Whether a value is the absence of one. -/
def isNull (value : Value) : Bool :=
  match value with
  | .null => true
  | _ => false

mutual

/-- The document of a value. -/
def toJson (value : Value) : Json :=
  match value with
  | .null => .null
  | .bool b => .bool b
  | .int n => .int n
  | .float x => .float x
  | .text s => .text s
  | .list items => .array (toJsons items)
  | .block items => .array (toJsons items)
  | .operator op => .text op.word
  | .preference p => .text p.word
  | .avoidance a => .text a.word
  | .node kind fields => .object (("type", .text kind.tag) :: toMembers kind.fields fields)

/-- The documents of several values. -/
def toJsons (items : List Value) : List Json :=
  match items with
  | [] => []
  | item :: items => toJson item :: toJsons items

/-- The members for the fields of a node; absent values are left out. -/
def toMembers (infos : List Field) (fields : List Value) : List (String × Json) :=
  match infos, fields with
  | info :: infos, value :: fields =>
    if value.isNull then toMembers infos fields
    else (info.key, toJson value) :: toMembers infos fields
  | _, _ => []

end

/-- The JSON text of a value, with the given indent. -/
def toDocument (indent : Option Int) (value : Value) : String :=
  String.ofList (value.toJson.write (Json.Layout.ofIndent indent))

/-- What is said about a value that is saved as a node and is none. -/
def notNode (value : Value) : String :=
  "Not a FlowLang AST node: " ++ String.ofList value.literal

end Value

end Waymark
