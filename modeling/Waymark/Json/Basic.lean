/-
**JSON values.**

Numbers come in two kinds, whole numbers of any size and doubles, NaN and the infinities included.
The members of an object keep the order in which their keys were first met.

Main definitions:

* `Json` — JSON values;
* `Json.insertMember` — set a member of an object, a later value taking the place of an earlier one;
* `Json.member?` — the member of an object with a given key;
* `Json.literal` — a value as it is shown in messages.
-/
import Waymark.Number.Shortest
import Waymark.Text.Quoted

set_option relaxedAutoImplicit false
set_option autoImplicit false

namespace Waymark

/-- A JSON value. -/
inductive Json where
  | null
  | bool (value : Bool)
  /-- A number written without point and power of ten. -/
  | int (value : Int)
  /-- Any other number. -/
  | float (value : Double)
  | text (value : String)
  | array (items : List Json)
  /-- An object, its members in order. -/
  | object (members : List (String × Json))
deriving Inhabited

namespace Json

/-- Set the member with the given key; a key that is there keeps its place. -/
def insertMember (key : String) (value : Json) (members : List (String × Json)) :
    List (String × Json) :=
  match members with
  | [] => [(key, value)]
  | (k, v) :: rest =>
    if k = key then (key, value) :: rest else (k, v) :: insertMember key value rest

/-- The member with the given key. -/
def member? (key : String) (members : List (String × Json)) : Option Json :=
  members.lookup key

/-! ### Values in messages -/

/-- Texts with a comma and a space between them. -/
def commaSeparated (parts : List (List Char)) : List Char :=
  (parts.intersperse [',', ' ']).flatten

mutual

/-- A value as it is shown in messages. -/
def literal (value : Json) : List Char :=
  match value with
  | .null => "None".toList
  | .bool true => "True".toList
  | .bool false => "False".toList
  | .int n => Numeral.integer n
  | .float x => x.text
  | .text s => Text.quote s.toList
  | .array items => '[' :: (commaSeparated (literals items) ++ [']'])
  | .object members => '\x7b' :: (commaSeparated (memberLiterals members) ++ ['\x7d'])

/-- Each of several values as it is shown in messages. -/
def literals (items : List Json) : List (List Char) :=
  match items with
  | [] => []
  | item :: items => literal item :: literals items

/-- Each of several members as it is shown in messages. -/
def memberLiterals (members : List (String × Json)) : List (List Char) :=
  match members with
  | [] => []
  | (key, value) :: members =>
    (Text.quote key.toList ++ ':' :: ' ' :: literal value) :: memberLiterals members

end

end Json

end Waymark
