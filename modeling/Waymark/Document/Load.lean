/-
**Programs from documents.**

A document is read as a node by its tag.  Each field of the kind that the document has is read, in
the order of the fields, and only then are missing fields filled in or refused; members with other
keys are ignored.  What a field holds is not checked beyond its role: an object is read as a node,
an array as a block of nodes, and any other value is kept as it is.

Main definitions:

* `Document.load` — the node that a document is;
* `Document.loadProgram` — the program that a document is;
* `Document.readProgram` — the program that a JSON text is.
-/
import Waymark.Document.Fault
import Waymark.Value.Basic

set_option relaxedAutoImplicit false
set_option autoImplicit false

namespace Waymark

namespace Document

/-! ### Words -/

/-- The comparison that a document names. -/
def loadOperator (value : Json) : Except Fault Value :=
  match value with
  | .text word =>
    match Operator.ofWord? word with
    | some op => .ok (.operator op)
    | none => .error (.foreignWord .operators value)
  | _ => .error (.foreignWord .operators value)

/-- The preference that a document names. -/
def loadPreference (value : Json) : Except Fault Value :=
  match value with
  | .text word =>
    match Preference.ofWord? word with
    | some p => .ok (.preference p)
    | none => .error (.foreignWord .preferences value)
  | _ => .error (.foreignWord .preferences value)

/-- The avoidance that a document names. -/
def loadAvoidance (value : Json) : Except Fault Value :=
  match value with
  | .text word =>
    match Avoidance.ofWord? word with
    | some a => .ok (.avoidance a)
    | none => .error (.foreignWord .avoidances value)
  | _ => .error (.foreignWord .avoidances value)

/-- The avoidances that documents name. -/
def loadAvoidanceItems (items : List Json) : Except Fault (List Value) :=
  match items with
  | [] => .ok []
  | item :: items =>
    match loadAvoidance item with
    | .error f => .error f
    | .ok a =>
      match loadAvoidanceItems items with
      | .error f => .error f
      | .ok as => .ok (a :: as)

/-- The items of a document: those of an array, the keys of an object, the characters of a text. -/
def itemsOf? (value : Json) : Option (List Json) :=
  match value with
  | .array items => some items
  | .object members => some (members.map (fun (key, _) => .text key))
  | .text s => some (s.toList.map (fun c => .text (String.singleton c)))
  | _ => none

/-- The avoidances that the items of a document name. -/
def loadAvoidances (value : Json) : Except Fault Value :=
  match itemsOf? value with
  | none => .error .notIterable
  | some items =>
    match loadAvoidanceItems items with
    | .error f => .error f
    | .ok as => .ok (.block as)

/-! ### Nodes -/

/-- The content of a field, if the document has it.  `content` is what the document is when it is
read as a node, a block or a plain value. -/
def loadField (role : Role) (value : Json) (content : Except Fault Value) : Except Fault Value :=
  match role with
  | .operator => loadOperator value
  | .preference => loadPreference value
  | .avoidances => loadAvoidances value
  | .content => content

/-- A member of an object: its key, its value, and its value read as the content of a field. -/
abbrev Member : Type := String × Json × Except Fault Value

/-- The fields that the members have, in the order of the fields; a missing one is `none`. -/
def loadFields (fields : List Field) (members : List Member) :
    Except Fault (List (Option Value)) :=
  match fields with
  | [] => .ok []
  | field :: fields =>
    match members.lookup field.key with
    | none =>
      match loadFields fields members with
      | .error f => .error f
      | .ok values => .ok (none :: values)
    | some (value, content) =>
      match loadField field.role value content with
      | .error f => .error f
      | .ok v =>
        match loadFields fields members with
        | .error f => .error f
        | .ok values => .ok (some v :: values)

/-- The value of a field that may be missing. -/
def fillField (field : Field) (value : Option Value) : Except Fault Value :=
  match value with
  | some v => .ok v
  | none =>
    match field.missing with
    | .refused => .error .missingField
    | .emptyBlock => .ok (.block [])
    | .null => .ok .null

/-- The values of fields that may be missing. -/
def fillFields (fields : List Field) (values : List (Option Value)) :
    Except Fault (List Value) :=
  match fields, values with
  | field :: fields, value :: values =>
    match fillField field value with
    | .error f => .error f
    | .ok v =>
      match fillFields fields values with
      | .error f => .error f
      | .ok vs => .ok (v :: vs)
  | _, _ => .ok []

/-- The kind that a tag names; a missing tag counts as null. -/
def kindOf (tag : Option Json) : Except Fault Kind :=
  match tag with
  | some (.text t) =>
    match Kind.ofTag? t with
    | some kind => .ok kind
    | none => .error (.unknownTag (.text t))
  | some (.array _) => .error .compoundTag
  | some (.object _) => .error .compoundTag
  | some other => .error (.unknownTag other)
  | none => .error (.unknownTag .null)

/-- The node with the given tag and members. -/
def loadNode (tag : Option Json) (members : List Member) : Except Fault Value :=
  match kindOf tag with
  | .error f => .error f
  | .ok kind =>
    match loadFields kind.fields members with
    | .error f => .error f
    | .ok values =>
      match fillFields kind.fields values with
      | .error f => .error f
      | .ok fields => .ok (.node kind fields)

mutual

/-- What a document is as the content of a field: a node, a block of nodes, or a plain value. -/
def loadContent (value : Json) : Except Fault Value :=
  match value with
  | .null => .ok .null
  | .bool b => .ok (.bool b)
  | .int n => .ok (.int n)
  | .float x => .ok (.float x)
  | .text s => .ok (.text s)
  | .array items =>
    match loadItems items with
    | .error f => .error f
    | .ok nodes => .ok (.block nodes)
  | .object members => loadNode (Json.member? "type" members) (loadMembers members)

/-- The nodes that documents are. -/
def loadItems (items : List Json) : Except Fault (List Value) :=
  match items with
  | [] => .ok []
  | item :: items =>
    match item with
    | .object members =>
      match loadNode (Json.member? "type" members) (loadMembers members) with
      | .error f => .error f
      | .ok node =>
        match loadItems items with
        | .error f => .error f
        | .ok nodes => .ok (node :: nodes)
    | _ => .error .notObject

/-- The members of an object, each with its value read as the content of a field. -/
def loadMembers (members : List (String × Json)) : List Member :=
  match members with
  | [] => []
  | (key, value) :: members => (key, value, loadContent value) :: loadMembers members

end

/-- The node that a document is. -/
def load (value : Json) : Except Fault Value :=
  match value with
  | .object members => loadNode (Json.member? "type" members) (loadMembers members)
  | _ => .error .notObject

/-- The tag of a document, if it has one. -/
def tagOf (value : Json) : Json :=
  match value with
  | .object members => (Json.member? "type" members).getD .null
  | _ => .null

/-- The program that a document is. -/
def loadProgram (value : Json) : Except Fault Value :=
  match load value with
  | .error f => .error f
  | .ok (.node .program fields) => .ok (.node .program fields)
  | .ok _ => .error (.notProgram (tagOf value))

/-- The document that a JSON text is. -/
def readJson (text : String) : Except Fault Json :=
  match Json.read text.toList with
  | .error f => .error (.json f)
  | .ok value => .ok value

/-- The node that a JSON text is. -/
def readNode (text : String) : Except Fault Value :=
  match readJson text with
  | .error f => .error f
  | .ok value => load value

/-- The program that a JSON text is. -/
def readProgram (text : String) : Except Fault Value :=
  match readJson text with
  | .error f => .error f
  | .ok value => loadProgram value

end Document

end Waymark
