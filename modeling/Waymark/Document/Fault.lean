/-
**Why a document is refused.**

Main definitions:

* `Document.Fault` — what may be wrong about a document that is to be read as a node;
* `Document.Fault.message?` — what is said about it, if anything.
-/
import Waymark.Json.Reader
import Waymark.Vocabulary

set_option relaxedAutoImplicit false
set_option autoImplicit false

namespace Waymark

namespace Document

/-- What may be wrong about a document. -/
inductive Fault where
  /-- The text is not JSON. -/
  | json (fault : Json.Fault)
  /-- A value that is no object stands in the place of a node. -/
  | notObject
  /-- The tag of a node is an array or an object. -/
  | compoundTag
  /-- No kind of nodes has this tag; a missing tag counts as null. -/
  | unknownTag (tag : Json)
  /-- A value is not a word of the vocabulary that its field requires. -/
  | foreignWord (vocabulary : Vocabulary) (value : Json)
  /-- What should be a list of avoidances has no items. -/
  | notIterable
  /-- A required field is missing. -/
  | missingField
  /-- The node is not a program. -/
  | notProgram (tag : Json)

/-- What is said about a fault, if anything. -/
def Fault.message? (fault : Fault) : Option String :=
  match fault with
  | .json .malformed => none
  | .json (.tooManyDigits count) => some (Numeral.tooManyDigits count)
  | .notObject => none
  | .compoundTag => none
  | .unknownTag tag => some ("Unknown node type: " ++ String.ofList tag.literal)
  | .foreignWord vocabulary value => some (vocabulary.refusal (String.ofList value.literal))
  | .notIterable => none
  | .missingField => none
  | .notProgram tag => some ("Expected a Program, got " ++ String.ofList tag.literal)

end Document

end Waymark
