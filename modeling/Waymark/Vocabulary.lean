/-
**Closed vocabularies.**

Comparisons, preferences and avoidances are words of closed lists.  A word outside its list is
refused with a message that names the list.

Main definitions:

* `Vocabulary` — the three lists;
* `Vocabulary.refusal` — what is said about a word that is not in a list.
-/
import Waymark.Expr
import Waymark.Route

set_option relaxedAutoImplicit false
set_option autoImplicit false

namespace Waymark

/-- A closed list of words. -/
inductive Vocabulary where
  | operators
  | preferences
  | avoidances
deriving DecidableEq

namespace Vocabulary

/-- The name of a list in messages. -/
def label (v : Vocabulary) : String :=
  match v with
  | .operators => "BinaryOperator"
  | .preferences => "RoutePreference"
  | .avoidances => "RouteAvoidance"

/-- The words of a list. -/
def words (v : Vocabulary) : List String :=
  match v with
  | .operators => Operator.all.map Operator.word
  | .preferences => Preference.all.map Preference.word
  | .avoidances => Avoidance.all.map Avoidance.word

/-- What is said about a value, given as it is shown in messages, that is not a word of the list. -/
def refusal (v : Vocabulary) (shown : String) : String :=
  shown ++ " is not a valid " ++ v.label

end Vocabulary

end Waymark
