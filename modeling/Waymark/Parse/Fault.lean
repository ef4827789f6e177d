/-
**Why a source is refused.**

Nearly every fault belongs to a line and has one of a fixed number of causes; what is told about it
is its diagnostic.  Three kinds of faults lie outside that scheme: a word that matches a route
option only by case folding, a number of stops with too many digits, and a line without any word.

Main definitions:

* `Parse.Cause` — what may be wrong about a line;
* `Parse.Fault` — a cause at a line, or one of the other faults;
* `Parse.Cause.diagnostic` — what is told about a cause.
-/
import Waymark.Diagnostic
import Waymark.Keyword
import Waymark.Number.Limit
import Waymark.Text.Quoted
import Waymark.Vocabulary

set_option relaxedAutoImplicit false
set_option autoImplicit false

namespace Waymark

namespace Parse

/-- What may be wrong about a line. -/
inductive Cause where
  /-- The indent holds a tab. -/
  | tab
  /-- A line of a block is indented more than the block. -/
  | deeper (expected found : Int)
  /-- A route option is indented more than its block. -/
  | deeperOption (expected found : Int)
  /-- The first line of a block is not indented by one step. -/
  | badStep (keyword : String) (expected found : Int)
  /-- A header has no block. -/
  | missingBlock (keyword : String)
  /-- No statement starts like this. -/
  | unknownStatement (text : String) (suggestion : Option String)
  | invalidWhen
  | invalidIf
  | invalidShow
  | invalidSet (text : String)
  | invalidRoute (text : String)
  /-- A text is no expression; the flag tells whether blanks in it suggest missing quotes. -/
  | invalidExpression (text : String) (unquoted : Bool)
  /-- No route option looks like this. -/
  | unknownOption (text : String) (suggestion : Option String)
  /-- A place of a route is not given as a quoted text. -/
  | placeNotQuoted (keyword : String) (text : String)
  /-- A route option is given twice. -/
  | duplicateOption (keyword : String)
  /-- A line stands to the left of the outermost block. -/
  | extraInput (text : String)
deriving DecidableEq

/-- Why a source is refused. -/
inductive Fault where
  /-- Something is wrong about a line. -/
  | at (line : Int) (cause : Cause)
  /-- A word of a route option is not in its list, though case folding takes it for one that is. -/
  | foreignWord (vocabulary : Vocabulary) (word : String)
  /-- A number of stops has too many digits. -/
  | tooManyDigits (count : Nat)
  /-- A line has no word. -/
  | noWord
deriving DecidableEq

namespace Cause

/-- The suggestion to use a keyword. -/
def didYouMean (suggestion : Option String) : Option String :=
  suggestion.map (fun k => "Did you mean \x27" ++ k ++ "\x27?")

/-- The message of a cause. -/
def message (cause : Cause) : String :=
  match cause with
  | .tab => "Tabs are not allowed. Use spaces for indentation."
  | .deeper expected found =>
    "Unexpected indentation. Expected indent " ++ toString expected ++ " but got "
      ++ toString found ++ "."
  | .deeperOption expected found =>
    "Unexpected indentation in route block. Expected indent " ++ toString expected ++ " but got "
      ++ toString found ++ "."
  | .badStep keyword expected _ =>
    "Invalid indentation after \"" ++ keyword ++ "\". Expected " ++ toString expected ++ " spaces."
  | .missingBlock keyword => "Expected an indented block after \"" ++ keyword ++ "\""
  | .unknownStatement text _ => "Unknown statement: \"" ++ text ++ "\""
  | .invalidWhen => "Invalid when syntax"
  | .invalidIf => "Invalid if syntax"
  | .invalidShow => "Invalid show syntax"
  | .invalidSet _ => "Invalid set syntax. Use: set <name> to <value>"
  | .invalidRoute _ => "Invalid route syntax. Use: route <name>"
  | .invalidExpression text _ => "Invalid expression: \"" ++ text ++ "\""
  | .unknownOption text _ => "Unknown route option: \"" ++ text ++ "\""
  | .placeNotQuoted keyword _ => "Route \"" ++ keyword ++ "\" expects a string literal"
  | .duplicateOption keyword => "Duplicate route option \"" ++ keyword ++ "\""
  | .extraInput _ => "Unexpected extra input"

/-- The text that a cause cites. -/
def found (cause : Cause) : Option String :=
  match cause with
  | .invalidSet text => some text
  | .invalidRoute text => some text
  | .placeNotQuoted _ text => some text
  | .extraInput text => some text
  | _ => none

/-- The suggestion that a cause comes with. -/
def suggestion (cause : Cause) : Option String :=
  match cause with
  | .unknownStatement _ suggestion => didYouMean suggestion
  | .unknownOption _ suggestion => didYouMean suggestion
  | .invalidExpression _ true => some "Quote text values, e.g. show \"hello world\""
  | .placeNotQuoted keyword text => some (keyword ++ " \"" ++ text ++ "\"")
  | _ => none

/-- The indents that a cause is about, the expected and the found one. -/
def indents (cause : Cause) : Option (Int × Int) :=
  match cause with
  | .deeper expected found => some (expected, found)
  | .deeperOption expected found => some (expected, found)
  | .badStep _ expected found => some (expected, found)
  | _ => none

/-- What is told about a cause at a line. -/
def diagnostic (line : Int) (cause : Cause) : Diagnostic :=
  match cause.indents with
  | some (expected, found) =>
    { kind := .indentation, message := cause.message, line := some line,
      expectedIndent := some expected, foundIndent := some found }
  | none =>
    { kind := .parse, message := cause.message, line := some line,
      found := cause.found, suggestion := cause.suggestion }

end Cause

namespace Fault

/-- What is said about a fault. -/
def message (fault : Fault) : String :=
  match fault with
  | .at _ cause => cause.message
  | .foreignWord vocabulary word =>
    vocabulary.refusal (String.ofList (Text.quote word.toList))
  | .tooManyDigits count => Numeral.tooManyDigits count
  | .noWord => Keyword.NoWord.mk.message

end Fault

end Parse

end Waymark
