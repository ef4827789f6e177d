/-
**Reading the header of a statement.**

The first word of a line, followed by a space, tells which statement it starts.  What follows is
read as the statement requires; the blocks that belong to it are not looked at here.

Main definitions:

* `Parse.Header` — what the first line of a statement says;
* `Parse.readHeader` — the header that a line is;
* `Parse.isElse` — whether a line opens the alternative of a conditional.
-/
import Waymark.Line
import Waymark.Parse.Expr

set_option relaxedAutoImplicit false
set_option autoImplicit false

namespace Waymark

namespace Parse

/-- What the first line of a statement says. -/
inductive Header where
  /-- A rule for an event. -/
  | when (event : String)
  /-- A conditional. -/
  | branch (test : Expr)
  /-- Show a value. -/
  | display (value : Expr)
  /-- Bind a variable. -/
  | assign (name : String) (value : Expr)
  /-- A route plan. -/
  | route (name : String)

/-- Whether a text starts with a keyword, in any letter case, and a space. -/
def startsWith (keyword : String) (cs : List Char) : Bool :=
  (keyword.toList ++ [' ']).isPrefixOf (Text.lower cs)

/-- What follows a keyword on its line, without outer blanks. -/
def argumentOf? (keyword : String) (cs : List Char) : Option (List Char) :=
  Text.afterWord keyword Text.argument? cs

/-- The name and the value of an assignment. -/
def assignment? (cs : List Char) : Option (List Char × List Char) :=
  Text.afterWord "set"
    (Text.afterBlanks fun cs =>
      match Text.name? cs with
      | none => none
      | some (name, rest) =>
        match Text.afterBlanks (Text.afterWord "to" Text.argument?) rest with
        | none => none
        | some value => some (name, value))
    cs

/-- The name in the header of a route plan. -/
def routeName? (cs : List Char) : Option (List Char) :=
  Text.afterWord "route"
    (Text.afterBlanks fun cs =>
      match Text.name? cs with
      | none => none
      | some (name, rest) => if Text.atEnd rest then some name else none)
    cs

/-- Whether a line opens the alternative of a conditional. -/
def isElse (line : Line) : Bool :=
  match Text.dropWord? "else".toList line.text.toList with
  | some rest => Text.atEnd rest
  | none => false

/-- The expression in a line. -/
def exprAt (line : Line) (cs : List Char) : Except Fault Expr :=
  match readExpr cs with
  | .ok e => .ok e
  | .error cause => .error (.at line.number cause)

/-- The fault of a line that starts no statement. -/
def unknownStatement (line : Line) : Fault :=
  match Keyword.suggest .statement line.text with
  | .error _ => .noWord
  | .ok suggestion => .at line.number (.unknownStatement line.text suggestion)

/-- The header of an event rule. -/
def readWhen (line : Line) : Except Fault Header :=
  match argumentOf? "when" line.text.toList with
  | none => .error (.at line.number .invalidWhen)
  | some event => .ok (.when (String.ofList event))

/-- The header of a conditional. -/
def readIf (line : Line) : Except Fault Header :=
  match argumentOf? "if" line.text.toList with
  | none => .error (.at line.number .invalidIf)
  | some test =>
    match exprAt line test with
    | .error f => .error f
    | .ok e => .ok (.branch e)

/-- The line that shows a value. -/
def readShow (line : Line) : Except Fault Header :=
  match argumentOf? "show" line.text.toList with
  | none => .error (.at line.number .invalidShow)
  | some value =>
    match exprAt line value with
    | .error f => .error f
    | .ok e => .ok (.display e)

/-- The line that binds a variable. -/
def readSet (line : Line) : Except Fault Header :=
  match assignment? line.text.toList with
  | none => .error (.at line.number (.invalidSet line.text))
  | some (name, value) =>
    match exprAt line value with
    | .error f => .error f
    | .ok e => .ok (.assign (String.ofList name) e)

/-- The header of a route plan. -/
def readRoute (line : Line) : Except Fault Header :=
  match routeName? line.text.toList with
  | none => .error (.at line.number (.invalidRoute line.text))
  | some name => .ok (.route (String.ofList name))

/-- The header that a line is. -/
def readHeader (line : Line) : Except Fault Header :=
  let cs := line.text.toList
  if startsWith "when" cs then readWhen line
  else if startsWith "if" cs then readIf line
  else if startsWith "show" cs then readShow line
  else if startsWith "set" cs then readSet line
  else if startsWith "route" cs then readRoute line
  else .error (unknownStatement line)

end Parse

end Waymark
