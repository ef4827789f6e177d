/-
**Reading expressions.**

A text is split at a comparison, if it holds one, and both sides are read as atoms; otherwise the
whole text is an atom.  The comparisons are tried in a fixed order, so that a longer one wins over a
shorter one that it contains, and of the places where a comparison occurs the leftmost is taken.
Quotes are not looked at in this: a comparison inside a quoted text splits it.

Main definitions:

* `Parse.Separator` — what stands between the two sides of a comparison;
* `Parse.comparisons` — the comparisons in the order in which they are tried;
* `Parse.split?` — a text split at a comparison;
* `Parse.atom?`, `Parse.readAtom` — atoms;
* `Parse.readExpr` — expressions.
-/
import Waymark.Expr
import Waymark.Number.Decimal
import Waymark.Parse.Fault
import Waymark.Text.Pattern

set_option relaxedAutoImplicit false
set_option autoImplicit false

namespace Waymark

namespace Parse

/-! ### Comparisons -/

/-- What stands between the two sides of a comparison. -/
inductive Separator where
  /-- Words, with blanks before, between and behind them. -/
  | words (words : List String)
  /-- A sign, with or without blanks around it. -/
  | sign (sign : Char)
deriving DecidableEq

/-- The right side behind words, each of which has blanks before and behind it. -/
def afterWords? (words : List String) (cs : List Char) : Option (List Char) :=
  match words with
  | [] => Text.afterBlanks Text.restOfLine? cs
  | word :: words => Text.afterBlanks (Text.afterWord word (afterWords? words)) cs

/-- The right side behind a sign, which may have blanks before and behind it. -/
def afterSign? (sign : Char) (cs : List Char) : Option (List Char) :=
  Text.afterOptionalBlanks
    (fun cs =>
      match cs with
      | [] => none
      | c :: cs => if c = sign then Text.afterOptionalBlanks Text.restOfLine? cs else none)
    cs

/-- The right side behind a separator. -/
def Separator.after? (separator : Separator) (cs : List Char) : Option (List Char) :=
  match separator with
  | .words ws => afterWords? ws cs
  | .sign c => afterSign? c cs

/-- The comparisons in the order in which they are tried. -/
def comparisons : List (Separator × Operator) :=
  [(.words ["is", "not"], .isNot), (.words ["is", "after"], .after),
    (.words ["is", "before"], .before), (.words ["is"], .is), (.sign '>', .greater),
    (.sign '<', .less), (.words ["after"], .after), (.words ["before"], .before)]

/-- A text split at the first comparison that occurs in it: the two sides without outer blanks, and
the operator between them. -/
def split? (cs : List Char) : Option (List Char × Operator × List Char) :=
  comparisons.findSome? fun (separator, op) =>
    match Text.splitAt? separator.after? cs with
    | some (left, right) => some (Text.strip left, op, Text.strip right)
    | none => none

/-! ### Atoms -/

/-- Whether a text is quoted: it starts and ends with the same quote. -/
def isQuoted (cs : List Char) : Bool :=
  match cs with
  | [] => false
  | c :: rest => (c == '"' || c == '\x27') && rest.getLast? == some c

/-- A quoted text without its quotes; any other text as it is. -/
def unquote (cs : List Char) : List Char :=
  if isQuoted cs then cs.tail.dropLast else cs

/-- The truth value that a text names. -/
def boolean? (cs : List Char) : Option Bool :=
  if Text.dropWord? "true".toList cs = some [] then some true
  else if Text.dropWord? "false".toList cs = some [] then some false
  else none

/-- Whether a text is digits with an optional point between them. -/
def isUnsigned (cs : List Char) : Bool :=
  match Text.digits? cs with
  | none => false
  | some (_, []) => true
  | some (_, '.' :: rest) =>
    match Text.digits? rest with
    | some (_, []) => true
    | _ => false
  | some _ => false

/-- Whether a text is a number: digits with an optional point between them, after an optional minus
sign. -/
def isNumber (cs : List Char) : Bool :=
  match cs with
  | '-' :: rest => isUnsigned rest
  | _ => isUnsigned cs

/-- The number that a text writes. -/
def number? (cs : List Char) : Option Double :=
  if isNumber cs then Double.read? cs else none

/-- Whether a text is a clock reading. -/
def isClock (cs : List Char) : Bool :=
  match Text.clock? cs with
  | some (_, []) => true
  | _ => false

/-- The atom that a text without outer blanks is. -/
def atom? (cs : List Char) : Option Expr :=
  if isQuoted cs then some (.text (String.ofList (unquote cs)))
  else
    match boolean? cs with
    | some b => some (.boolean b)
    | none =>
      match number? cs with
      | some x => some (.number x)
      | none =>
        if isClock cs then some (.time (String.ofList cs))
        else if Text.isIdentifier cs then some (.identifier (String.ofList cs))
        else none

/-- The atom that a text is. -/
def readAtom (cs : List Char) : Except Cause Expr :=
  let trimmed := Text.strip cs
  match atom? trimmed with
  | some e => .ok e
  | none => .error (.invalidExpression (String.ofList cs) (trimmed.contains ' '))

/-! ### Expressions -/

/-- The expression that a text is: a comparison of two atoms, or an atom. -/
def readExpr (cs : List Char) : Except Cause Expr :=
  match split? cs with
  | none => readAtom cs
  | some (left, op, right) =>
    match readAtom left with
    | .error cause => .error cause
    | .ok l =>
      match readAtom right with
      | .error cause => .error cause
      | .ok r => .ok (.compare op l r)

end Parse

end Waymark
