/-
**Evaluating expressions.**

A literal evaluates to its content and an identifier to the value it is bound to; an identifier
that is not bound stands for its own name.  A comparison evaluates both its sides, the left one
first, and compares what its operator sees of them.

Main definitions:

* `Run.Fault` — why a program cannot be run any further;
* `Run.compare` — the outcome of a comparison;
* `Run.eval` — the value of an expression;
* `Run.unboundNames` — the names that an evaluation meets and that are not bound.
-/
import Waymark.Bindings
import Waymark.Diagnostic
import Waymark.Value.Coerce

set_option relaxedAutoImplicit false
set_option autoImplicit false

namespace Waymark

namespace Run

/-- Why a program cannot be run any further. -/
inductive Fault where
  /-- A value in the place of a statement is none; the kind of the value is told. -/
  | unknownStatement (typeName : String)
  /-- A value in the place of an expression is none; the kind of the value is told. -/
  | unknownExpression (typeName : String)
  /-- There is no such comparison. -/
  | unknownOperator (text : String)
  /-- What should be a block has no items. -/
  | notIterable
  /-- A whole number lies beyond the range of doubles. -/
  | tooLarge
  /-- The listener failed on a value that it was handed, for a reason of its own. -/
  | listenerFailed (reason : String)
deriving DecidableEq

/-- What is told about a fault, if anything. -/
def Fault.diagnostic? (fault : Fault) : Option Diagnostic :=
  match fault with
  | .unknownStatement name =>
    some { kind := .evaluation, message := "Unknown statement type: " ++ name }
  | .unknownExpression name =>
    some { kind := .evaluation, message := "Unknown expression type: " ++ name }
  | .unknownOperator text =>
    some { kind := .evaluation, message := "Unknown binary operator: " ++ text }
  | .notIterable => none
  | .tooLarge => none
  | .listenerFailed _ => none

/-! ### Comparisons -/

/-- Compare what a coercion makes of two values. -/
def compareBy {α : Type} (coerce : Value → Option α) (holds : α → α → Bool) (a b : Value) :
    Except Fault Bool :=
  match coerce a with
  | none => .error .tooLarge
  | some x =>
    match coerce b with
    | none => .error .tooLarge
    | some y => .ok (holds x y)

/-- The outcome of a comparison. -/
def compare (now : Clock) (op : Operator) (a b : Value) : Except Fault Bool :=
  match op with
  | .is => compareBy Value.toText? (fun x y => x == y) a b
  | .isNot => compareBy Value.toText? (fun x y => x != y) a b
  | .greater => compareBy Value.toNumber? (fun x y => y.lt x) a b
  | .less => compareBy Value.toNumber? (fun x y => x.lt y) a b
  | .after => compareBy (Value.toMinutes? now) (fun x y => y.lt x) a b
  | .before => compareBy (Value.toMinutes? now) (fun x y => x.lt y) a b

/-- The outcome of a comparison whose operator is given as a value. -/
def compareValue (now : Clock) (op a b : Value) : Except Fault Value :=
  match op with
  | .operator op =>
    match compare now op a b with
    | .error f => .error f
    | .ok holds => .ok (.bool holds)
  | other => .error (.unknownOperator (String.ofList other.plainText))

/-! ### Expressions -/

/-- The value of an expression. -/
def eval (now : Clock) (vars : Bindings) (expr : Value) : Except Fault Value :=
  match expr with
  | .textNode value => .ok value
  | .numberNode value => .ok value
  | .booleanNode value => .ok value
  | .timeNode value => .ok value
  | .identifierNode name => .ok (vars.lookup name)
  | .compareNode op left right =>
    match eval now vars left with
    | .error f => .error f
    | .ok a =>
      match eval now vars right with
      | .error f => .error f
      | .ok b => compareValue now op a b
  | other => .error (.unknownExpression other.typeName)

/-- The names that an evaluation meets and that are not bound, in the order in which it meets
them. -/
def unboundNames (now : Clock) (vars : Bindings) (expr : Value) : List Value :=
  match expr with
  | .identifierNode name =>
    match vars.get? name with
    | some _ => []
    | none => [name]
  | .compareNode _ left right =>
    match eval now vars left with
    | .error _ => unboundNames now vars left
    | .ok _ => unboundNames now vars left ++ unboundNames now vars right
  | _ => []

end Run

end Waymark
