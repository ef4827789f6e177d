/-
**Expressions.**

An expression is a literal, an identifier, or a comparison of two expressions.  In the line form of
the language both sides of a comparison are atoms; programs given as documents may nest them.

Main definitions:

* `Operator` — the six comparisons, with the words that documents use for them;
* `Expr` — expressions;
* `Expr.isAtom` — whether an expression is not a comparison.
-/
import Waymark.Number.Double

set_option relaxedAutoImplicit false
set_option autoImplicit false

namespace Waymark

/-- The comparisons. -/
inductive Operator where
  /-- Both sides have the same text. -/
  | is
  /-- The two sides have different texts. -/
  | isNot
  /-- The left number is the greater one. -/
  | greater
  /-- The left number is the smaller one. -/
  | less
  /-- The left clock time is the later one. -/
  | after
  /-- The left clock time is the earlier one. -/
  | before
deriving DecidableEq

namespace Operator

/-- All comparisons, in the order in which they are listed. -/
def all : List Operator := [.is, .isNot, .greater, .less, .after, .before]

/-- The word for a comparison in documents. -/
def word (op : Operator) : String :=
  match op with
  | .is => "is"
  | .isNot => "is_not"
  | .greater => "gt"
  | .less => "lt"
  | .after => "after"
  | .before => "before"

/-- The name under which a comparison is shown in messages. -/
def label (op : Operator) : String :=
  match op with
  | .is => "IS"
  | .isNot => "IS_NOT"
  | .greater => "GT"
  | .less => "LT"
  | .after => "AFTER"
  | .before => "BEFORE"

/-- The comparison with the given word. -/
def ofWord? (word : String) : Option Operator :=
  all.find? (fun op => op.word == word)

@[simp] theorem ofWord?_word (op : Operator) : ofWord? op.word = some op := by
  cases op <;> rfl

end Operator

/-- An expression. -/
inductive Expr where
  | text (value : String)
  | number (value : Double)
  | boolean (value : Bool)
  /-- A clock reading, kept as it was written. -/
  | time (value : String)
  | identifier (name : String)
  | compare (op : Operator) (left right : Expr)
deriving DecidableEq

namespace Expr

/-- Whether an expression is not a comparison. -/
def isAtom (e : Expr) : Bool :=
  match e with
  | .compare _ _ _ => false
  | _ => true

end Expr

end Waymark
