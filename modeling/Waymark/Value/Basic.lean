/-
**Values.**

Values are what variables hold and what programs show.  Since a program may be given as a document
whose fields hold anything at all, the nodes of programs are values too: a node is a kind and the
contents of its fields in order.

Main definitions:

* `Value` — values, nodes included;
* `Value.literal` — a value as it is shown in messages;
* `Value.same` — equality of values, numbers of different kinds being compared as numbers;
* `Expr.toValue`, `Stmt.toValue`, `Program.toValue` — the nodes of a program tree.
-/
import Waymark.Json.Basic
import Waymark.Stmt
import Waymark.Value.Kind
import Waymark.Vocabulary

set_option relaxedAutoImplicit false
set_option autoImplicit false

namespace Waymark

/-- A value. -/
inductive Value where
  | null
  | bool (value : Bool)
  | int (value : Int)
  | float (value : Double)
  | text (value : String)
  /-- A list that was handed in from outside. -/
  | list (items : List Value)
  /-- A block of nodes, or the avoidances of a route plan. -/
  | block (items : List Value)
  | operator (op : Operator)
  | preference (preference : Preference)
  | avoidance (avoidance : Avoidance)
  /-- A node: its kind and the contents of its fields. -/
  | node (kind : Kind) (fields : List Value)
deriving Inhabited

namespace Value

/-! ### The nodes of a program -/

/-- A program with the given block. -/
@[match_pattern] abbrev programNode (body : Value) : Value := .node .program [body]

/-- A rule for an event. -/
@[match_pattern] abbrev whenNode (event body : Value) : Value := .node .when [event, body]

/-- A conditional. -/
@[match_pattern] abbrev branchNode (test thenBody elseBody : Value) : Value :=
  .node .branch [test, thenBody, elseBody]

/-- Show a value. -/
@[match_pattern] abbrev displayNode (value : Value) : Value := .node .display [value]

/-- Bind a variable. -/
@[match_pattern] abbrev assignNode (name value : Value) : Value := .node .assign [name, value]

/-- A text literal. -/
@[match_pattern] abbrev textNode (value : Value) : Value := .node .text [value]

/-- A number literal. -/
@[match_pattern] abbrev numberNode (value : Value) : Value := .node .number [value]

/-- A truth value. -/
@[match_pattern] abbrev booleanNode (value : Value) : Value := .node .boolean [value]

/-- A clock reading. -/
@[match_pattern] abbrev timeNode (value : Value) : Value := .node .time [value]

/-- An identifier. -/
@[match_pattern] abbrev identifierNode (name : Value) : Value := .node .identifier [name]

/-- A comparison. -/
@[match_pattern] abbrev compareNode (op left right : Value) : Value :=
  .node .compare [op, left, right]

/-! ### Values in messages -/

/-- A member of a closed vocabulary as it is shown in messages. -/
def memberLiteral (vocabulary : Vocabulary) (label word : String) : List Char :=
  '<' :: (vocabulary.label.toList ++ '.' :: (label.toList ++ ':' :: ' ' ::
    (Text.quote word.toList ++ ['>'])))

mutual

/-- A value as it is shown in messages. -/
def literal (value : Value) : List Char :=
  match value with
  | .null => "None".toList
  | .bool true => "True".toList
  | .bool false => "False".toList
  | .int n => Numeral.integer n
  | .float x => x.text
  | .text s => Text.quote s.toList
  | .list items => '[' :: (Json.commaSeparated (literals items) ++ [']'])
  | .block [] => ['(', ')']
  | .block [item] => '(' :: (literal item ++ [',', ')'])
  | .block (item :: items) =>
    '(' :: (Json.commaSeparated (literal item :: literals items) ++ [')'])
  | .operator op => memberLiteral .operators op.label op.word
  | .preference p => memberLiteral .preferences p.label p.word
  | .avoidance a => memberLiteral .avoidances a.label a.word
  | .node kind fields =>
    kind.label.toList ++ '(' :: (Json.commaSeparated (fieldLiterals kind.fields fields) ++ [')'])

/-- Each of several values as it is shown in messages. -/
def literals (items : List Value) : List (List Char) :=
  match items with
  | [] => []
  | item :: items => literal item :: literals items

/-- The fields of a node as they are shown in messages. -/
def fieldLiterals (infos : List Field) (fields : List Value) : List (List Char) :=
  match infos, fields with
  | info :: infos, value :: fields =>
    (info.label.toList ++ '=' :: literal value) :: fieldLiterals infos fields
  | _, _ => []

end

/-- The name of the kind of a value in messages. -/
def typeName (value : Value) : String :=
  match value with
  | .null => "NoneType"
  | .bool _ => "bool"
  | .int _ => "int"
  | .float _ => "float"
  | .text _ => "str"
  | .list _ => "list"
  | .block _ => "tuple"
  | .operator _ => Vocabulary.operators.label
  | .preference _ => Vocabulary.preferences.label
  | .avoidance _ => Vocabulary.avoidances.label
  | .node kind _ => kind.label

/-! ### Equality -/

/-- The whole number that a truth value or a whole number is. -/
def whole? (value : Value) : Option Int :=
  match value with
  | .bool true => some 1
  | .bool false => some 0
  | .int n => some n
  | _ => none

/-- Equality of doubles as the contents of values: NaN counts as equal to itself. -/
def sameDouble (x y : Double) : Bool := (x.isNaN && y.isNaN) || x.same y

mutual

/-- Equality of values.  Truth values and numbers of both kinds are compared as numbers. -/
def same (a b : Value) : Bool :=
  match a, b with
  | .null, .null => true
  | .text s, .text t => s == t
  | .list as, .list bs => sameAll as bs
  | .block as, .block bs => sameAll as bs
  | .operator p, .operator q => p == q
  | .preference p, .preference q => p == q
  | .avoidance p, .avoidance q => p == q
  | .node k as, .node l bs => k == l && sameAll as bs
  | .float x, .float y => sameDouble x y
  | .float x, b =>
    match b.whole? with
    | some n => x.isInt n
    | none => false
  | a, .float y =>
    match a.whole? with
    | some n => y.isInt n
    | none => false
  | a, b =>
    match a.whole?, b.whole? with
    | some m, some n => m == n
    | _, _ => false

/-- Equality of lists of values, item by item. -/
def sameAll (as bs : List Value) : Bool :=
  match as, bs with
  | [], [] => true
  | a :: as, b :: bs => same a b && sameAll as bs
  | _, _ => false

end

end Value

/-! ### Program trees as values -/

/-- An optional value, absence being a value of its own. -/
def Value.ofOption {α : Type} (f : α → Value) (x : Option α) : Value :=
  match x with
  | none => .null
  | some a => f a

/-- The node of an expression. -/
def Expr.toValue (e : Expr) : Value :=
  match e with
  | .text s => .textNode (.text s)
  | .number x => .numberNode (.float x)
  | .boolean b => .booleanNode (.bool b)
  | .time s => .timeNode (.text s)
  | .identifier name => .identifierNode (.text name)
  | .compare op left right => .compareNode (.operator op) left.toValue right.toValue

/-- The node of a route plan. -/
def Route.toValue (r : Route) : Value :=
  .node .route
    [.text r.name, .ofOption .text r.origin, .ofOption .text r.destination,
      .ofOption .preference r.prefer,
      .ofOption (fun avoid => .block (avoid.map .avoidance)) r.avoid,
      .ofOption (fun n => .int n) r.maxStops, .ofOption .text r.departAt,
      .ofOption .text r.arriveBefore]

namespace Stmt

mutual

/-- The node of a statement. -/
def toValue (s : Stmt) : Value :=
  match s with
  | .when event body => .whenNode (.text event) (.block (toValues body))
  | .branch test thenBody none =>
    .branchNode test.toValue (.block (toValues thenBody)) .null
  | .branch test thenBody (some elseBody) =>
    .branchNode test.toValue (.block (toValues thenBody)) (.block (toValues elseBody))
  | .display value => .displayNode value.toValue
  | .assign name value => .assignNode (.text name) value.toValue
  | .route plan => plan.toValue

/-- The nodes of several statements. -/
def toValues (body : List Stmt) : List Value :=
  match body with
  | [] => []
  | s :: body => toValue s :: toValues body

end

end Stmt

/-- The node of a program. -/
def Program.toValue (p : Program) : Value := .programNode (.block (Stmt.toValues p.body))

end Waymark
