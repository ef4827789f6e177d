/-
**The kinds of nodes and their fields.**

A node of a program has a kind, and its kind tells which fields it has: the key of each field in
documents, the name under which it is shown in messages, what stands in its place when a document
leaves it out, and how its content is read.

Main definitions:

* `Kind` — the twelve kinds of nodes;
* `Field` — a field of a kind;
* `Kind.fields` — the fields of a kind, in order.
-/

set_option relaxedAutoImplicit false
set_option autoImplicit false

namespace Waymark

/-- The kinds of nodes. -/
inductive Kind where
  | program
  | when
  | branch
  | display
  | assign
  | route
  | text
  | number
  | boolean
  | time
  | identifier
  | compare
deriving DecidableEq

/-- What stands in the place of a field that a document leaves out. -/
inductive Missing where
  /-- Nothing can: the field is required. -/
  | refused
  /-- An empty block. -/
  | emptyBlock
  /-- The absence of a value. -/
  | null
deriving DecidableEq

/-- How the content of a field is read. -/
inductive Role where
  /-- A word for a comparison. -/
  | operator
  /-- A word for a preference. -/
  | preference
  /-- Words for avoidances. -/
  | avoidances
  /-- A node, a block of nodes, or a plain value. -/
  | content
deriving DecidableEq

/-- A field of a kind of nodes. -/
structure Field where
  /-- The key of the field in documents. -/
  key : String
  /-- The name of the field in messages. -/
  label : String
  missing : Missing := .refused
  role : Role := .content
deriving DecidableEq

namespace Kind

/-- All kinds. -/
def all : List Kind :=
  [.program, .when, .branch, .display, .assign, .route, .text, .number, .boolean, .time,
    .identifier, .compare]

/-- The tag of a kind in documents. -/
def tag (k : Kind) : String :=
  match k with
  | .program => "Program"
  | .when => "When"
  | .branch => "If"
  | .display => "Show"
  | .assign => "Set"
  | .route => "Route"
  | .text => "StringLiteral"
  | .number => "NumberLiteral"
  | .boolean => "BooleanLiteral"
  | .time => "TimeLiteral"
  | .identifier => "Identifier"
  | .compare => "Binary"

/-- The name of a kind in messages. -/
def label (k : Kind) : String :=
  match k with
  | .program => "Program"
  | .when => "WhenStatement"
  | .branch => "IfStatement"
  | .display => "ShowStatement"
  | .assign => "SetStatement"
  | .route => "RouteStatement"
  | .text => "StringLiteral"
  | .number => "NumberLiteral"
  | .boolean => "BooleanLiteral"
  | .time => "TimeLiteral"
  | .identifier => "Identifier"
  | .compare => "BinaryExpression"

/-- The kind with the given tag. -/
def ofTag? (tag : String) : Option Kind :=
  all.find? (fun k => k.tag == tag)

/-- The fields of a kind, in order. -/
def fields (k : Kind) : List Field :=
  match k with
  | .program => [⟨"body", "body", .emptyBlock, .content⟩]
  | .when =>
    [⟨"eventName", "event_name", .refused, .content⟩, ⟨"body", "body", .emptyBlock, .content⟩]
  | .branch =>
    [⟨"test", "test", .refused, .content⟩, ⟨"thenBody", "then_body", .emptyBlock, .content⟩,
      ⟨"elseBody", "else_body", .null, .content⟩]
  | .display => [⟨"value", "value", .refused, .content⟩]
  | .assign => [⟨"name", "name", .refused, .content⟩, ⟨"value", "value", .refused, .content⟩]
  | .route =>
    [⟨"name", "name", .refused, .content⟩, ⟨"from", "origin", .null, .content⟩,
      ⟨"to", "destination", .null, .content⟩, ⟨"prefer", "prefer", .null, .preference⟩,
      ⟨"avoid", "avoid", .null, .avoidances⟩, ⟨"maxStops", "max_stops", .null, .content⟩,
      ⟨"departAt", "depart_at", .null, .content⟩,
      ⟨"arriveBefore", "arrive_before", .null, .content⟩]
  | .text => [⟨"value", "value", .refused, .content⟩]
  | .number => [⟨"value", "value", .refused, .content⟩]
  | .boolean => [⟨"value", "value", .refused, .content⟩]
  | .time => [⟨"value", "value", .refused, .content⟩]
  | .identifier => [⟨"name", "name", .refused, .content⟩]
  | .compare =>
    [⟨"op", "op", .refused, .operator⟩, ⟨"left", "left", .refused, .content⟩,
      ⟨"right", "right", .refused, .content⟩]

@[simp] theorem ofTag?_tag (k : Kind) : ofTag? k.tag = some k := by
  cases k <;> rfl

theorem eq_tag_of_ofTag? {tag : String} {k : Kind} (h : ofTag? tag = some k) : k.tag = tag := by
  simpa using List.find?_some h

end Kind

end Waymark
