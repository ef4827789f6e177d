/-
**Diagnostics.**

A diagnostic is what is told about a failure: a message with a code, the line it belongs to, and
details that depend on its kind.  It is shown on one line, each detail on an indented line of its
own.

Main definitions:

* `Diagnostic` — a message with its details;
* `Diagnostic.Kind.accepts` — whether fields make a diagnostic of a kind;
* `Diagnostic.render` — a diagnostic as text.
-/

set_option relaxedAutoImplicit false
set_option autoImplicit false

namespace Waymark

namespace Diagnostic

/-- The kinds of diagnostics. -/
inductive Kind where
  /-- Any failure. -/
  | general
  /-- A line that does not fit the language. -/
  | parse
  /-- A line with the wrong indent. -/
  | indentation
  /-- A program that cannot be run. -/
  | evaluation
deriving DecidableEq

/-- The code of a kind, unless a diagnostic brings its own. -/
def Kind.code (kind : Kind) : String :=
  match kind with
  | .general => "FLOW_ERROR"
  | .parse => "PARSE_ERROR"
  | .indentation => "INDENTATION_ERROR"
  | .evaluation => "INTERNAL_ERROR"

/-- The names of the fields that a diagnostic of each kind has. -/
def Kind.fields (kind : Kind) : List String :=
  let basic := ["message", "line", "code"]
  let texts := ["found", "suggestion"]
  match kind with
  | .general => basic
  | .evaluation => basic
  | .parse => basic ++ texts
  | .indentation => basic ++ texts ++ ["expected_indent", "found_indent"]

/-- Whether fields of the given names make a diagnostic of a kind: the message is among them, and
the kind has them all. -/
def Kind.accepts (kind : Kind) (names : List String) : Bool :=
  names.contains "message" && names.all kind.fields.contains

end Diagnostic

/-- What is told about a failure. -/
structure Diagnostic where
  kind : Diagnostic.Kind
  message : String
  line : Option Int := none
  code : String := kind.code
  /-- The text that was met. -/
  found : Option String := none
  suggestion : Option String := none
  expectedIndent : Option Int := none
  foundIndent : Option Int := none
deriving DecidableEq

namespace Diagnostic

/-- The first line: where, which code, what. -/
def headline (d : Diagnostic) : String :=
  let text := "[" ++ d.code ++ "] " ++ d.message
  match d.line with
  | none => text
  | some n => "Line " ++ toString n ++ " | " ++ text

/-- A detail that is shown if there is a text and it is not empty. -/
def textDetail (label : String) (text : Option String) : List String :=
  match text with
  | none => []
  | some t => if t = "" then [] else [label ++ ": " ++ t]

/-- A detail that is shown if there is an indent. -/
def indentDetail (label : String) (indent : Option Int) : List String :=
  match indent with
  | none => []
  | some n => [label ++ ": " ++ toString n ++ " spaces"]

/-- The details that a diagnostic of each kind shows. -/
def details (d : Diagnostic) : List String :=
  match d.kind with
  | .general => []
  | .evaluation => []
  | .parse => textDetail "Found" d.found ++ textDetail "Suggestion" d.suggestion
  | .indentation =>
    indentDetail "Expected indentation" d.expectedIndent
      ++ indentDetail "Found indentation" d.foundIndent
      ++ textDetail "Suggestion" d.suggestion

/-- A diagnostic as text. -/
def render (d : Diagnostic) : String :=
  d.details.foldl (fun text detail => text ++ "\n  " ++ detail) d.headline

end Diagnostic

end Waymark
