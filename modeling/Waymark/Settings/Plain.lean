/-
**Plain settings.**

The conventions that a program goes by if it has no others.  An environment file is expected to be
plain: each of its lines is a name, or a name and a text with a sign between them.  Quotes, comments
and references to variables are not known here, and a file that has them is a matter for other
conventions.  Truth values are named by a dozen of words, and by zero and one.

Main definitions:

* `Environment.readPlain` — what a plain file has;
* `Settings.plainTruth` — the truth value that a value names;
* `Settings.Conventions.plain` — both together;
* `Settings.build` — settings built with them.
-/
import Waymark.Line
import Waymark.Settings.Basic

set_option relaxedAutoImplicit false
set_option autoImplicit false

namespace Waymark

namespace Environment

/-! ### Plain files -/

/-- What a line of a plain file has: a name and a text, or a name alone. -/
def entryOf? (line : List Char) : Option (String × Option String) :=
  match line.dropWhile (fun c => c != '=') with
  | [] => if Text.strip line = [] then none else some (String.ofList (Text.strip line), none)
  | _ :: text =>
    some (String.ofList (Text.strip (line.takeWhile (fun c => c != '='))),
      some (String.ofList (Text.strip text)))

/-- The lines of a plain file.  A carriage return ends a line as a line feed does; the empty line
between the two has nothing. -/
def plainLines (file : List Char) : List (List Char) :=
  Source.splitLines (file.map (fun c => if c = '\r' then '\n' else c))

/-- What a plain file has, in any environment. -/
def readPlain (_ : Environment) (file : String) : List (String × Option String) :=
  setAll ((plainLines file.toList).filterMap entryOf?)

end Environment

namespace Settings

/-! ### Names of truth values -/

/-- The words for truth and falsehood. -/
def truthWords : List (String × Bool) :=
  [("0", false), ("off", false), ("f", false), ("false", false), ("n", false), ("no", false),
    ("1", true), ("on", true), ("t", true), ("true", true), ("y", true), ("yes", true)]

/-- The bound of the whole numbers that are taken for the name of a truth value: those that fit
into 64 bits with a sign. -/
def wholeBound : Int := 9223372036854775808

/-- The truth value that a whole number names: zero or one. -/
def truthOfWhole (n : Int) : Except Cause Bool :=
  if n = 0 then .ok false else if n = 1 then .ok true else .error .notTruthName

/-- The truth value that a value names: a word in any ASCII letter case, or a number that is zero
or one.  A number that is not whole, or beyond the bound, is of a kind that has no truth values; of
doubles, the bound itself counts as beyond on either side. -/
def plainTruth (value : Value) : Except Cause Bool :=
  match value with
  | .bool b => .ok b
  | .int n =>
    if -wholeBound ≤ n ∧ n < wholeBound then truthOfWhole n else .error .notTruthKind
  | .float x =>
    match x.toInt? with
    | some n => if n.natAbs < wholeBound.natAbs then truthOfWhole n else .error .notTruthKind
    | none => .error .notTruthKind
  | .text t =>
    match truthWords.find? (fun (w, _) => w.toList == t.toList.map Char.toLower) with
    | some (_, b) => .ok b
    | none => .error .notTruthName
  | _ => .error .notTruthKind

/-! ### Building settings -/

/-- Plain files, and the words for truth and falsehood. -/
def Conventions.plain : Conventions := ⟨Environment.readPlain, plainTruth⟩

/-- The settings that sources give by plain conventions, or all that is wrong about them. -/
def build (s : Sources) : Except (List Error) Settings := buildWith .plain s

end Settings

end Waymark
