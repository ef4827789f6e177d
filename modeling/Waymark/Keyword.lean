/-
**Keywords and suggestions for misspelled ones.**

A line starts with a keyword.  For a line whose first word is none, the keyword most similar to that
word is suggested, if it is similar enough.

Main definitions:

* `Keyword.statements`, `Keyword.options` — the keywords of statements and of route options;
* `Keyword.closest?` — the keyword that is most similar to a word;
* `Keyword.suggest` — the suggestion for a line.
-/
import Waymark.Similarity
import Waymark.Text.Blank
import Waymark.Text.Letter

set_option relaxedAutoImplicit false
set_option autoImplicit false

namespace Waymark

namespace Keyword

/-- The keywords of statements, in the order in which they are tried. -/
def statements : List String := ["when", "if", "show", "set", "route"]

/-- The keywords of route options. -/
def options : List String :=
  ["from", "to", "prefer", "avoid", "max stops", "depart at", "arrive before"]

/-- Which keywords a line may start with. -/
inductive Table where
  | statement
  | option
deriving DecidableEq

/-- The first words of the keywords of a table. -/
def Table.words (table : Table) : List String :=
  match table with
  | .statement => statements
  | .option => options.map (fun k => String.ofList ((Text.firstWord? k.toList).getD []))

/-! ### The closest keyword -/

/-- Whether `next` comes before `best` for a word: it is more similar to it, or equally similar and
the greater text. -/
def isBetter (word : List Char) (best next : String) : Bool :=
  let s := Similarity.score best.toList word
  let t := Similarity.score next.toList word
  s.below t || (s.level t && decide (best < next))

/-- The candidate that is most similar to a word, the greatest of several, among those whose
similarity is at least three fifths. -/
def closest? (candidates : List String) (word : List Char) : Option String :=
  match candidates.filter (fun k => (Similarity.score k.toList word).isClose) with
  | [] => none
  | k :: ks => some (ks.foldl (fun best next => if isBetter word best next then next else best) k)

/-! ### Suggestions -/

/-- There is text, but no word in it. -/
inductive NoWord where
  | mk
deriving DecidableEq

/-- What is said about a text without a word. -/
def NoWord.message (_ : NoWord) : String := "list index out of range"

/-- The keyword to suggest for a line that starts with none of the table: the closest one to its
first word in lower case, unless it is that word. -/
def suggest (table : Table) (text : String) : Except NoWord (Option String) :=
  match text.toList with
  | [] => .ok none
  | cs =>
    match Text.firstWord? cs with
    | none => .error .mk
    | some w =>
      let word := Text.lower w
      match closest? table.words word with
      | none => .ok none
      | some k => if k.toList = word then .ok none else .ok (some k)

end Keyword

end Waymark
