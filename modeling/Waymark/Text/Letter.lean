/-
**Letters: keyword letters, name characters, and letter case.**

Keywords are written in lower-case ASCII letters and are recognised in any letter case.  Besides its
ASCII capital, a keyword letter has the partners that case folding gives it: the long s for `s`,
the Kelvin sign for `k`, and the dotted capital and dotless small i for `i`.  The names in `set` and
`route` headers are folded in the same way; an identifier inside an expression is plain ASCII.

Main definitions:

* `Text.isLetter` — whether a character counts as a given keyword letter;
* `Text.isNameStart`, `Text.isNamePart` — the characters of a name in a header;
* `Text.isIdentifierStart`, `Text.isIdentifierPart` — the characters of an identifier;
* `Text.lower`, `Text.upper` — letter case, as far as it can meet an ASCII word.
-/

set_option relaxedAutoImplicit false
set_option autoImplicit false

namespace Waymark

namespace Text

/-- The long s, which folds to `s`. -/
def longS : Char := '\u017f'

/-- The Kelvin sign, which folds to `k`. -/
def kelvin : Char := '\u212a'

/-- The capital i with a dot, which folds to `i`. -/
def dottedI : Char := '\u0130'

/-- The small i without a dot, which folds to `i`. -/
def dotlessI : Char := '\u0131'

/-- The combining dot that remains when the dotted capital i is put in lower case. -/
def dotAbove : Char := '\u0307'

/-- The characters outside ASCII that fold to a given letter. -/
def partners (letter : Char) : List Char :=
  match letter with
  | 's' => [longS]
  | 'k' => [kelvin]
  | 'i' => [dottedI, dotlessI]
  | _ => []

/-- Whether `c` counts as the keyword letter `letter`, in either case or as one of its partners. -/
def isLetter (letter c : Char) : Bool :=
  c.toLower == letter || (partners letter).contains c

/-- Whether `c` is one of the characters outside ASCII that fold to an ASCII letter. -/
def isPartner (c : Char) : Bool :=
  c == longS || c == kelvin || c == dottedI || c == dotlessI

/-! ### The characters of names and identifiers -/

/-- An identifier starts with an ASCII letter or an underscore. -/
def isIdentifierStart (c : Char) : Bool :=
  c.isAlpha || c == '_'

/-- An identifier goes on with ASCII letters, digits and underscores. -/
def isIdentifierPart (c : Char) : Bool :=
  c.isAlphanum || c == '_'

/-- A name in a header may start like an identifier or with a folded letter. -/
def isNameStart (c : Char) : Bool :=
  isIdentifierStart c || isPartner c

/-- A name in a header may go on like an identifier or with folded letters. -/
def isNamePart (c : Char) : Bool :=
  isIdentifierPart c || isPartner c

/-- Whether a text is an identifier. -/
def isIdentifier (cs : List Char) : Bool :=
  match cs with
  | [] => false
  | c :: rest => isIdentifierStart c && rest.all isIdentifierPart

/-! ### Letter case -/

/-- The lower case of one character, as far as it holds ASCII letters: the Kelvin sign becomes `k`
and the dotted capital i becomes `i` and a combining dot. -/
def lowerChar (c : Char) : List Char :=
  if c = dottedI then ['i', dotAbove]
  else if c = kelvin then ['k']
  else [c.toLower]

/-- The lower case of a text, as far as it holds ASCII letters. -/
def lower (cs : List Char) : List Char :=
  cs.flatMap lowerChar

/-- The characters outside ASCII whose upper case is made of ASCII letters: the sharp s, the dotless
i, the long s and the ligatures. -/
def capitals : List (Char × List Char) :=
  [('\u00DF', ['S', 'S']), (dotlessI, ['I']), (longS, ['S']), ('\uFB00', ['F', 'F']),
    ('\uFB01', ['F', 'I']), ('\uFB02', ['F', 'L']), ('\uFB03', ['F', 'F', 'I']),
    ('\uFB04', ['F', 'F', 'L']), ('\uFB05', ['S', 'T']), ('\uFB06', ['S', 'T'])]

/-- The upper case of one character, as far as it holds ASCII letters. -/
def upperChar (c : Char) : List Char :=
  (capitals.lookup c).getD [c.toUpper]

/-- The upper case of a text, as far as it holds ASCII letters. -/
def upper (cs : List Char) : List Char :=
  cs.flatMap upperChar

/-! ### Letters and folding -/

theorem isLetter_toLower {letter c : Char} (h : c.toLower = letter) : isLetter letter c = true := by
  simp [isLetter, h]

@[simp] theorem lower_nil : lower [] = [] := rfl

@[simp] theorem lower_cons (c : Char) (cs : List Char) :
    lower (c :: cs) = lowerChar c ++ lower cs := rfl

end Text

end Waymark
