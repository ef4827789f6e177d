/-
**Written expressions are read back.**

An atom may be written in several ways: a truth value in any letter case, a text in either kind of
quotes, a number by any numeral that stands for it.  A comparison is two written atoms and a written
operator, with single spaces between them.  Reading splits a text at the first of eight patterns that
occurs in it and does not look at quotes, so what has to be shown is that no pattern occurs in a
written expression but at its operator.

The argument goes by places.  A separator is *silent* in a part of a text if it is found from no place
within that part, whatever it is found from elsewhere; a written expression is cut into its atoms, its
operator and the spaces between them, and every separator that is tried before the right one is silent
in all of them.

Main definitions:

* `Text.standsIn` — whether a word stands in a text with a blank on either side;
* `Expr.IsPlainAtom`, `Expr.IsPlain` — the expressions that can be written;
* `Render.Atom`, `Render.Comparison`, `Render.Expression` — what is written for them;
* `Text.Silent` — a separator that is not found from within a part of a text.

Main results:

* `Render.IsAtomText.silent_words` — no word of a comparison is found from within a written atom;
* `Render.split?_comparison` — a written comparison is split at its operator;
* `Render.readExpr_eq` — **a written expression is read back**.
-/
import Waymark.Parse.Expr
import Waymark.Proofs.Pattern

set_option relaxedAutoImplicit false
set_option autoImplicit false

namespace Waymark

/-! ### What can be written -/

namespace Text

/-- Whether a word, in any case that counts for keywords, stands in a text with a blank on either
side of it. -/
def standsIn (word : String) (cs : List Char) : Bool :=
  match cs with
  | [] => false
  | b :: cs =>
    (isBlank b &&
      match dropWord? word.toList cs with
      | some (c :: _) => isBlank c
      | _ => false) || standsIn word cs

/-- A clock reading: two digits, a colon and two digits. -/
def IsClock (cs : List Char) : Prop :=
  ∃ a b c d, cs = [a, b, ':', c, d] ∧ ∀ x ∈ [a, b, c, d], x.isDigit = true

/-- A numeral: digits, and digits behind a point or none, after a minus sign or none. -/
def IsNumeral (cs : List Char) : Prop :=
  ∃ sign whole fraction, cs = sign ++ (whole ++ fraction) ∧ sign ∈ [[], ['-']] ∧
    whole ≠ [] ∧ (∀ d ∈ whole, d.isDigit = true) ∧
    (fraction = [] ∨ ∃ ds, fraction = '.' :: ds ∧ ds ≠ [] ∧ ∀ d ∈ ds, d.isDigit = true)

end Text

/-- The words of comparisons that a quoted text must not hold. -/
def Operator.words : List String := ["is", "after", "before"]

/-- A text that can be written in quotes: it has no line break, no sign of a comparison, and no word
of one with a blank on either side. -/
structure Text.IsPlain (s : String) : Prop where
  no_break : '\n' ∉ s.toList
  no_less : '<' ∉ s.toList
  no_greater : '>' ∉ s.toList
  no_word : ∀ word ∈ Operator.words, Text.standsIn word s.toList = false

namespace Expr

/-- An atom that can be written: texts and clock readings have their form, and identifiers are not
truth values. -/
def IsPlainAtom (e : Expr) : Prop :=
  match e with
  | .text s => Text.IsPlain s
  | .number _ => True
  | .boolean _ => True
  | .time s => Text.IsClock s.toList
  | .identifier name =>
    Text.isIdentifier name.toList = true ∧
      ¬ Text.Spells "true" name.toList ∧ ¬ Text.Spells "false" name.toList
  | .compare _ _ _ => False

/-- An expression that can be written: an atom, or a comparison of two atoms. -/
def IsPlain (e : Expr) : Prop :=
  match e with
  | .compare _ left right => left.IsPlainAtom ∧ right.IsPlainAtom
  | e => e.IsPlainAtom

end Expr

/-! ### What is written -/

/-- The ways in which a comparison is written, in small letters. -/
def Operator.phrases (op : Operator) : List String :=
  match op with
  | .is => ["is"]
  | .isNot => ["is not"]
  | .greater => [">"]
  | .less => ["<"]
  | .after => ["after", "is after"]
  | .before => ["before", "is before"]

namespace Render

open Text (Spells)

/-- A text in quotes of either kind. -/
def Quoted (s : String) (cs : List Char) : Prop :=
  ∃ mark ∈ ['"', '\x27'], cs = mark :: (s.toList ++ [mark])

/-- `Atom e cs`: the text `cs` is written for the atom `e`. -/
inductive Atom : Expr → List Char → Prop
  | text {s : String} {cs : List Char} : Quoted s cs → Atom (.text s) cs
  | yes {cs : List Char} : Spells "true" cs → Atom (.boolean true) cs
  | no {cs : List Char} : Spells "false" cs → Atom (.boolean false) cs
  | number {x : Double} {cs : List Char} :
      Text.IsNumeral cs → Double.read? cs = some x → Atom (.number x) cs
  | time (s : String) : Atom (.time s) s.toList
  | identifier (name : String) : Atom (.identifier name) name.toList

/-- `Comparison op cs`: the text `cs` is written for the operator `op`. -/
def Comparison (op : Operator) (cs : List Char) : Prop :=
  ∃ phrase ∈ op.phrases, Spells phrase cs

/-- `Expression e cs`: the text `cs` is written for the expression `e`. -/
inductive Expression : Expr → List Char → Prop
  | atom {e : Expr} {cs : List Char} : Atom e cs → Expression e cs
  | compare {op : Operator} {left right : Expr} {xs ys zs : List Char} :
      Atom left xs → Comparison op ys → Atom right zs →
      Expression (.compare op left right) (xs ++ ' ' :: (ys ++ ' ' :: zs))

end Render

/-! ### Silent separators -/

namespace Text

/-- `Silent separator part rest`: in the text `part ++ rest`, the separator is not found from any
place within `part`. -/
def Silent {α : Type} (separator : List Char → Option α) (part rest : List Char) : Prop :=
  ∀ before after, part = before ++ after → after ≠ [] → separator (after ++ rest) = none

theorem Silent.nil {α : Type} (separator : List Char → Option α) (rest : List Char) :
    Silent separator [] rest := by
  intro before after hpart hne
  exact absurd (List.append_eq_nil_iff.1 hpart.symm).2 hne

theorem Silent.cons {α : Type} {separator : List Char → Option α} {c : Char}
    {part rest : List Char} (hc : separator (c :: (part ++ rest)) = none)
    (h : Silent separator part rest) : Silent separator (c :: part) rest := by
  intro before after hpart hne
  cases before with
  | nil =>
      rw [List.nil_append] at hpart
      rw [← hpart]
      exact hc
  | cons d before =>
      rw [List.cons_append, List.cons.injEq] at hpart
      exact h before after hpart.2 hne

theorem Silent.tail {α : Type} {separator : List Char → Option α} {c : Char}
    {part rest : List Char} (h : Silent separator (c :: part) rest) : Silent separator part rest := by
  intro before after hpart hne
  exact h (c :: before) after (by rw [hpart]; rfl) hne

theorem Silent.append {α : Type} {separator : List Char → Option α} {part more rest : List Char}
    (h : Silent separator part (more ++ rest)) (hmore : Silent separator more rest) :
    Silent separator (part ++ more) rest := by
  -- the places of the first part, one after the other, then those of the second
  induction part with
  | nil => exact hmore
  | cons c part ih =>
      rw [List.cons_append]
      refine .cons ?_ (ih h.tail)
      rw [List.append_assoc]
      exact h [] (c :: part) rfl (List.cons_ne_nil c part)

/-- A text is not split at a separator that is silent in all of it. -/
theorem splitAt?_eq_none {α : Type} {separator : List Char → Option α} {cs : List Char}
    (h : Silent separator cs []) (hnil : separator [] = none) : splitAt? separator cs = none := by
  induction cs with
  | nil => rfl
  | cons c cs ih =>
      have hnone : separator cs = none := by
        cases cs with
        | nil => exact hnil
        | cons d cs => simpa using h.tail [] (d :: cs) rfl (List.cons_ne_nil d cs)
      rw [splitAt?, hnone, ih h.tail]
      exact ite_self none

/-- A text is split behind the part in which the separator is silent, if it is found there. -/
theorem splitAt?_append {α : Type} {separator : List Char → Option α} {part rest : List Char}
    {found : α} (h : Silent separator part rest) (hne : part ≠ []) (hbreak : '\n' ∉ part)
    (hfound : separator rest = some found) :
    splitAt? separator (part ++ rest) = some (part, found) := by
  induction part with
  | nil => exact absurd rfl hne
  | cons c part ih =>
      have hc : c ≠ '\n' := fun heq => hbreak (heq ▸ List.mem_cons_self)
      rw [List.cons_append, splitAt?, if_neg hc]
      cases part with
      | nil => rw [List.nil_append, hfound]
      | cons d part =>
          have hnone := h [c] (d :: part) rfl (List.cons_ne_nil d part)
          have hrest := ih h.tail (List.cons_ne_nil d part)
            (fun hmem => hbreak (List.mem_cons_of_mem c hmem))
          rw [hnone, hrest]

/-! ### Where words are found -/

/-- A word between two blanks stands in the text around it. -/
theorem standsIn_append {word : String} {written : List Char} {b c : Char}
    (hb : isBlank b = true) (h : dropWord? word.toList written = some []) (hc : isBlank c = true)
    (before after : List Char) :
    standsIn word (before ++ b :: (written ++ c :: after)) = true := by
  induction before with
  | nil =>
      rw [List.nil_append, standsIn, dropWord?_append h]
      simp [hb, hc]
  | cons d before ih => rw [List.cons_append, standsIn, ih, Bool.or_true]

/-- A text that starts another one, and lacks the character behind the first part of it, lies within
that part. -/
theorem eq_append_of_not_mem {start tail part rest : List Char} {c : Char}
    (h : part ++ c :: rest = start ++ tail) (hc : c ∉ start) : ∃ more, part = start ++ more := by
  rcases List.append_eq_append_iff.1 h with ⟨more, hstart, htail⟩ | ⟨more, hpart, -⟩
  · cases more with
    | nil => exact ⟨[], by rw [hstart, List.append_nil, List.append_nil]⟩
    | cons d more =>
        rw [List.cons_append, List.cons.injEq] at htail
        exact absurd (by rw [hstart, htail.1]; simp) hc
  · exact ⟨more, hpart⟩

end Text

namespace Parse

open Text (Spells StartsSolid IsPhrase IsWord clash)

/-! ### Separators at the start of a text -/

/-- Words are found only behind a blank. -/
theorem afterWords?_eq_none {words : List String} {cs : List Char} (h : StartsSolid cs) :
    afterWords? words cs = none := by
  cases words with
  | nil => exact Text.afterBlanks_eq_none _ h
  | cons word words => exact Text.afterBlanks_eq_none _ h

/-- Behind a space and a spelled word, the other words are looked for. -/
theorem afterWords?_spells {word : String} {written : List Char} (h : Spells word written)
    (hword : IsWord word) (words : List String) (rest : List Char) :
    afterWords? (word :: words) (' ' :: (written ++ rest)) = afterWords? words rest := by
  have hphrase := h.isPhrase hword
  rw [afterWords?, Text.afterBlanks_space _ (hphrase.starts.append hphrase.ne_nil rest),
    h.afterWord_append]

/-- Behind a space, a spelled word is not found as a word that it differs from. -/
theorem afterWords?_clash {word other : String} {written : List Char} (h : Spells word written)
    (hword : IsWord word) (hclash : clash other.toList word.toList = true) (words : List String)
    (rest : List Char) :
    afterWords? (other :: words) (' ' :: (written ++ rest)) = none := by
  have hphrase := h.isPhrase hword
  rw [afterWords?, Text.afterBlanks_space _ (hphrase.starts.append hphrase.ne_nil rest),
    h.afterWord_eq_none hword.visible hclash]

/-- Behind all words and a space, the right side is the phrase that stands there. -/
theorem afterWords?_nil {cs : List Char} (h : IsPhrase cs) :
    afterWords? [] (' ' :: cs) = some cs := by
  rw [afterWords?, Text.afterBlanks_space _ h.starts, Text.restOfLine?_eq h.ne_nil h.no_break]

/-- Words are found only on a text that starts with a blank. -/
theorem exists_blank_of_afterWords? {words : List String} {cs right : List Char}
    (h : afterWords? words cs = some right) :
    ∃ c rest, cs = c :: rest ∧ Text.isBlank c = true := by
  -- on any other text the words are not even looked for
  by_contra hnone
  rw [afterWords?_eq_none] at h
  · simp at h
  · intro c hc
    obtain ⟨rest, rfl⟩ := List.head?_eq_some_iff.1 hc
    by_contra hblank
    exact hnone ⟨c, rest, rfl, by simpa using hblank⟩

/-- Where words are found: blanks, the first word, and a blank. -/
theorem afterWords?_cons_eq_some {word : String} {words : List String} {cs right : List Char}
    (h : afterWords? (word :: words) cs = some right) :
    ∃ blanks b written c rest, cs = blanks ++ b :: (written ++ c :: rest) ∧
      (∀ x ∈ blanks, Text.isBlank x = true) ∧ Text.isBlank b = true ∧
      Text.dropWord? word.toList written = some [] ∧ Text.isBlank c = true := by
  obtain ⟨blanks, behind, rfl, hne, hblanks, hbehind⟩ := Text.afterBlanks_eq_some h
  obtain ⟨front, b, rfl⟩ := (List.eq_nil_or_concat' blanks).resolve_left hne
  rw [Text.afterWord] at hbehind
  cases hdrop : Text.dropWord? word.toList behind with
  | none => simp [hdrop] at hbehind
  | some rest =>
      simp only [hdrop] at hbehind
      obtain ⟨written, rfl, hwritten⟩ := Text.dropWord?_eq_some hdrop
      obtain ⟨c, rest, rfl, hc⟩ := exists_blank_of_afterWords? hbehind
      refine ⟨front, b, written, c, rest, by simp, ?_, ?_, hwritten, hc⟩
      · intro x hx
        exact hblanks x (List.mem_append_left [b] hx)
      · exact hblanks b (List.mem_append_right front (List.mem_singleton_self b))

/-- Where a sign is found: behind blanks. -/
theorem afterSign?_eq_some {sign : Char} {cs right : List Char}
    (h : afterSign? sign cs = some right) :
    ∃ blanks rest, cs = blanks ++ sign :: rest ∧ ∀ x ∈ blanks, Text.isBlank x = true := by
  obtain ⟨blanks, behind, rfl, hblanks, hbehind⟩ := Text.afterOptionalBlanks_eq_some h
  cases behind with
  | nil => simp at hbehind
  | cons c rest =>
      simp only at hbehind
      split at hbehind
      · rename_i hc
        exact ⟨blanks, rest, by rw [hc], hblanks⟩
      · simp at hbehind

/-- Behind spaces around it, a sign is found. -/
theorem afterSign?_space {sign : Char} {cs : List Char} (hsign : Text.isBlank sign = false)
    (h : IsPhrase cs) : afterSign? sign (' ' :: sign :: ' ' :: cs) = some cs := by
  have hright : Text.afterOptionalBlanks Text.restOfLine? (' ' :: cs) = some cs := by
    rw [Text.afterOptionalBlanks, Text.afterBlanks_space _ h.starts,
      Text.restOfLine?_eq h.ne_nil h.no_break]
  have hsolid : StartsSolid (sign :: ' ' :: cs) := by
    rintro x ⟨rfl⟩
    exact hsign
  rw [afterSign?, Text.afterOptionalBlanks, Text.afterBlanks_space _ hsolid]
  simp [hright]

end Parse

/-! ### Written atoms -/

namespace Render

open Parse
open Text (Spells StartsSolid IsPhrase Silent IsWord clash)

/-- A text without blanks and without signs of comparisons. -/
structure IsSolid (cs : List Char) : Prop where
  ne_nil : cs ≠ []
  no_blank : ∀ c ∈ cs, Text.isBlank c = false
  no_less : '<' ∉ cs
  no_greater : '>' ∉ cs

/-- What is written for an atom is either solid or a plain text in quotes. -/
inductive IsAtomText (cs : List Char) : Prop
  | solid : IsSolid cs → IsAtomText cs
  | quoted {s : String} : Text.IsPlain s → Quoted s cs → IsAtomText cs

/-- Whether no letter of a word counts as a quote. -/
def isQuoteless (word : String) : Bool :=
  word.toList.all fun letter => !Text.isLetter letter '"' && !Text.isLetter letter '\x27'

/-- The words of comparisons are written without quotes. -/
theorem word_facts : ∀ word ∈ Operator.words, IsWord word ∧ isQuoteless word = true := by
  decide

/-- A quote is no character of a word. -/
theorem mark_not_mem {word : String} (hword : isQuoteless word = true) {mark : Char}
    (hmark : mark ∈ ['"', '\x27']) {written : List Char}
    (h : Text.dropWord? word.toList written = some []) : mark ∉ written := by
  intro hmem
  obtain ⟨letter, hletter, hcount⟩ := Text.exists_isLetter_of_dropWord? h hmem
  have hnot := List.all_eq_true.1 hword letter hletter
  simp only [Bool.and_eq_true, Bool.not_eq_true'] at hnot
  rcases List.mem_pair.1 hmark with rfl | rfl
  · rw [hnot.1] at hcount
    simp at hcount
  · rw [hnot.2] at hcount
    simp at hcount

/-- A quote is no blank. -/
theorem isBlank_mark {mark : Char} (hmark : mark ∈ ['"', '\x27']) : Text.isBlank mark = false := by
  rcases List.mem_pair.1 hmark with rfl | rfl <;> rfl

/-- A text in quotes has no blanks at its ends. -/
theorem Quoted.solid {s : String} {cs : List Char} (h : Quoted s cs) :
    StartsSolid cs ∧ StartsSolid cs.reverse := by
  obtain ⟨mark, hmark, rfl⟩ := h
  have hblank := isBlank_mark hmark
  constructor
  · rintro c ⟨rfl⟩
    exact hblank
  · intro c hc
    simp only [List.reverse_cons, List.reverse_append, List.reverse_nil, List.nil_append,
      List.cons_append, List.head?_cons, Option.mem_def, Option.some.injEq] at hc
    rw [← hc]
    exact hblank

/-- A text in quotes is a phrase if it keeps to its line. -/
theorem Quoted.isPhrase {s : String} {cs : List Char} (h : Quoted s cs)
    (hbreak : '\n' ∉ s.toList) : IsPhrase cs := by
  obtain ⟨hstart, hend⟩ := h.solid
  obtain ⟨mark, hmark, rfl⟩ := h
  have hne : '\n' ≠ mark := by
    rintro rfl
    exact absurd hmark (by decide)
  exact ⟨List.cons_ne_nil _ _, by simp [hne, hbreak], hstart, hend⟩

/-- A written atom is a phrase. -/
theorem IsAtomText.isPhrase {cs : List Char} (h : IsAtomText cs) : IsPhrase cs := by
  cases h with
  | solid h => exact Text.isPhrase_of_no_blank h.ne_nil h.no_blank
  | quoted hplain hquoted => exact hquoted.isPhrase hplain.no_break

/-- A written atom has no sign of a comparison. -/
theorem IsAtomText.sign_not_mem {cs : List Char} (h : IsAtomText cs) {sign : Char}
    (hsign : sign ∈ ['<', '>']) : sign ∉ cs := by
  cases h with
  | solid h => rcases List.mem_pair.1 hsign with rfl | rfl <;> simp [h.no_less, h.no_greater]
  | quoted hplain hquoted =>
      obtain ⟨mark, hmark, rfl⟩ := hquoted
      rcases List.mem_pair.1 hsign with rfl | rfl <;> rcases List.mem_pair.1 hmark with rfl | rfl <;>
        simp [hplain.no_less, hplain.no_greater]

/-- A word that is found from within a quoted text stands in it with a blank on either side: the
closing quote is neither a blank nor a letter. -/
theorem standsIn_of_afterWords? {s word : String} {words : List String} {mark : Char}
    {before after rest right : List Char} (hmark : mark ∈ ['"', '\x27'])
    (hword : isQuoteless word = true) (hcs : mark :: (s.toList ++ [mark]) = before ++ after)
    (hne : after ≠ []) (h : afterWords? (word :: words) (after ++ rest) = some right) :
    Text.standsIn word s.toList = true := by
  obtain ⟨blanks, b, written, c, tail, htext, hblanks, hb, hwritten, hc⟩ :=
    afterWords?_cons_eq_some h
  have hmarkBlank := isBlank_mark hmark
  have hnot : mark ∉ blanks ++ b :: (written ++ [c]) := by
    simp only [List.mem_append, List.mem_cons, List.not_mem_nil, or_false, not_or]
    refine ⟨?_, ?_, mark_not_mem hword hmark hwritten, ?_⟩
    · intro hmem
      simp [hblanks mark hmem] at hmarkBlank
    · rintro rfl
      simp [hb] at hmarkBlank
    · rintro rfl
      simp [hc] at hmarkBlank
  -- the part of the quoted text that is looked at ends in the closing quote
  obtain ⟨inner, last, rfl⟩ := (List.eq_nil_or_concat' after).resolve_left hne
  rw [← List.cons_append, ← List.append_assoc] at hcs
  obtain ⟨hstart, hlast⟩ := List.append_inj' hcs rfl
  obtain rfl : mark = last := by simpa using hlast
  have hinner : inner ++ mark :: rest = (blanks ++ b :: (written ++ [c])) ++ tail := by
    simpa using htext
  obtain ⟨more, rfl⟩ := Text.eq_append_of_not_mem hinner hnot
  cases before with
  | nil =>
      -- the word would be found from the opening quote on, which is no blank
      refine absurd ?_ hnot
      cases blanks with
      | nil => simp_all
      | cons x blanks => simp_all
  | cons m before =>
      rw [List.cons_append, List.cons.injEq] at hstart
      have hs : s.toList = (before ++ blanks) ++ b :: (written ++ c :: more) := by
        rw [hstart.2]
        simp
      rw [hs]
      exact Text.standsIn_append hb hwritten hc _ _

/-- No words are found from within a text without blanks. -/
theorem silent_of_no_blank {cs : List Char} (h : ∀ c ∈ cs, Text.isBlank c = false)
    (words : List String) (rest : List Char) : Silent (afterWords? words) cs rest := by
  intro before after hcs hne
  refine afterWords?_eq_none (StartsSolid.append ?_ hne rest)
  intro c hc
  exact h c (by rw [hcs]; exact List.mem_append_right _ (List.mem_of_mem_head? hc))

/-- **No word of a comparison is found from within a written atom**, whatever follows the atom. -/
theorem IsAtomText.silent_words {cs : List Char} (h : IsAtomText cs) {word : String}
    (hword : word ∈ Operator.words) (words : List String) (rest : List Char) :
    Silent (afterWords? (word :: words)) cs rest := by
  cases h with
  | solid h => exact silent_of_no_blank h.no_blank (word :: words) rest
  | @quoted s hplain hquoted =>
      intro before after hcs hne
      obtain ⟨mark, hmark, rfl⟩ := hquoted
      obtain ⟨-, hless⟩ := word_facts word hword
      cases hfound : afterWords? (word :: words) (after ++ rest) with
      | none => rfl
      | some right =>
          have hstands := standsIn_of_afterWords? hmark hless hcs hne hfound
          rw [hplain.no_word word hword] at hstands
          simp at hstands

/-- Behind a space, a written atom is not taken for a word of a comparison and what follows it. -/
theorem IsAtomText.afterWords?_space {cs : List Char} (h : IsAtomText cs) {word : String}
    (hword : isQuoteless word = true) (hne : word ≠ "") (words : List String) :
    afterWords? (word :: words) (' ' :: cs) = none := by
  rw [afterWords?, Text.afterBlanks_space _ h.isPhrase.starts, Text.afterWord]
  cases hdrop : Text.dropWord? word.toList cs with
  | none => rfl
  | some rest =>
      obtain ⟨written, rfl, hwritten⟩ := Text.dropWord?_eq_some hdrop
      cases h with
      | solid h =>
          apply afterWords?_eq_none
          intro c hc
          exact h.no_blank c (List.mem_append_right _ (List.mem_of_mem_head? hc))
      | quoted _ hquoted =>
          -- the opening quote would be the first character of the word
          obtain ⟨mark, hmark, hcs⟩ := hquoted
          have hnot := mark_not_mem hword hmark hwritten
          cases written with
          | nil =>
              cases hletters : word.toList with
              | nil => exact absurd (String.toList_inj.1 hletters) hne
              | cons letter letters => simp [hletters, Text.dropWord?] at hwritten
          | cons x written =>
              rw [List.cons_append, List.cons.injEq] at hcs
              exact absurd (hcs.1 ▸ List.mem_cons_self) hnot

/-- **No sign of a comparison is found from within a written atom**, whatever follows the atom. -/
theorem IsAtomText.silent_sign {cs : List Char} (h : IsAtomText cs) {sign : Char}
    (hsign : sign ∈ ['<', '>']) (rest : List Char) : Silent (afterSign? sign) cs rest := by
  intro before after hcs hne
  cases hfound : afterSign? sign (after ++ rest) with
  | none => rfl
  | some right =>
      obtain ⟨blanks, tail, htext, hblanks⟩ := afterSign?_eq_some hfound
      -- the last character of the atom is neither a blank nor the sign
      obtain ⟨inner, last, rfl⟩ := (List.eq_nil_or_concat' after).resolve_left hne
      have hlast : Text.isBlank last = false := h.isPhrase.ends last (by simp [hcs])
      have hnot : last ∉ blanks ++ [sign] := by
        intro hmem
        rcases List.mem_append.1 hmem with hmem | hmem
        · simp [hblanks last hmem] at hlast
        · refine h.sign_not_mem hsign ?_
          rw [hcs, ← List.mem_singleton.1 hmem]
          simp
      have hinner : inner ++ last :: rest = (blanks ++ [sign]) ++ tail := by simpa using htext
      obtain ⟨more, rfl⟩ := Text.eq_append_of_not_mem hinner hnot
      exact absurd (by rw [hcs]; simp) (h.sign_not_mem hsign)

/-! ### Written comparisons -/

/-- A text is not split at a sign that it does not have. -/
theorem splitAt?_sign_eq_none {sign : Char} {cs : List Char} (h : sign ∉ cs) :
    Text.splitAt? (Separator.sign sign).after? cs = none := by
  refine Text.splitAt?_eq_none ?_ rfl
  intro before after hcs hne
  cases hfound : afterSign? sign (after ++ []) with
  | none => exact hfound
  | some right =>
      obtain ⟨blanks, tail, htext, -⟩ := afterSign?_eq_some hfound
      rw [List.append_nil] at htext
      exact absurd (by rw [hcs, htext]; simp) h

/-- A written comparison is split at the words that are found at its operator. -/
theorem splitAt?_words_eq_some {word : String} {words : List String} {xs ys zs : List Char}
    (hx : IsAtomText xs) (hword : word ∈ Operator.words)
    (hop : afterWords? (word :: words) (' ' :: (ys ++ ' ' :: zs)) = some zs) :
    Text.splitAt? (Separator.words (word :: words)).after? (xs ++ ' ' :: (ys ++ ' ' :: zs)) =
      some (xs, zs) :=
  Text.splitAt?_append (hx.silent_words hword words _) hx.isPhrase.ne_nil hx.isPhrase.no_break hop

section Comparison

variable {xs zs : List Char} (hx : IsAtomText xs) (hz : IsAtomText zs)

include hx hz

/-- A written comparison is not split at words that are found neither at its operator nor from within
it. -/
theorem splitAt?_words_eq_none {word : String} {words : List String} {ys : List Char}
    (hword : word ∈ Operator.words)
    (hop : afterWords? (word :: words) (' ' :: (ys ++ ' ' :: zs)) = none)
    (hys : Silent (afterWords? (word :: words)) ys (' ' :: zs)) :
    Text.splitAt? (Separator.words (word :: words)).after? (xs ++ ' ' :: (ys ++ ' ' :: zs)) =
      none := by
  obtain ⟨hword', hquote⟩ := word_facts word hword
  have hright := hz.afterWords?_space hquote hword'.ne_empty words
  -- part by part: the left atom, the space, the operator, the space, the right atom
  refine Text.splitAt?_eq_none ?_ rfl
  refine (hx.silent_words hword words _).append (.cons (by simpa using hop) ?_)
  refine Silent.append (by simpa using hys) (.cons (by simpa using hright) ?_)
  exact hz.silent_words hword words []

/-- An operator in one word is not taken for words that start with another one. -/
theorem splitAt?_eq_none_of_clash {word other : String} {ys : List Char} (h : Spells word ys)
    (hword : IsWord word) (hother : other ∈ Operator.words)
    (hclash : clash other.toList word.toList = true) (words : List String) :
    Text.splitAt? (Separator.words (other :: words)).after? (xs ++ ' ' :: (ys ++ ' ' :: zs)) =
      none :=
  splitAt?_words_eq_none hx hz hother (afterWords?_clash h hword hclash words _)
    (silent_of_no_blank (fun _ hc => h.isBlank_eq_false hword.visible hc) _ _)

/-- An operator in one word is not taken for that word and a further one. -/
theorem splitAt?_eq_none_of_longer {word next : String} {ys : List Char} (h : Spells word ys)
    (hword : word ∈ Operator.words) (hnext : isQuoteless next = true) (hne : next ≠ "") :
    Text.splitAt? (Separator.words [word, next]).after? (xs ++ ' ' :: (ys ++ ' ' :: zs)) =
      none := by
  obtain ⟨hword', -⟩ := word_facts word hword
  refine splitAt?_words_eq_none hx hz hword ?_
    (silent_of_no_blank (fun _ hc => h.isBlank_eq_false hword'.visible hc) _ _)
  rw [afterWords?_spells h hword']
  exact hz.afterWords?_space hnext hne []

/-- An operator in two words is not taken for its first word and another second one. -/
theorem splitAt?_eq_none_of_second {second other : String} {ys ys' : List Char}
    (h : Spells "is" ys) (h' : Spells second ys') (hsecond : IsWord second)
    (hclash : clash other.toList second.toList = true)
    (his : clash "is".toList second.toList = true) :
    Text.splitAt? (Separator.words ["is", other]).after?
      (xs ++ ' ' :: ((ys ++ ' ' :: ys') ++ ' ' :: zs)) = none := by
  refine splitAt?_words_eq_none hx hz (by decide) ?_ ?_
  · rw [List.append_assoc, afterWords?_spells h (by decide), List.cons_append]
    exact afterWords?_clash h' hsecond hclash [] _
  · refine Silent.append
      (silent_of_no_blank (fun _ hc => h.isBlank_eq_false (by decide) hc) _ _) (.cons ?_ ?_)
    · exact afterWords?_clash h' hsecond his _ _
    · exact silent_of_no_blank (fun _ hc => h'.isBlank_eq_false hsecond.visible hc) _ _

/-- A written comparison is not split at a sign that is not its operator. -/
theorem splitAt?_eq_none_of_sign {sign : Char} {ys : List Char} (hsign : sign ∈ ['<', '>'])
    (hys : sign ∉ ys) :
    Text.splitAt? (Separator.sign sign).after? (xs ++ ' ' :: (ys ++ ' ' :: zs)) = none := by
  have hspace : sign ≠ ' ' := by
    rintro rfl
    exact absurd hsign (by decide)
  refine splitAt?_sign_eq_none ?_
  simp [hx.sign_not_mem hsign, hz.sign_not_mem hsign, hys, hspace]

end Comparison

/-- A text is split at the first comparison that occurs in it, of those in the order in which they are
tried. -/
theorem split?_eq_some (before : List (Separator × Operator)) {after : List (Separator × Operator)}
    {separator : Separator} {op : Operator} {cs xs zs : List Char}
    (hsplit : comparisons = before ++ (separator, op) :: after)
    (hbefore : ∀ entry ∈ before, Text.splitAt? entry.1.after? cs = none)
    (hfound : Text.splitAt? separator.after? cs = some (xs, zs)) (hx : IsPhrase xs)
    (hz : IsPhrase zs) : split? cs = some (xs, op, zs) := by
  rw [split?, List.findSome?_eq_some_iff]
  refine ⟨before, (separator, op), after, hsplit, ?_, ?_⟩
  · simp only [hfound, hx.strip_eq, hz.strip_eq]
  · intro entry hentry
    simp only [hbefore entry hentry]

section Operators

variable {xs ys zs : List Char} (hx : IsAtomText xs) (hz : IsAtomText zs)

include hx hz

/-- A comparison by a word or sign other than `is` is not split at the four comparisons that start
with `is`. -/
theorem splitAt?_take_four {word : String} (h : Spells word ys) (hword : IsWord word)
    (hclash : clash "is".toList word.toList = true) :
    ∀ entry ∈ comparisons.take 4,
      Text.splitAt? entry.1.after? (xs ++ ' ' :: (ys ++ ' ' :: zs)) = none := by
  intro entry hentry
  have his := splitAt?_eq_none_of_clash hx hz h hword (by decide) hclash
  simp only [comparisons, List.take, List.mem_cons, List.not_mem_nil, or_false] at hentry
  rcases hentry with rfl | rfl | rfl | rfl <;> exact his _

/-- Nor is a comparison by a word split at the two signs that come next. -/
theorem splitAt?_take_six {word : String} (h : Spells word ys) (hword : IsWord word)
    (hclash : clash "is".toList word.toList = true)
    (hsigns : ∀ sign ∈ ['<', '>'], sign ∉ word.toList) :
    ∀ entry ∈ comparisons.take 6,
      Text.splitAt? entry.1.after? (xs ++ ' ' :: (ys ++ ' ' :: zs)) = none := by
  have hsign : ∀ sign ∈ ['<', '>'], _ := fun sign hsign =>
    splitAt?_eq_none_of_sign hx hz hsign (h.not_mem (by revert sign; decide) (hsigns sign hsign))
  change ∀ entry ∈ comparisons.take 4 ++ [(.sign '>', .greater), (.sign '<', .less)], _
  refine List.forall_mem_append.2 ⟨splitAt?_take_four hx hz h hword hclash,
    List.forall_mem_cons.2 ⟨?_, List.forall_mem_singleton.2 ?_⟩⟩
  · exact hsign '>' (by decide)
  · exact hsign '<' (by decide)

/-- A comparison by a sign is split at that sign. -/
theorem splitAt?_sign_eq_some {sign : Char} (hsign : sign ∈ ['<', '>']) :
    Text.splitAt? (Separator.sign sign).after? (xs ++ ' ' :: ([sign] ++ ' ' :: zs)) =
      some (xs, zs) := by
  refine Text.splitAt?_append (hx.silent_sign hsign _) hx.isPhrase.ne_nil hx.isPhrase.no_break ?_
  exact afterSign?_space (by revert sign; decide) hz.isPhrase

/-- A comparison by `is` and a second word is split at these words. -/
theorem splitAt?_two_eq_some {second : String} {ys' : List Char} (h : Spells "is" ys)
    (h' : Spells second ys') (hsecond : IsWord second) :
    Text.splitAt? (Separator.words ["is", second]).after?
      (xs ++ ' ' :: ((ys ++ ' ' :: ys') ++ ' ' :: zs)) = some (xs, zs) := by
  refine splitAt?_words_eq_some hx (by decide) ?_
  rw [List.append_assoc, afterWords?_spells h (by decide), List.cons_append,
    afterWords?_spells h' hsecond, afterWords?_nil hz.isPhrase]

/-- A comparison by one word is split at that word. -/
theorem splitAt?_one_eq_some {word : String} (h : Spells word ys) (hword : word ∈ Operator.words) :
    Text.splitAt? (Separator.words [word]).after? (xs ++ ' ' :: (ys ++ ' ' :: zs)) =
      some (xs, zs) := by
  obtain ⟨hword', -⟩ := word_facts word hword
  refine splitAt?_words_eq_some hx hword ?_
  rw [afterWords?_spells h hword', afterWords?_nil hz.isPhrase]

/-- **A written comparison is split at its operator.** -/
theorem split?_comparison {op : Operator} (hop : Comparison op ys) :
    split? (xs ++ ' ' :: (ys ++ ' ' :: zs)) = some (xs, op, zs) := by
  obtain ⟨phrase, hphrase, h⟩ := hop
  have hx' := hx.isPhrase
  have hz' := hz.isPhrase
  cases op with
  | is =>
      -- the three longer comparisons with `is` come first
      obtain rfl : phrase = "is" := by simpa [Operator.phrases] using hphrase
      refine split?_eq_some (comparisons.take 3) rfl ?_
        (splitAt?_one_eq_some hx hz h (by decide)) hx' hz'
      intro entry hentry
      simp only [comparisons, List.take, List.mem_cons, List.not_mem_nil, or_false] at hentry
      rcases hentry with rfl | rfl | rfl <;>
        exact splitAt?_eq_none_of_longer hx hz h (by decide) (by decide) (by decide)
  | isNot =>
      obtain rfl : phrase = "is not" := by simpa [Operator.phrases] using hphrase
      obtain ⟨first, second, rfl, hfirst, hsecond⟩ := h.split "is" "not" rfl
      refine split?_eq_some [] rfl (by simp) ?_ hx' hz'
      exact splitAt?_two_eq_some hx hz hfirst hsecond (by decide)
  | greater =>
      obtain rfl : phrase = ">" := by simpa [Operator.phrases] using hphrase
      obtain rfl := h.eq_singleton '>' rfl (by decide)
      refine split?_eq_some (comparisons.take 4) rfl ?_
        (splitAt?_sign_eq_some hx hz (by decide)) hx' hz'
      exact splitAt?_take_four hx hz h (by decide) (by decide)
  | less =>
      obtain rfl : phrase = "<" := by simpa [Operator.phrases] using hphrase
      obtain rfl := h.eq_singleton '<' rfl (by decide)
      refine split?_eq_some (comparisons.take 4 ++ [_]) rfl ?_
        (splitAt?_sign_eq_some hx hz (by decide)) hx' hz'
      refine List.forall_mem_append.2 ⟨?_, List.forall_mem_singleton.2 ?_⟩
      · exact splitAt?_take_four hx hz h (by decide) (by decide)
      · exact splitAt?_eq_none_of_sign hx hz (by decide) (by decide)
  | after =>
      rcases List.mem_pair.1 hphrase with rfl | rfl
      · refine split?_eq_some (comparisons.take 6) rfl ?_
          (splitAt?_one_eq_some hx hz h (by decide)) hx' hz'
        exact splitAt?_take_six hx hz h (by decide) (by decide) (by decide)
      · obtain ⟨first, second, rfl, hfirst, hsecond⟩ := h.split "is" "after" rfl
        refine split?_eq_some [_] rfl
          (List.forall_mem_singleton.2 ?_)
          (splitAt?_two_eq_some hx hz hfirst hsecond (by decide)) hx' hz'
        exact splitAt?_eq_none_of_second hx hz hfirst hsecond (by decide) (by decide) (by decide)
  | before =>
      rcases List.mem_pair.1 hphrase with rfl | rfl
      · refine split?_eq_some (comparisons.take 6 ++ [_]) rfl ?_
          (splitAt?_one_eq_some hx hz h (by decide)) hx' hz'
        refine List.forall_mem_append.2 ⟨?_, List.forall_mem_singleton.2 ?_⟩
        · exact splitAt?_take_six hx hz h (by decide) (by decide) (by decide)
        · exact splitAt?_eq_none_of_clash hx hz h (by decide) (by decide) (by decide) []
      · obtain ⟨first, second, rfl, hfirst, hsecond⟩ := h.split "is" "before" rfl
        refine split?_eq_some [_, _] rfl
          (List.forall_mem_cons.2 ⟨?_, List.forall_mem_singleton.2 ?_⟩)
          (splitAt?_two_eq_some hx hz hfirst hsecond (by decide)) hx' hz'
        · exact splitAt?_eq_none_of_second hx hz hfirst hsecond (by decide) (by decide) (by decide)
        · exact splitAt?_eq_none_of_second hx hz hfirst hsecond (by decide) (by decide) (by decide)

end Operators

/-- A written atom holds no comparison. -/
theorem IsAtomText.split?_eq_none {cs : List Char} (h : IsAtomText cs) : split? cs = none := by
  have hwords : ∀ word ∈ Operator.words, ∀ words,
      Text.splitAt? (Separator.words (word :: words)).after? cs = none := by
    intro word hword words
    exact Text.splitAt?_eq_none (h.silent_words hword words []) rfl
  have hsign : ∀ sign ∈ ['<', '>'], Text.splitAt? (Separator.sign sign).after? cs = none := by
    intro sign hsign
    exact splitAt?_sign_eq_none (h.sign_not_mem hsign)
  rw [split?, comparisons]
  simp [hwords "is" (by decide), hwords "after" (by decide), hwords "before" (by decide),
    hsign '<' (by decide), hsign '>' (by decide)]

/-! ### Atoms that are not texts -/

/-- The characters with which atoms other than texts are written. -/
def isPlainChar (c : Char) : Bool :=
  Text.isIdentifierPart c || c == '-' || c == '.' || c == ':'

theorem isPlainChar_of_isDigit {c : Char} (h : c.isDigit = true) : isPlainChar c = true := by
  have hpart : Text.isIdentifierPart c = true := by
    rw [Text.isIdentifierPart_iff]
    exact .inr (.inr (.inl (Char.isDigit_iff_toNat.1 h)))
  rw [isPlainChar, hpart]
  rfl

/-- Plain characters are in ASCII and beyond the space. -/
theorem toNat_of_isPlainChar {c : Char} (h : isPlainChar c = true) :
    32 < c.toNat ∧ c.toNat < 128 := by
  simp only [isPlainChar, Bool.or_eq_true, beq_iff_eq] at h
  rcases h with ((h | rfl) | rfl) | rfl
  · have := Text.isIdentifierPart_iff.1 h
    omega
  all_goals decide

/-- Signs of comparisons and quotes are not plain. -/
theorem ne_of_isPlainChar {c : Char} (h : isPlainChar c = true) {mark : Char}
    (hmark : mark ∈ ['<', '>', '"', '\x27']) : c ≠ mark := by
  rintro rfl
  have hnot : ∀ mark ∈ ['<', '>', '"', '\x27'], isPlainChar mark = false := by decide
  rw [hnot c hmark] at h
  simp at h

/-- A text of plain characters is solid. -/
theorem isSolid_of_isPlainChar {cs : List Char} (hne : cs ≠ [])
    (h : ∀ c ∈ cs, isPlainChar c = true) : IsSolid cs where
  ne_nil := hne
  no_blank c hc := Text.isBlank_eq_false (toNat_of_isPlainChar (h c hc)).1
    (toNat_of_isPlainChar (h c hc)).2
  no_less hmem := ne_of_isPlainChar (h _ hmem) (by decide) rfl
  no_greater hmem := ne_of_isPlainChar (h _ hmem) (by decide) rfl

/-- A text of plain characters is not quoted. -/
theorem isQuoted_eq_false {cs : List Char} (h : ∀ c ∈ cs, isPlainChar c = true) :
    isQuoted cs = false := by
  cases cs with
  | nil => rfl
  | cons c cs =>
      have hc := h c List.mem_cons_self
      have hdouble : c ≠ '"' := ne_of_isPlainChar hc (by decide)
      have hsingle : c ≠ '\x27' := ne_of_isPlainChar hc (by decide)
      simp [isQuoted, hdouble, hsingle]

/-- A text of plain characters that does not spell a truth value names none. -/
theorem boolean?_eq_none {cs : List Char} (h : ∀ c ∈ cs, isPlainChar c = true)
    (htrue : ¬ Spells "true" cs) (hfalse : ¬ Spells "false" cs) : boolean? cs = none := by
  have hlow : ∀ c ∈ cs, c.toNat < 128 := fun c hc => (toNat_of_isPlainChar (h c hc)).2
  rw [boolean?, if_neg, if_neg]
  · intro hdrop
    exact hfalse (Text.spells_of_dropWord? hlow hdrop)
  · intro hdrop
    exact htrue (Text.spells_of_dropWord? hlow hdrop)

/-- A text with a character before the letters spells no truth value. -/
theorem boolean?_eq_none_of_mem {cs : List Char} (h : ∀ c ∈ cs, isPlainChar c = true) {c : Char}
    (hc : c ∈ cs) (hlow : c.toNat < 65) : boolean? cs = none := by
  have hlower : c.toLower = c := by
    rw [← Char.toNat_inj, Text.toNat_toLower, if_neg (by omega)]
  have hnot : ∀ word : String, (∀ letter ∈ word.toList, 65 ≤ letter.toNat) → ¬ Spells word cs := by
    intro word hword hspells
    refine hspells.not_mem hlower ?_ hc
    intro hmem
    have := hword c hmem
    omega
  exact boolean?_eq_none h (hnot "true" (by decide)) (hnot "false" (by decide))

/-! ### Reading written atoms -/

/-- A word of small letters is spelled with plain characters. -/
theorem plain_of_spells {word : String} {cs : List Char} (h : Spells word cs)
    (hword : word.toList.all Char.isLower = true) (hne : word ≠ "") :
    cs ≠ [] ∧ ∀ c ∈ cs, isPlainChar c = true := by
  constructor
  · rintro rfl
    exact hne (String.toList_inj.1 h.symm)
  · intro c hc
    have hmem : c.toLower ∈ word.toList := h ▸ List.mem_map_of_mem hc
    have hlower : 97 ≤ c.toLower.toNat ∧ c.toLower.toNat ≤ 122 :=
      Text.isLower_iff.1 (List.all_eq_true.1 hword _ hmem)
    rw [Text.toNat_toLower] at hlower
    have hpart : Text.isIdentifierPart c = true := by
      rw [Text.isIdentifierPart_iff]
      split at hlower <;> omega
    rw [isPlainChar, hpart]
    rfl

/-- A numeral is made of plain characters and starts with one before the letters. -/
theorem plain_of_isNumeral {cs : List Char} (h : Text.IsNumeral cs) :
    (∀ c ∈ cs, isPlainChar c = true) ∧ ∃ c ∈ cs, c.toNat < 65 := by
  obtain ⟨sign, whole, fraction, rfl, hsign, hne, hwhole, hfraction⟩ := h
  have hsign' : ∀ c ∈ sign, isPlainChar c = true := by
    rcases List.mem_pair.1 hsign with rfl | rfl
    · simp
    · decide
  have hfraction' : ∀ c ∈ fraction, isPlainChar c = true := by
    rcases hfraction with rfl | ⟨ds, rfl, -, hds⟩
    · simp
    · refine List.forall_mem_cons.2 ⟨by decide, fun c hc => isPlainChar_of_isDigit (hds c hc)⟩
  refine ⟨?_, ?_⟩
  · refine List.forall_mem_append.2 ⟨hsign', List.forall_mem_append.2 ⟨?_, hfraction'⟩⟩
    intro c hc
    exact isPlainChar_of_isDigit (hwhole c hc)
  · obtain ⟨d, hd⟩ := List.exists_mem_of_ne_nil whole hne
    have hcode : 48 ≤ d.toNat ∧ d.toNat ≤ 57 := Char.isDigit_iff_toNat.1 (hwhole d hd)
    exact ⟨d, by simp [hd], by omega⟩

/-- Numerals are recognised as numbers. -/
theorem isNumber_of_isNumeral {cs : List Char} (h : Text.IsNumeral cs) : isNumber cs = true := by
  obtain ⟨sign, whole, fraction, rfl, hsign, hne, hwhole, hfraction⟩ := h
  have hunsigned : isUnsigned (whole ++ fraction) = true := by
    rw [isUnsigned]
    rcases hfraction with rfl | ⟨ds, rfl, hds, hdigits⟩
    · rw [Text.digits?_append hne hwhole (by simp)]
    · rw [Text.digits?_append hne hwhole (by rintro c ⟨rfl⟩; decide)]
      have hrest : Text.digits? (ds ++ []) = some (ds, []) :=
        Text.digits?_append hds hdigits (by simp)
      rw [List.append_nil] at hrest
      simp only [hrest]
  rcases List.mem_pair.1 hsign with rfl | rfl
  · cases whole with
    | nil => exact absurd rfl hne
    | cons d whole =>
        have hd : d ≠ '-' := by
          rintro rfl
          exact absurd (hwhole '-' List.mem_cons_self) (by decide)
        rw [List.nil_append, isNumber]
        · exact hunsigned
        · intro rest hrest
          exact hd (List.cons.inj hrest).1
  · exact hunsigned

/-- What is recognised as a number is a numeral. -/
theorem isNumeral_of_isNumber {cs : List Char} (h : isNumber cs = true) : Text.IsNumeral cs := by
  have hunsigned : ∀ cs, isUnsigned cs = true → ∃ whole fraction, cs = whole ++ fraction ∧
      whole ≠ [] ∧ (∀ d ∈ whole, d.isDigit = true) ∧
      (fraction = [] ∨ ∃ ds, fraction = '.' :: ds ∧ ds ≠ [] ∧ ∀ d ∈ ds, d.isDigit = true) := by
    intro cs h
    rw [isUnsigned] at h
    split at h
    · simp at h
    · rename_i whole hwhole
      obtain ⟨hcs, hne, hdigits⟩ := Text.digits?_eq_some hwhole
      exact ⟨whole, [], hcs, hne, hdigits, .inl rfl⟩
    · rename_i whole rest hwhole
      obtain ⟨hcs, hne, hdigits⟩ := Text.digits?_eq_some hwhole
      split at h
      · rename_i ds hds
        obtain ⟨hrest, hne', hdigits'⟩ := Text.digits?_eq_some hds
        rw [List.append_nil] at hrest
        exact ⟨whole, '.' :: ds, hrest ▸ hcs, hne, hdigits, .inr ⟨ds, rfl, hne', hdigits'⟩⟩
      · simp at h
    · simp at h
  unfold isNumber at h
  split at h
  · obtain ⟨whole, fraction, rfl, hparts⟩ := hunsigned _ h
    exact ⟨['-'], whole, fraction, rfl, by simp, hparts⟩
  · obtain ⟨whole, fraction, rfl, hparts⟩ := hunsigned _ h
    exact ⟨[], whole, fraction, rfl, by simp, hparts⟩

/-- What is written for a plain atom other than a text has plain characters only. -/
theorem Atom.plain_or_quoted {e : Expr} {cs : List Char} (h : Atom e cs) (he : e.IsPlainAtom) :
    (∃ s, e = .text s ∧ Quoted s cs) ∨ (cs ≠ [] ∧ ∀ c ∈ cs, isPlainChar c = true) := by
  cases h with
  | @text s _ hquoted => exact .inl ⟨s, rfl, hquoted⟩
  | yes h => exact .inr (plain_of_spells h (by decide) (by decide))
  | no h => exact .inr (plain_of_spells h (by decide) (by decide))
  | number h _ =>
      obtain ⟨hplain, c, hc, -⟩ := plain_of_isNumeral h
      exact .inr ⟨List.ne_nil_of_mem hc, hplain⟩
  | time s =>
      obtain ⟨a, b, c, d, hs, hdigits⟩ := he
      refine .inr ⟨by simp [hs], ?_⟩
      intro x hx
      rw [hs] at hx
      have hcases : x ∈ [a, b, c, d] ∨ x = ':' := by
        simp only [List.mem_cons, List.not_mem_nil, or_false] at hx ⊢
        tauto
      rcases hcases with hx | rfl
      · exact isPlainChar_of_isDigit (hdigits x hx)
      · decide
  | identifier name =>
      obtain ⟨hname, -, -⟩ := he
      refine .inr ⟨?_, ?_⟩
      · intro hnil
        simp [hnil, Text.isIdentifier] at hname
      · intro c hc
        simp [isPlainChar, Text.isIdentifierPart_of_mem hname hc]

/-- A quoted text is read as a text. -/
theorem atom?_quoted {s : String} {cs : List Char} (h : Quoted s cs) :
    atom? cs = some (.text s) := by
  obtain ⟨mark, hmark, rfl⟩ := h
  have hquoted : isQuoted (mark :: (s.toList ++ [mark])) = true := by
    simpa [isQuoted] using hmark
  simp [atom?, unquote, hquoted]

/-- What starts with a digit is not read as a number if it goes on like a clock reading. -/
theorem isNumber_clock {a b : Char} (ha : a.isDigit = true) (hb : b.isDigit = true)
    (rest : List Char) : isNumber (a :: b :: ':' :: rest) = false := by
  have hdigits : Text.digits? ([a, b] ++ ':' :: rest) = some ([a, b], ':' :: rest) := by
    refine Text.digits?_append (by simp) ?_ (by rintro c ⟨rfl⟩; decide)
    intro d hd
    rcases List.mem_pair.1 hd with rfl | rfl
    · exact ha
    · exact hb
  have hminus : a ≠ '-' := by
    rintro rfl
    exact absurd ha (by decide)
  rw [isNumber]
  · rw [isUnsigned]
    simp only [List.cons_append, List.nil_append] at hdigits
    simp [hdigits]
  · intro rest hrest
    exact hminus (List.cons.inj hrest).1

/-- What starts like an identifier is read neither as a number nor as a clock reading. -/
theorem isNumber_isClock_identifier {cs : List Char} (h : Text.isIdentifier cs = true) :
    isNumber cs = false ∧ isClock cs = false := by
  cases cs with
  | nil => simp [Text.isIdentifier] at h
  | cons c cs =>
      simp only [Text.isIdentifier, Bool.and_eq_true] at h
      have hstart := h.1
      have hdigit : c.isDigit = false := Text.isDigit_of_isIdentifierStart hstart
      have hminus : c ≠ '-' := by
        rintro rfl
        exact absurd hstart (by decide)
      refine ⟨?_, ?_⟩
      · rw [isNumber]
        · simp [isUnsigned, Text.digits?, hdigit]
        · intro rest hrest
          exact hminus (List.cons.inj hrest).1
      · rw [isClock, Text.clock?_of_not_isDigit hdigit]

/-- **A written atom is read back.** -/
theorem Atom.atom?_eq {e : Expr} {cs : List Char} (h : Atom e cs) (he : e.IsPlainAtom) :
    atom? cs = some e := by
  rcases h.plain_or_quoted he with ⟨s, rfl, hquoted⟩ | ⟨-, hplain⟩
  · exact atom?_quoted hquoted
  -- the other forms are tried in the order truth value, number, clock reading, identifier
  have hunquoted := isQuoted_eq_false hplain
  cases h with
  | text hquoted => exact atom?_quoted hquoted
  | yes h =>
      have hboolean : boolean? cs = some true := by rw [boolean?, if_pos h.dropWord?_eq]
      simp [atom?, hunquoted, hboolean]
  | no h =>
      have hclash : clash "true".toList "false".toList = true := by decide
      have hnone := h.dropWord?_eq_none (by decide) hclash []
      rw [List.append_nil] at hnone
      have hboolean : boolean? cs = some false := by
        rw [boolean?, hnone, if_neg (by simp), if_pos h.dropWord?_eq]
      simp [atom?, hunquoted, hboolean]
  | number h hread =>
      obtain ⟨-, c, hc, hlow⟩ := plain_of_isNumeral h
      simp [atom?, hunquoted, boolean?_eq_none_of_mem hplain hc hlow, number?,
        isNumber_of_isNumeral h, hread]
  | time s =>
      obtain ⟨a, b, c, d, hs, hdigits⟩ := he
      simp only [List.forall_mem_cons, List.not_mem_nil, false_imp_iff, implies_true,
        and_true] at hdigits
      obtain ⟨ha, hb, hc, hd⟩ := hdigits
      have hcolon : ':' ∈ s.toList := by simp [hs]
      have hboolean := boolean?_eq_none_of_mem hplain hcolon (by decide)
      have hnumber : number? s.toList = none := by
        rw [number?, hs, isNumber_clock ha hb]
        rfl
      have hclock : isClock s.toList = true := by
        simp [isClock, hs, Text.clock?, ha, hb, hc, hd]
      simp [atom?, hunquoted, hboolean, hnumber, hclock]
  | identifier name =>
      obtain ⟨hname, htrue, hfalse⟩ := he
      obtain ⟨hnumber, hclock⟩ := isNumber_isClock_identifier hname
      have hboolean := boolean?_eq_none hplain htrue hfalse
      simp [atom?, hunquoted, hboolean, number?, hnumber, hclock, hname]

theorem Atom.isAtomText {e : Expr} {cs : List Char} (h : Atom e cs) (he : e.IsPlainAtom) :
    IsAtomText cs := by
  rcases h.plain_or_quoted he with ⟨s, rfl, hquoted⟩ | ⟨hne, hplain⟩
  · exact .quoted he hquoted
  · exact .solid (isSolid_of_isPlainChar hne hplain)

theorem Atom.readAtom_eq {e : Expr} {cs : List Char} (h : Atom e cs) (he : e.IsPlainAtom) :
    readAtom cs = .ok e := by
  rw [readAtom, (h.isAtomText he).isPhrase.strip_eq, h.atom?_eq he]

/-! ### Reading written expressions -/

/-- The ways to write an operator are one word each, or `is` and a second word. -/
theorem phrases_facts (op : Operator) : ∀ phrase ∈ op.phrases,
    IsWord phrase ∨ ∃ second ∈ ["not", "after", "before"],
      phrase.toList = "is".toList ++ ' ' :: second.toList := by
  cases op <;> decide

/-- A written operator is a phrase. -/
theorem Comparison.isPhrase {op : Operator} {cs : List Char} (h : Comparison op cs) :
    IsPhrase cs := by
  obtain ⟨phrase, hphrase, h⟩ := h
  rcases phrases_facts op phrase hphrase with hword | ⟨second, hsecond, hsplit⟩
  · exact h.isPhrase hword
  · have hfacts : ∀ second ∈ ["not", "after", "before"], IsWord second := by decide
    exact h.isPhrase_pair "is" second hsplit (by decide) (hfacts second hsecond)

theorem Atom.isPlainAtom {e : Expr} {cs : List Char} (h : Atom e cs) (he : e.IsPlain) :
    e.IsPlainAtom := by
  cases h <;> exact he

/-- A written expression is a phrase. -/
theorem Expression.isPhrase {e : Expr} {cs : List Char} (h : Expression e cs) (he : e.IsPlain) :
    IsPhrase cs := by
  cases h with
  | atom h => exact (h.isAtomText (h.isPlainAtom he)).isPhrase
  | compare hleft hop hright =>
      obtain ⟨hl, hr⟩ := he
      exact (hleft.isAtomText hl).isPhrase.append
        (hop.isPhrase.append (hright.isAtomText hr).isPhrase)

/-- **A written expression is read back.** -/
theorem readExpr_eq {e : Expr} {cs : List Char} (h : Expression e cs) (he : e.IsPlain) :
    readExpr cs = .ok e := by
  cases h with
  | atom h =>
      have he' := h.isPlainAtom he
      rw [readExpr, (h.isAtomText he').split?_eq_none]
      exact h.readAtom_eq he'
  | compare hleft hop hright =>
      obtain ⟨hl, hr⟩ := he
      rw [readExpr, split?_comparison (hleft.isAtomText hl) (hright.isAtomText hr) hop]
      simp only [hleft.readAtom_eq hl, hright.readAtom_eq hr]

end Render

end Waymark
