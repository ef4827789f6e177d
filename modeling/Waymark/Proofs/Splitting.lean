/-
**Where a text is split at a comparison.**

`Parse.split?` tries eight patterns one after the other, and each of them looks for its separator from
left to right, giving back blanks one by one until the rest fits.  This module says what is found
without following that search.  A text *decomposes* at a separator if it is a left side, what is
written for the separator, blanks, a right side, and possibly one last line break.  It is split at the
first comparison in the list at which it decomposes, behind the shortest left side, and of the blanks
behind the separator as many belong to it as leave a right side.

Two consequences are worth keeping in mind.  The order in the list comes before the position in the
text, so that a later `is` wins over an earlier sign.  And where a text ends in blanks, or starts with
them, a blank has to serve as a side.

The second half of the module is about texts in quotes.  Splitting does not look at quotes, so a quoted
text is a text exactly if it does not decompose.

Main definitions:

* `Text.CountsAs`, `Text.Spaced` — what is written for a word, and for words behind blanks;
* `Parse.Separator.Core`, `Parse.Separator.Trail` — what is written for a separator, and the blanks
  behind it;
* `Parse.Decomposes`, `Parse.IsTaken` — the decompositions of a text, and the one that is taken;
* `Parse.IsSplit` — how a text is split;
* `Text.Stands` — a word with a blank on either side of it.

Main results:

* `Parse.after?_eq_some`, `Parse.after?_eq_none_iff` — what is found behind a left side;
* `Parse.split?_eq_iff` — **a text is split at the first comparison at which it decomposes, behind the
  shortest left side**;
* `Parse.exprAt_quoted_iff` — **which quoted texts are texts**.
-/
import Waymark.Proofs.WrittenLine

set_option relaxedAutoImplicit false
set_option autoImplicit false

namespace Waymark

/-! ### What is written for words -/

namespace Text

/-- A text that counts as a word: it has one character for each letter, which counts as this
letter. -/
def CountsAs (word : String) (written : List Char) : Prop :=
  List.Forall₂ (fun letter c => isLetter letter c = true) word.toList written

/-- Words in a text, each of them behind at least one blank. -/
inductive Spaced : List String → List Char → Prop
  | nil : Spaced [] []
  | cons {word : String} {words : List String} {blanks written rest : List Char} :
      blanks ≠ [] → (∀ b ∈ blanks, isBlank b = true) → CountsAs word written →
      Spaced words rest → Spaced (word :: words) (blanks ++ (written ++ rest))

/-- A character that counts as a visible letter is no blank. -/
theorem isBlank_of_isLetter {letter c : Char} (hlow : 32 < letter.toNat)
    (hhigh : letter.toNat < 128) (h : isLetter letter c = true) : isBlank c = false := by
  rw [isLetter, Bool.or_eq_true] at h
  rcases h with h | h
  · have hlower : c.toLower = letter := beq_iff_eq.1 h
    have hc : c.toNat < 128 := toNat_lt_of_toLower (by rw [hlower]; exact hhigh)
    rw [← hlower, toNat_toLower] at hlow
    refine isBlank_eq_false ?_ hc
    split at hlow <;> omega
  · have hmem := List.contains_iff_mem.1 h
    unfold partners at hmem
    split at hmem
    · rw [List.mem_singleton.1 hmem]
      decide
    · rw [List.mem_singleton.1 hmem]
      decide
    · rcases List.mem_pair.1 hmem with rfl | rfl <;> decide
    · simp at hmem

/-- What counts as a keyword starts with no blank and is not empty. -/
theorem CountsAs.solid {word : String} {written : List Char} (h : CountsAs word written)
    (hword : IsWord word) : written ≠ [] ∧ StartsSolid written := by
  rw [CountsAs] at h
  cases hletters : word.toList with
  | nil => exact absurd (String.toList_eq_nil_iff.1 hletters) hword.ne_empty
  | cons letter letters =>
      rw [hletters] at h
      cases h with
      | @cons _ c _ written hc _ =>
          have hvisible := List.all_eq_true.1 hword.visible letter (by rw [hletters]; simp)
          simp only [Bool.and_eq_true, decide_eq_true_eq] at hvisible
          refine ⟨List.cons_ne_nil c written, ?_⟩
          rintro d ⟨rfl⟩
          exact isBlank_of_isLetter hvisible.1 hvisible.2 hc

/-- Blanks before a text that starts with none are told from it. -/
theorem blanks_append_inj {blanks blanks' rest rest' : List Char}
    (hblanks : ∀ b ∈ blanks, isBlank b = true) (hblanks' : ∀ b ∈ blanks', isBlank b = true)
    (hrest : StartsSolid rest) (hrest' : StartsSolid rest')
    (h : blanks ++ rest = blanks' ++ rest') : blanks = blanks' ∧ rest = rest' := by
  obtain ⟨htake, hdrop⟩ := cut_append hblanks hrest
  obtain ⟨htake', hdrop'⟩ := cut_append hblanks' hrest'
  exact ⟨by rw [← htake, h, htake'], by rw [← hdrop, h, hdrop']⟩

/-- **Words behind blanks are found in one way only** at the start of a text. -/
theorem Spaced.append_inj {words : List String} {core core' more more' : List Char}
    (h : Spaced words core) (h' : Spaced words core') (hwords : ∀ word ∈ words, IsWord word)
    (heq : core ++ more = core' ++ more') : core = core' := by
  induction h generalizing core' with
  | nil =>
      cases h'
      rfl
  | @cons word words blanks written rest _ hblanks hwritten _ ih =>
      cases h' with
      | @cons _ _ blanks' written' rest' _ hblanks' hwritten' hrest' =>
          obtain ⟨hword, hwords⟩ := List.forall_mem_cons.1 hwords
          obtain ⟨hne, hsolid⟩ := hwritten.solid hword
          obtain ⟨hne', hsolid'⟩ := hwritten'.solid hword
          simp only [List.append_assoc] at heq
          obtain ⟨rfl, hbehind⟩ := blanks_append_inj hblanks hblanks' (hsolid.append hne _)
            (hsolid'.append hne' _) heq
          -- both words have as many characters as the keyword has letters
          have hlength : written.length = written'.length := by
            rw [← hwritten.length_eq, hwritten'.length_eq]
          obtain ⟨rfl, hmore⟩ := List.append_inj hbehind hlength
          rw [ih hrest' hwords hmore]

end Text

/-! ### What is written for separators -/

namespace Parse

open Text (CountsAs Spaced IsWord)

/-- What is written for a separator, up to the blanks behind it: words, each behind blanks, or a sign
with or without blanks before it. -/
def Separator.Core (separator : Separator) (core : List Char) : Prop :=
  match separator with
  | .words ws => Spaced ws core
  | .sign c => ∃ blanks, (∀ b ∈ blanks, Text.isBlank b = true) ∧ core = blanks ++ [c]

/-- The blanks behind a separator: at least one behind words, any number behind a sign. -/
def Separator.Trail (separator : Separator) (trail : List Char) : Prop :=
  match separator with
  | .words _ => trail ≠ [] ∧ ∀ b ∈ trail, Text.isBlank b = true
  | .sign _ => ∀ b ∈ trail, Text.isBlank b = true

/-- A separator whose words are keywords, or whose sign is no blank. -/
def Separator.IsSolid (separator : Separator) : Prop :=
  match separator with
  | .words ws => ∀ word ∈ ws, IsWord word
  | .sign c => Text.isBlank c = false

instance (separator : Separator) : Decidable separator.IsSolid :=
  match separator with
  | .words ws => inferInstanceAs (Decidable (∀ word ∈ ws, IsWord word))
  | .sign c => inferInstanceAs (Decidable (Text.isBlank c = false))

/-- `Behind separator rest core trail post`: the text `rest` is the separator, written as `core`, the
blanks `trail` and the right side `post`, which reaches to the end or to one last line break. -/
structure Behind (separator : Separator) (rest core trail post : List Char) : Prop where
  core_written : separator.Core core
  trail_blank : separator.Trail trail
  post_ne_nil : post ≠ []
  post_no_break : '\n' ∉ post
  text : ∃ tail, rest = core ++ (trail ++ tail) ∧ (tail = post ∨ tail = post ++ ['\n'])

/-- `Decomposes separator cs pre core trail post`: the text `cs` is the left side `pre`, which keeps to
its line, and behind it the separator, blanks and the right side. -/
structure Decomposes (separator : Separator) (cs pre core trail post : List Char) : Prop where
  pre_ne_nil : pre ≠ []
  pre_no_break : '\n' ∉ pre
  text : ∃ rest, cs = pre ++ rest ∧ Behind separator rest core trail post

/-- A text that decomposes at a separator. -/
def Decomposable (separator : Separator) (cs : List Char) : Prop :=
  ∃ pre core trail post, Decomposes separator cs pre core trail post

/-- The decomposition that is taken: its left side is the shortest one, and with this left side the
separator has the most blanks behind it. -/
structure IsTaken (separator : Separator) (cs pre core trail post : List Char) : Prop where
  decomposes : Decomposes separator cs pre core trail post
  shortest : ∀ pre' core' trail' post', Decomposes separator cs pre' core' trail' post' →
    pre.length ≤ pre'.length
  longest : ∀ core' trail' post', Decomposes separator cs pre core' trail' post' →
    core' = core ∧ trail'.length ≤ trail.length

/-- `IsSplit cs result`: how the text `cs` is split.  It is not split if it decomposes at no
comparison, and otherwise at the first comparison in the list at which it decomposes, both sides being
given without outer blanks. -/
def IsSplit (cs : List Char) (result : Option (List Char × Operator × List Char)) : Prop :=
  match result with
  | none => ∀ comparison ∈ comparisons, ¬ Decomposable comparison.1 cs
  | some (left, op, right) =>
    ∃ earlier separator later, comparisons = earlier ++ (separator, op) :: later ∧
      (∀ comparison ∈ earlier, ¬ Decomposable comparison.1 cs) ∧
      ∃ pre core trail post, IsTaken separator cs pre core trail post ∧
        left = Text.strip pre ∧ right = Text.strip post

/-! ### The right side -/

/-- The right side behind what is written for a separator. -/
def Separator.right? (separator : Separator) (cs : List Char) : Option (List Char) :=
  match separator with
  | .words _ => Text.afterBlanks Text.restOfLine? cs
  | .sign _ => Text.afterOptionalBlanks Text.restOfLine? cs

theorem right?_eq_none_iff {separator : Separator} {more : List Char} :
    separator.right? more = none ↔
      ∀ trail tail, more = trail ++ tail → separator.Trail trail →
        Text.restOfLine? tail = none := by
  cases separator with
  | words words =>
      rw [Separator.right?, Text.afterBlanks_eq_none_iff]
      constructor
      · intro h trail tail hmore htrail
        exact h trail tail hmore htrail.1 htrail.2
      · intro h trail tail hmore hne hblank
        exact h trail tail hmore ⟨hne, hblank⟩
  | sign sign => exact Text.afterOptionalBlanks_eq_none_iff

/-- The right side starts behind as many blanks as leave one. -/
theorem right?_longest {separator : Separator} {more post : List Char}
    (h : separator.right? more = some post) :
    ∃ trail tail, more = trail ++ tail ∧ separator.Trail trail ∧
      Text.restOfLine? tail = some post ∧
      ∀ trail' tail' post', more = trail' ++ tail' → separator.Trail trail' →
        Text.restOfLine? tail' = some post' → trail'.length ≤ trail.length := by
  cases separator with
  | words words =>
      obtain ⟨trail, tail, hmore, hne, hblank, htail, hlongest⟩ := Text.afterBlanks_longest h
      refine ⟨trail, tail, hmore, ⟨hne, hblank⟩, htail, ?_⟩
      intro trail' tail' post' hmore' htrail'
      exact hlongest trail' tail' post' hmore' htrail'.2
  | sign sign => exact Text.afterOptionalBlanks_longest h

/-! ### What is found behind a left side -/

/-- What is found behind words is the right side behind the text that is written for them. -/
theorem exists_spaced_of_afterWords? {words : List String} {rest post : List Char}
    (h : afterWords? words rest = some post) :
    ∃ core more, rest = core ++ more ∧ Spaced words core ∧
      Text.afterBlanks Text.restOfLine? more = some post := by
  induction words generalizing rest with
  | nil => exact ⟨[], rest, rfl, .nil, h⟩
  | cons word words ih =>
      obtain ⟨blanks, behind, rfl, hne, hblanks, hbehind⟩ := Text.afterBlanks_eq_some h
      rw [Text.afterWord] at hbehind
      cases hdrop : Text.dropWord? word.toList behind with
      | none => simp [hdrop] at hbehind
      | some tail =>
          simp only [hdrop] at hbehind
          obtain ⟨written, rfl, hwritten⟩ := Text.dropWord?_eq_some_iff.1 hdrop
          obtain ⟨core, more, rfl, hcore, hmore⟩ := ih hbehind
          exact ⟨blanks ++ (written ++ core), more, by simp, .cons hne hblanks hwritten hcore, hmore⟩

/-- Where words are written and nothing is found, there is no right side. -/
theorem right_of_afterWords?_eq_none {words : List String} {core more : List Char}
    (hcore : Spaced words core) (h : afterWords? words (core ++ more) = none) :
    Text.afterBlanks Text.restOfLine? more = none := by
  induction hcore with
  | nil => exact h
  | @cons word words blanks written rest hne hblanks hwritten _ ih =>
      apply ih
      have hbehind := Text.afterBlanks_eq_none_iff.1 h blanks (written ++ (rest ++ more)) (by simp)
        hne hblanks
      have hdrop : Text.dropWord? word.toList (written ++ (rest ++ more)) = some (rest ++ more) :=
        Text.dropWord?_eq_some_iff.2 ⟨written, rfl, hwritten⟩
      simpa only [Text.afterWord, hdrop] using hbehind

/-- The same for a separator of either kind: a right side is found behind what is written for it. -/
theorem exists_core_of_after? {separator : Separator} {rest post : List Char}
    (h : separator.after? rest = some post) :
    ∃ core more, rest = core ++ more ∧ separator.Core core ∧ separator.right? more = some post := by
  cases separator with
  | words words => exact exists_spaced_of_afterWords? h
  | sign sign =>
      obtain ⟨blanks, behind, rfl, hblanks, hbehind⟩ := Text.afterOptionalBlanks_eq_some h
      cases behind with
      | nil => simp at hbehind
      | cons c more =>
          simp only at hbehind
          split at hbehind
          · rename_i hc
            exact ⟨blanks ++ [sign], more, by simp [hc], ⟨blanks, hblanks, rfl⟩, hbehind⟩
          · simp at hbehind

theorem right?_of_after?_eq_none {separator : Separator} {core more : List Char}
    (hcore : separator.Core core) (h : separator.after? (core ++ more) = none) :
    separator.right? more = none := by
  cases separator with
  | words words => exact right_of_afterWords?_eq_none hcore h
  | sign sign =>
      obtain ⟨blanks, hblanks, rfl⟩ := hcore
      have hbehind := Text.afterOptionalBlanks_eq_none_iff.1 h blanks (sign :: more) (by simp)
        hblanks
      simpa [Separator.right?] using hbehind

/-- A separator is written in one way only at the start of a text. -/
theorem Separator.Core.append_inj {separator : Separator} {core core' more more' : List Char}
    (hsolid : separator.IsSolid) (h : separator.Core core) (h' : separator.Core core')
    (heq : core ++ more = core' ++ more') : core = core' := by
  cases separator with
  | words words => exact Spaced.append_inj h h' hsolid heq
  | sign sign =>
      obtain ⟨blanks, hblanks, rfl⟩ := h
      obtain ⟨blanks', hblanks', rfl⟩ := h'
      have hstart : ∀ tail, Text.StartsSolid (sign :: tail) := by
        rintro tail c ⟨rfl⟩
        exact hsolid
      simp only [List.append_assoc, List.singleton_append] at heq
      rw [(Text.blanks_append_inj hblanks hblanks' (hstart more) (hstart more') heq).1]

/-- **Nothing is found behind a left side** exactly if no separator and right side stand there. -/
theorem after?_eq_none_iff {separator : Separator} {rest : List Char} :
    separator.after? rest = none ↔
      ∀ core trail post, ¬ Behind separator rest core trail post := by
  constructor
  · rintro h core trail post ⟨hcore, htrail, hne, hbreak, tail, rfl, htail⟩
    have hright := right?_of_after?_eq_none hcore h
    have hnone := right?_eq_none_iff.1 hright trail tail rfl htrail
    rw [Text.restOfLine?_eq_some_iff.2 ⟨hne, hbreak, htail⟩] at hnone
    simp at hnone
  · intro h
    cases hafter : separator.after? rest with
    | none => rfl
    | some post =>
        obtain ⟨core, more, rfl, hcore, hright⟩ := exists_core_of_after? hafter
        obtain ⟨trail, tail, rfl, htrail, hrest, -⟩ := right?_longest hright
        obtain ⟨hne, hbreak, htail⟩ := Text.restOfLine?_eq_some_iff.1 hrest
        exact absurd ⟨hcore, htrail, hne, hbreak, tail, rfl, htail⟩ (h core trail post)

/-- **What is found behind a left side**: the right side behind the separator and the most blanks. -/
theorem after?_eq_some {separator : Separator} (hsolid : separator.IsSolid)
    {rest post : List Char} (h : separator.after? rest = some post) :
    ∃ core trail, Behind separator rest core trail post ∧
      ∀ core' trail' post', Behind separator rest core' trail' post' →
        core' = core ∧ trail'.length ≤ trail.length := by
  obtain ⟨core, more, rfl, hcore, hright⟩ := exists_core_of_after? h
  obtain ⟨trail, tail, rfl, htrail, hrest, hlongest⟩ := right?_longest hright
  obtain ⟨hne, hbreak, htail⟩ := Text.restOfLine?_eq_some_iff.1 hrest
  refine ⟨core, trail, ⟨hcore, htrail, hne, hbreak, tail, rfl, htail⟩, ?_⟩
  rintro core' trail' post' ⟨hcore', htrail', hne', hbreak', tail', heq, htail'⟩
  obtain rfl := hcore.append_inj hsolid hcore' heq
  refine ⟨rfl, hlongest trail' tail' post' (List.append_cancel_left heq) htrail' ?_⟩
  exact Text.restOfLine?_eq_some_iff.2 ⟨hne', hbreak', htail'⟩

/-! ### Splitting at one separator -/

/-- A text is not split at a separator exactly if it does not decompose there. -/
theorem splitAt?_after?_eq_none_iff {separator : Separator} {cs : List Char} :
    Text.splitAt? separator.after? cs = none ↔ ¬ Decomposable separator cs := by
  rw [Text.splitAt?_eq_none_iff]
  constructor
  · rintro h ⟨pre, core, trail, post, hne, hbreak, rest, rfl, hbehind⟩
    exact after?_eq_none_iff.1 (h pre rest rfl hne hbreak) core trail post hbehind
  · intro h pre rest hcs hne hbreak
    rw [after?_eq_none_iff]
    intro core trail post hbehind
    exact h ⟨pre, core, trail, post, hne, hbreak, rest, hcs, hbehind⟩

/-- **A text is split at a separator as the shortest left side and the most blanks have it.** -/
theorem exists_isTaken_of_splitAt? {separator : Separator} (hsolid : separator.IsSolid)
    {cs pre post : List Char} (h : Text.splitAt? separator.after? cs = some (pre, post)) :
    ∃ core trail, IsTaken separator cs pre core trail post := by
  obtain ⟨hne, hbreak, rest, rfl, hafter, hshortest⟩ := Text.splitAt?_shortest h
  obtain ⟨core, trail, hbehind, hlongest⟩ := after?_eq_some hsolid hafter
  refine ⟨core, trail, ⟨⟨hne, hbreak, rest, rfl, hbehind⟩, ?_, ?_⟩⟩
  · rintro pre' core' trail' post' ⟨hne', -, rest', hcs, hbehind'⟩
    cases hfound : separator.after? rest' with
    | none => exact absurd hbehind' (after?_eq_none_iff.1 hfound core' trail' post')
    | some post'' => exact hshortest pre' rest' post'' hcs hne' hfound
  · rintro core' trail' post' ⟨-, -, rest', hcs, hbehind'⟩
    obtain rfl := List.append_cancel_left hcs
    exact hlongest core' trail' post' hbehind'

theorem IsTaken.unique {separator : Separator} {cs pre pre' core core' trail trail' post post'
    : List Char} (h : IsTaken separator cs pre core trail post)
    (h' : IsTaken separator cs pre' core' trail' post') : pre = pre' ∧ post = post' := by
  have hlength : pre.length = pre'.length :=
    Nat.le_antisymm (h.shortest _ _ _ _ h'.decomposes) (h'.shortest _ _ _ _ h.decomposes)
  obtain ⟨-, -, rest, rfl, hbehind⟩ := h.decomposes
  obtain ⟨-, -, rest', hcs, hbehind'⟩ := h'.decomposes
  obtain ⟨rfl, rfl⟩ := List.append_inj hcs hlength
  refine ⟨rfl, ?_⟩
  obtain ⟨rfl, hle⟩ := h.longest _ _ _ h'.decomposes
  obtain ⟨-, hle'⟩ := h'.longest _ _ _ h.decomposes
  obtain ⟨-, -, -, hbreak, tail, rfl, htail⟩ := hbehind
  obtain ⟨-, -, -, hbreak', tail', heq, htail'⟩ := hbehind'
  obtain ⟨rfl, rfl⟩ := List.append_inj (List.append_cancel_left heq) (Nat.le_antisymm hle' hle)
  -- a last line break belongs to neither right side
  rcases htail with rfl | rfl <;> rcases htail' with htail' | htail'
  · exact htail'
  · exact absurd (by rw [htail']; simp) hbreak
  · exact absurd (by rw [← htail']; simp) hbreak'
  · exact List.append_cancel_right htail'

/-- A text is split at a separator exactly as the decomposition has it that is taken. -/
theorem splitAt?_after?_eq_some_iff {separator : Separator} (hsolid : separator.IsSolid)
    {cs pre post : List Char} :
    Text.splitAt? separator.after? cs = some (pre, post) ↔
      ∃ core trail, IsTaken separator cs pre core trail post := by
  constructor
  · exact exists_isTaken_of_splitAt? hsolid
  · rintro ⟨core, trail, htaken⟩
    cases hsplit : Text.splitAt? separator.after? cs with
    | none =>
        have hnot := splitAt?_after?_eq_none_iff.1 hsplit
        exact absurd ⟨pre, core, trail, post, htaken.decomposes⟩ hnot
    | some pair =>
        obtain ⟨pre', post'⟩ := pair
        obtain ⟨core', trail', htaken'⟩ := exists_isTaken_of_splitAt? hsolid hsplit
        obtain ⟨rfl, rfl⟩ := htaken.unique htaken'
        rfl

/-! ### Splitting at the first comparison -/

theorem isSolid_of_mem_comparisons :
    ∀ comparison ∈ comparisons, comparison.1.IsSolid := by
  decide

/-- A text split at one comparison: the two sides without outer blanks, and the operator. -/
def splitBy? (cs : List Char) (comparison : Separator × Operator) :
    Option (List Char × Operator × List Char) :=
  match Text.splitAt? comparison.1.after? cs with
  | some (left, right) => some (Text.strip left, comparison.2, Text.strip right)
  | none => none

theorem split?_eq_findSome? (cs : List Char) : split? cs = comparisons.findSome? (splitBy? cs) :=
  rfl

theorem splitBy?_eq_none_iff {cs : List Char} {comparison : Separator × Operator} :
    splitBy? cs comparison = none ↔ ¬ Decomposable comparison.1 cs := by
  rw [← splitAt?_after?_eq_none_iff, splitBy?]
  cases Text.splitAt? comparison.1.after? cs with
  | none => simp
  | some pair => simp

theorem splitBy?_eq_some_iff {cs left right : List Char} {op : Operator}
    {comparison : Separator × Operator} (hsolid : comparison.1.IsSolid) :
    splitBy? cs comparison = some (left, op, right) ↔
      comparison.2 = op ∧ ∃ pre core trail post, IsTaken comparison.1 cs pre core trail post ∧
        left = Text.strip pre ∧ right = Text.strip post := by
  rw [splitBy?]
  constructor
  · intro h
    cases hsplit : Text.splitAt? comparison.1.after? cs with
    | none => simp [hsplit] at h
    | some pair =>
        obtain ⟨pre, post⟩ := pair
        simp only [hsplit, Option.some.injEq, Prod.mk.injEq] at h
        obtain ⟨rfl, hop, rfl⟩ := h
        obtain ⟨core, trail, htaken⟩ := (splitAt?_after?_eq_some_iff hsolid).1 hsplit
        exact ⟨hop, pre, core, trail, post, htaken, rfl, rfl⟩
  · rintro ⟨rfl, pre, core, trail, post, htaken, rfl, rfl⟩
    rw [(splitAt?_after?_eq_some_iff hsolid).2 ⟨core, trail, htaken⟩]

theorem split?_eq_none_iff {cs : List Char} :
    split? cs = none ↔ ∀ comparison ∈ comparisons, ¬ Decomposable comparison.1 cs := by
  simp only [split?_eq_findSome?, List.findSome?_eq_none_iff, splitBy?_eq_none_iff]

/-- **A text is split at the first comparison at which it decomposes, behind the shortest left
side**, the separator having the most blanks behind it that leave a right side; and it is not split
exactly if it decomposes at no comparison. -/
theorem split?_eq_iff (cs : List Char) (result : Option (List Char × Operator × List Char)) :
    split? cs = result ↔ IsSplit cs result := by
  rcases result with _ | ⟨left, op, right⟩
  · exact split?_eq_none_iff
  · rw [split?_eq_findSome?, List.findSome?_eq_some_iff]
    constructor
    · rintro ⟨earlier, ⟨separator, op'⟩, later, hlist, hfound, hearlier⟩
      have hmem : (separator, op') ∈ comparisons := by rw [hlist]; simp
      obtain ⟨rfl, htaken⟩ :=
        (splitBy?_eq_some_iff (isSolid_of_mem_comparisons _ hmem)).1 hfound
      refine ⟨earlier, separator, later, hlist, ?_, htaken⟩
      intro comparison hcomparison
      exact splitBy?_eq_none_iff.1 (hearlier comparison hcomparison)
    · rintro ⟨earlier, separator, later, hlist, hearlier, htaken⟩
      have hmem : (separator, op) ∈ comparisons := by rw [hlist]; simp
      have hsolid := isSolid_of_mem_comparisons _ hmem
      refine ⟨earlier, (separator, op), later, hlist, (splitBy?_eq_some_iff hsolid).2 ⟨rfl, htaken⟩,
        ?_⟩
      intro comparison hcomparison
      exact splitBy?_eq_none_iff.2 (hearlier comparison hcomparison)

-- a later `is` wins over an earlier sign, and blanks at the ends serve as sides
example : split? "a > b is c".toList = some ("a > b".toList, .is, "c".toList) := by decide
example : split? "  is  \n".toList = some ([], .is, []) := by decide

end Parse

/-! ### Texts in quotes -/

namespace Text

/-- A word that stands in a text with a blank right before and right behind it. -/
def Stands (word : String) (cs : List Char) : Prop :=
  ∃ before b written c after, cs = before ++ b :: (written ++ c :: after) ∧
    isBlank b = true ∧ CountsAs word written ∧ isBlank c = true

theorem standsIn_iff {word : String} {cs : List Char} :
    standsIn word cs = true ↔ Stands word cs := by
  constructor
  · intro h
    induction cs with
    | nil => simp [standsIn] at h
    | cons b cs ih =>
        rw [standsIn, Bool.or_eq_true, Bool.and_eq_true] at h
        rcases h with ⟨hb, hbehind⟩ | h
        · -- the word is written right behind the first character
          split at hbehind
          · rename_i c after hdrop
            obtain ⟨written, rfl, hwritten⟩ := dropWord?_eq_some_iff.1 hdrop
            exact ⟨[], b, written, c, after, rfl, hb, hwritten, hbehind⟩
          · simp at hbehind
        · obtain ⟨before, b', written, c, after, rfl, hfacts⟩ := ih h
          exact ⟨b :: before, b', written, c, after, rfl, hfacts⟩
  · rintro ⟨before, b, written, c, after, rfl, hb, hwritten, hc⟩
    exact standsIn_append hb (dropWord?_eq_nil_iff.2 hwritten) hc before after

instance (word : String) (cs : List Char) : Decidable (Stands word cs) :=
  decidable_of_iff _ standsIn_iff

theorem isPlain_iff {s : String} (hbreak : '\n' ∉ s.toList) :
    IsPlain s ↔ '<' ∉ s.toList ∧ '>' ∉ s.toList ∧
      ∀ word ∈ ["is", "after", "before"], ¬ Stands word s.toList := by
  simp only [← standsIn_iff, Bool.not_eq_true]
  constructor
  · intro h
    exact ⟨h.no_less, h.no_greater, h.no_word⟩
  · rintro ⟨hless, hgreater, hwords⟩
    exact ⟨hbreak, hless, hgreater, hwords⟩

end Text

namespace Parse

open Text (Stands Spaced CountsAs)

section Quoted

variable {s : String} (hbreak : '\n' ∉ s.toList) {mark : Char} (hmark : mark ∈ ['"', '\x27'])

include hbreak hmark

/-- A text in quotes decomposes at a separator within it: the quotes make both sides more than
nothing. -/
theorem decomposable_quoted {separator : Separator} (before core trail after : List Char)
    (hs : s.toList = before ++ (core ++ (trail ++ after))) (hcore : separator.Core core)
    (htrail : separator.Trail trail) : Decomposable separator (mark :: (s.toList ++ [mark])) := by
  have hquote : '\n' ≠ mark := by
    rintro rfl
    exact absurd hmark (by decide)
  rw [hs] at hbreak ⊢
  simp only [List.mem_append, not_or] at hbreak
  obtain ⟨hbefore, -, -, hafter⟩ := hbreak
  refine ⟨mark :: before, core, trail, after ++ [mark], List.cons_ne_nil _ _, ?_,
    core ++ (trail ++ (after ++ [mark])), by simp, hcore, htrail, by simp, ?_, _, rfl, .inl rfl⟩
  · simpa [hquote] using hbefore
  · simpa [hquote] using hafter

theorem decomposable_quoted_sign {sign : Char} (h : sign ∈ s.toList) :
    Decomposable (.sign sign) (mark :: (s.toList ++ [mark])) := by
  obtain ⟨before, after, hs⟩ := List.append_of_mem h
  apply decomposable_quoted hbreak hmark before [sign] [] after hs
  · exact ⟨[], by simp, rfl⟩
  · simp [Separator.Trail]

theorem decomposable_quoted_word {word : String} (h : Stands word s.toList) :
    Decomposable (.words [word]) (mark :: (s.toList ++ [mark])) := by
  obtain ⟨before, b, written, c, after, hs, hb, hwritten, hc⟩ := h
  apply decomposable_quoted hbreak hmark before ([b] ++ (written ++ [])) [c] after (by simp [hs])
  · exact .cons (List.cons_ne_nil _ _) (List.forall_mem_singleton.2 hb) hwritten .nil
  · exact ⟨List.cons_ne_nil _ _, List.forall_mem_singleton.2 hc⟩

/-- **A text in quotes is not split exactly if it can be written in quotes.** -/
theorem split?_quoted_eq_none_iff :
    split? (mark :: (s.toList ++ [mark])) = none ↔ Text.IsPlain s := by
  constructor
  · intro hnone
    rw [split?_eq_none_iff] at hnone
    refine ⟨hbreak, ?_, ?_, ?_⟩
    · intro hsign
      exact hnone (.sign '<', .less) (by decide) (decomposable_quoted_sign hbreak hmark hsign)
    · intro hsign
      exact hnone (.sign '>', .greater) (by decide) (decomposable_quoted_sign hbreak hmark hsign)
    · have hlisted : ∀ word ∈ Operator.words, ∃ op ∈ Operator.all,
          (Separator.words [word], op) ∈ comparisons := by decide
      intro word hword
      obtain ⟨op, -, hop⟩ := hlisted word hword
      rw [Bool.eq_false_iff, ne_eq, Text.standsIn_iff]
      intro hstands
      exact hnone _ hop (decomposable_quoted_word hbreak hmark hstands)
  · intro hplain
    exact (Render.IsAtomText.quoted hplain ⟨mark, hmark, rfl⟩).split?_eq_none

end Quoted

theorem readAtom_eq_error {cs : List Char} {cause : Cause} (h : readAtom cs = .error cause) :
    ∃ text unquoted, cause = .invalidExpression text unquoted := by
  rw [readAtom] at h
  split at h
  · simp at h
  · exact ⟨_, _, (Except.error.inj h).symm⟩

/-- A text that is split is read as a comparison or refused as no expression. -/
theorem exprAt_of_split? {cs : List Char} (h : split? cs ≠ none) (line : Line) :
    (∃ op left right, exprAt line cs = .ok (.compare op left right)) ∨
      ∃ text unquoted,
        exprAt line cs = .error (.at line.number (.invalidExpression text unquoted)) := by
  rw [exprAt, readExpr]
  cases hsplit : split? cs with
  | none => exact absurd hsplit h
  | some parts =>
      obtain ⟨left, op, right⟩ := parts
      simp only
      cases hleft : readAtom left with
      | error cause =>
          obtain ⟨text, unquoted, rfl⟩ := readAtom_eq_error hleft
          exact .inr ⟨text, unquoted, rfl⟩
      | ok l =>
          cases hright : readAtom right with
          | error cause =>
              obtain ⟨text, unquoted, rfl⟩ := readAtom_eq_error hright
              exact .inr ⟨text, unquoted, rfl⟩
          | ok r => exact .inl ⟨op, l, r, rfl⟩

/-- **Which quoted texts are texts.**  A text without a line break, in quotes of either kind, is read
as that text exactly if it has no sign of a comparison and no word of one with a blank right before
and right behind it; any other is read as a comparison or refused. -/
theorem exprAt_quoted_iff (line : Line) (s : String) (hbreak : '\n' ∉ s.toList) (mark : Char)
    (hmark : mark ∈ ['"', '\x27']) :
    (exprAt line (mark :: (s.toList ++ [mark])) = .ok (.text s) ↔
      '<' ∉ s.toList ∧ '>' ∉ s.toList ∧
        ∀ word ∈ ["is", "after", "before"], ¬ Stands word s.toList) ∧
    (exprAt line (mark :: (s.toList ++ [mark])) ≠ .ok (.text s) →
      (∃ op left right,
        exprAt line (mark :: (s.toList ++ [mark])) = .ok (.compare op left right)) ∨
      ∃ text unquoted, exprAt line (mark :: (s.toList ++ [mark])) =
        .error (.at line.number (.invalidExpression text unquoted))) := by
  rw [← Text.isPlain_iff hbreak]
  by_cases hplain : Text.IsPlain s
  · have hread : exprAt line (mark :: (s.toList ++ [mark])) = .ok (.text s) :=
      Render.exprAt_eq (.atom (.text ⟨mark, hmark, rfl⟩)) hplain line
    exact ⟨⟨fun _ => hplain, fun _ => hread⟩, fun hne => absurd hread hne⟩
  · have hsplit : split? (mark :: (s.toList ++ [mark])) ≠ none :=
      mt (split?_quoted_eq_none_iff hbreak hmark).1 hplain
    have hother := exprAt_of_split? hsplit line
    refine ⟨⟨?_, fun h => absurd h hplain⟩, fun _ => hother⟩
    intro hread
    rcases hother with ⟨op, left, right, h⟩ | ⟨text, unquoted, h⟩
    · rw [hread] at h
      simp at h
    · rw [hread] at h
      simp at h

/-- A word that touches the quotes does not count, and quotes within a text do not protect it. -/
theorem exprAt_quoted_touching :
    exprAt ⟨1, 0, "", ""⟩ "\"is it after\"".toList = .ok (.text "is it after") ∧
    exprAt ⟨1, 0, "", ""⟩ "\"a\" IS \"b\"".toList ≠ .ok (.text "a\" IS \"b") := by
  refine ⟨?_, ?_⟩
  · have hiff := (exprAt_quoted_iff ⟨1, 0, "", ""⟩ "is it after" (by decide) '"' (by decide)).1
    exact hiff.2 ⟨by decide, by decide, by decide⟩
  · have hiff := (exprAt_quoted_iff ⟨1, 0, "", ""⟩ "a\" IS \"b" (by decide) '"' (by decide)).1
    intro hread
    exact (hiff.1 hread).2.2 "is" (by decide) (by decide)

end Parse

end Waymark
