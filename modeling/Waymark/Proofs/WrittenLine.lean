/-
**Written lines are read back.**

A line is a keyword in any letter case and its arguments, with single spaces between them.  The
readers of lines try the keywords one after the other, so it has to be shown that a written line is
passed over by every keyword that is tried before its own, and that the arguments are cut out of it
as they were put in.

Main definitions:

* `Render.HeaderLine`, `Parse.Header.IsPlain` — what is written for a header, and the headers that can be
  written;
* `Render.OptionLine`, `Parse.RouteOption.IsPlain` — the same for route options.

Main results:

* `Render.HeaderLine.readHeader_eq` — **a written header is read back**;
* `Render.OptionLine.readOption_eq` — **a written route option is read back**.
-/
import Waymark.Parse.Option
import Waymark.Proofs.WrittenExpr

set_option relaxedAutoImplicit false
set_option autoImplicit false

namespace Waymark

/-! ### Headers -/

/-- A header that can be written: events are phrases, names are identifiers, and expressions are
plain. -/
def Parse.Header.IsPlain (header : Header) : Prop :=
  match header with
  | .when event => Text.IsPhrase event.toList
  | .branch test => test.IsPlain
  | .display value => value.IsPlain
  | .assign name value => Text.isIdentifier name.toList = true ∧ value.IsPlain
  | .route name => Text.isIdentifier name.toList = true

/-- A route option that can be written: places are plain texts and times are clock readings. -/
def Parse.RouteOption.IsPlain (option : RouteOption) : Prop :=
  match option with
  | .avoid _ => True
  | .origin place => Text.IsPlain place
  | .destination place => Text.IsPlain place
  | .prefer _ => True
  | .maxStops _ => True
  | .departAt clock => Text.IsClock clock.toList
  | .arriveBefore clock => Text.IsClock clock.toList

namespace Render

open Parse
open Text (Spells StartsSolid IsPhrase IsWord isVisible clash)

/-- `HeaderLine header cs`: the text `cs` is written for the header. -/
inductive HeaderLine : Header → List Char → Prop
  | when {event : String} {word : List Char} :
      Spells "when" word → HeaderLine (.when event) (word ++ ' ' :: event.toList)
  | branch {test : Expr} {word cs : List Char} :
      Spells "if" word → Expression test cs → HeaderLine (.branch test) (word ++ ' ' :: cs)
  | display {value : Expr} {word cs : List Char} :
      Spells "show" word → Expression value cs → HeaderLine (.display value) (word ++ ' ' :: cs)
  | assign {name : String} {value : Expr} {word word' cs : List Char} :
      Spells "set" word → Spells "to" word' → Expression value cs →
      HeaderLine (.assign name value) (word ++ ' ' :: (name.toList ++ ' ' :: (word' ++ ' ' :: cs)))
  | route {name : String} {word : List Char} :
      Spells "route" word → HeaderLine (.route name) (word ++ ' ' :: name.toList)

/-- `OptionLine option cs`: the text `cs` is written for the route option.  A number of stops may have
leading zeros, as long as its digits are not too many to be read. -/
inductive OptionLine : RouteOption → List Char → Prop
  | avoid {a : Avoidance} {word cs : List Char} :
      Spells "avoid" word → Spells a.word cs → OptionLine (.avoid a) (word ++ ' ' :: cs)
  | origin {place : String} {word cs : List Char} :
      Spells "from" word → Quoted place cs → OptionLine (.origin place) (word ++ ' ' :: cs)
  | destination {place : String} {word cs : List Char} :
      Spells "to" word → Quoted place cs → OptionLine (.destination place) (word ++ ' ' :: cs)
  | prefer {p : Preference} {word cs : List Char} :
      Spells "prefer" word → Spells p.word cs → OptionLine (.prefer p) (word ++ ' ' :: cs)
  | maxStops {word ds : List Char} :
      Spells "max stops" word → ds ≠ [] → (∀ d ∈ ds, d.isDigit = true) →
      ds.length ≤ Numeral.maxDigits →
      OptionLine (.maxStops (Text.digitsValue ds)) (word ++ ' ' :: ds)
  | departAt {clock : String} {word : List Char} :
      Spells "depart at" word → OptionLine (.departAt clock) (word ++ ' ' :: clock.toList)
  | arriveBefore {clock : String} {word : List Char} :
      Spells "arrive before" word → OptionLine (.arriveBefore clock) (word ++ ' ' :: clock.toList)

/-! ### Keywords -/

/-- A written keyword is the one that the line starts with. -/
theorem startsWith_spells {word : String} {written : List Char} (h : Spells word written)
    (hword : isVisible word = true) (rest : List Char) :
    startsWith word (written ++ ' ' :: rest) = true := by
  have hspace : Text.lowerChar ' ' = [' '] := by decide
  rw [startsWith, h.lower_append hword, Text.lower_cons, hspace, List.isPrefixOf_iff_prefix,
    List.prefix_append_right_inj]
  exact List.prefix_append [' '] (Text.lower rest)

/-- Words that differ at a place that both have are not the start of each other's lines. -/
theorem not_prefix_of_clash {xs ys : List Char} (h : clash xs ys = true) (more rest : List Char) :
    ¬ xs ++ more <+: ys ++ rest := by
  induction xs generalizing ys with
  | nil => simp [clash] at h
  | cons x xs ih =>
      cases ys with
      | nil => simp [clash] at h
      | cons y ys =>
          rw [List.cons_append, List.cons_append, List.cons_prefix_cons]
          rintro ⟨rfl, hprefix⟩
          exact ih (by simpa [clash] using h) hprefix

/-- A written keyword is not taken for another one. -/
theorem startsWith_clash {word other : String} {written : List Char} (h : Spells word written)
    (hword : isVisible word = true) (hclash : clash other.toList word.toList = true)
    (rest : List Char) : startsWith other (written ++ rest) = false := by
  rw [startsWith, h.lower_append hword, Bool.eq_false_iff, ne_eq, List.isPrefixOf_iff_prefix]
  exact not_prefix_of_clash hclash [' '] (Text.lower rest)

/-- A line that starts with a written statement keyword starts with no other one. -/
theorem startsWith_statement {word other : String} {written : List Char} (h : Spells word written)
    (hword : word ∈ Keyword.statements) (hother : other ∈ Keyword.statements)
    (rest : List Char) : startsWith other (written ++ ' ' :: rest) = (other == word) := by
  have hvisible : ∀ word ∈ Keyword.statements, isVisible word = true := by decide
  have hclash : ∀ word ∈ Keyword.statements, ∀ other ∈ Keyword.statements, other ≠ word →
      clash other.toList word.toList = true := by
    decide
  by_cases heq : other = word
  · rw [heq, startsWith_spells h (hvisible word hword), beq_self_eq_true]
  · rw [startsWith_clash h (hvisible word hword) (hclash word hword other hother heq),
      beq_false_of_ne heq]

/-- What stands behind a written keyword. -/
theorem argumentOf?_spells {word : String} {written cs : List Char} (h : Spells word written)
    (hcs : IsPhrase cs) : argumentOf? word (written ++ ' ' :: cs) = some cs := by
  rw [argumentOf?, h.afterWord_append, hcs.argument?_eq]

/-! ### Reading headers -/

/-- An identifier is the name at the start of the line that goes on with a space, or ends. -/
theorem name?_identifier {name rest : List Char} (h : Text.isIdentifier name = true)
    (hrest : ∀ c ∈ rest.head?, Text.isNamePart c = false) :
    Text.name? (name ++ rest) = some (name, rest) := by
  cases name with
  | nil => simp [Text.isIdentifier] at h
  | cons c name =>
      have hstart : Text.isNameStart c = true := by
        simp only [Text.isIdentifier, Bool.and_eq_true] at h
        simp [Text.isNameStart, h.1]
      have hparts : ∀ d ∈ name, Text.isNamePart d = true := by
        intro d hd
        simp [Text.isNamePart, Text.isIdentifierPart_of_mem h (List.mem_cons_of_mem c hd)]
      obtain ⟨htake, hdrop⟩ := Text.cut_append hparts hrest
      rw [List.cons_append, Text.name?, if_pos hstart, htake, hdrop]

/-- An identifier is a phrase. -/
theorem isPhrase_identifier {name : List Char} (h : Text.isIdentifier name = true) :
    IsPhrase name := by
  apply Text.isPhrase_of_no_blank
  · rintro rfl
    simp [Text.isIdentifier] at h
  · intro c hc
    have hcode := Text.isIdentifierPart_iff.1 (Text.isIdentifierPart_of_mem h hc)
    exact Text.isBlank_eq_false (by omega) (by omega)

/-- The arguments of a plain header are phrases, and so is what is written for it. -/
theorem HeaderLine.isPhrase {header : Header} {cs : List Char} (h : HeaderLine header cs)
    (hplain : header.IsPlain) : IsPhrase cs := by
  cases h with
  | when hword => exact (hword.isPhrase (by decide)).append hplain
  | branch hword htest =>
      exact (hword.isPhrase (by decide)).append (htest.isPhrase hplain)
  | display hword hvalue =>
      exact (hword.isPhrase (by decide)).append (hvalue.isPhrase hplain)
  | assign hword hto hvalue =>
      obtain ⟨hname, hplain⟩ := hplain
      exact (hword.isPhrase (by decide)).append ((isPhrase_identifier hname).append
        ((hto.isPhrase (by decide)).append (hvalue.isPhrase hplain)))
  | route hword =>
      exact (hword.isPhrase (by decide)).append (isPhrase_identifier hplain)

/-- The name and the value of a written assignment. -/
theorem assignment?_spells {word word' name cs : List Char} (hword : Spells "set" word)
    (hname : Text.isIdentifier name = true) (hto : Spells "to" word') (hcs : IsPhrase cs) :
    assignment? (word ++ ' ' :: (name ++ ' ' :: (word' ++ ' ' :: cs))) = some (name, cs) := by
  have hname' := isPhrase_identifier hname
  have hto' := hto.isPhrase (by decide)
  have hfound : Text.name? (name ++ ' ' :: (word' ++ ' ' :: cs)) =
      some (name, ' ' :: (word' ++ ' ' :: cs)) :=
    name?_identifier hname (by rintro c ⟨rfl⟩; decide)
  rw [assignment?, hword.afterWord_append,
    Text.afterBlanks_space _ (hname'.starts.append hname'.ne_nil _)]
  simp only [hfound]
  rw [Text.afterBlanks_space _ (hto'.starts.append hto'.ne_nil _), hto.afterWord_append,
    hcs.argument?_eq]

/-- The name of a written route header. -/
theorem routeName?_spells {word name : List Char} (hword : Spells "route" word)
    (hname : Text.isIdentifier name = true) : routeName? (word ++ ' ' :: name) = some name := by
  have hfound : Text.name? (name ++ []) = some (name, []) := name?_identifier hname (by simp)
  rw [List.append_nil] at hfound
  rw [routeName?, hword.afterWord_append,
    Text.afterBlanks_space _ (isPhrase_identifier hname).starts]
  simp only [hfound]
  rfl

/-- A written expression is read at any line. -/
theorem exprAt_eq {e : Expr} {cs : List Char} (h : Expression e cs) (he : e.IsPlain)
    (line : Line) : exprAt line cs = .ok e := by
  rw [exprAt, readExpr_eq h he]

/-- A line is read by the reader of the statement keyword that it starts with. -/
theorem readHeader_spells {word : String} {written rest : List Char} {line : Line}
    (h : Spells word written) (hword : word ∈ Keyword.statements)
    (htext : line.text.toList = written ++ ' ' :: rest) :
    readHeader line =
      if word = "when" then readWhen line
      else if word = "if" then readIf line
      else if word = "show" then readShow line
      else if word = "set" then readSet line
      else readRoute line := by
  have hstarts : ∀ other ∈ Keyword.statements,
      startsWith other line.text.toList = (other == word) := by
    intro other hother
    rw [htext]
    exact startsWith_statement h hword hother rest
  simp only [readHeader, hstarts "when" (by decide), hstarts "if" (by decide),
    hstarts "show" (by decide), hstarts "set" (by decide), hstarts "route" (by decide)]
  simp only [Keyword.statements, List.mem_cons, List.not_mem_nil, or_false] at hword
  rcases hword with rfl | rfl | rfl | rfl | rfl <;> simp

/-- **A written header is read back.** -/
theorem HeaderLine.readHeader_eq {header : Header} {line : Line}
    (h : HeaderLine header line.text.toList) (hplain : header.IsPlain) :
    readHeader line = .ok header := by
  -- the keyword decides which reader is asked, and the reader finds the arguments behind it
  generalize htext : line.text.toList = cs at h
  cases h with
  | when hword =>
      rw [readHeader_spells hword (by decide) htext]
      simp [readWhen, htext, argumentOf?_spells hword hplain]
  | branch hword htest =>
      rw [readHeader_spells hword (by decide) htext]
      simp [readIf, htext, argumentOf?_spells hword (htest.isPhrase hplain),
        exprAt_eq htest hplain]
  | display hword hvalue =>
      rw [readHeader_spells hword (by decide) htext]
      simp [readShow, htext, argumentOf?_spells hword (hvalue.isPhrase hplain),
        exprAt_eq hvalue hplain]
  | assign hword hto hvalue =>
      obtain ⟨hname, hplain⟩ := hplain
      rw [readHeader_spells hword (by decide) htext]
      simp [readSet, htext, assignment?_spells hword hname hto (hvalue.isPhrase hplain),
        exprAt_eq hvalue hplain]
  | route hword =>
      rw [readHeader_spells hword (by decide) htext]
      simp [readRoute, htext, routeName?_spells hword hplain]

/-- A line that opens an alternative is recognised. -/
theorem isElse_spells {line : Line} (h : Spells "else" line.text.toList) : isElse line = true := by
  rw [isElse, h.dropWord?_eq]
  rfl

/-! ### Reading route options -/

/-- A written word is found among words that differ from each other. -/
theorem oneOf?_spells {words : List String} {word : String} {cs : List Char}
    (h : Spells word cs) (hword : isVisible word = true) (hmem : word ∈ words)
    (hclash : ∀ other ∈ words, other ≠ word → clash other.toList word.toList = true) :
    oneOf? words cs = some cs := by
  have hlength : word.length = cs.length := by
    rw [← String.length_toList, ← h, List.length_map]
  -- the words before the first occurrence are other words, and clash with this one
  obtain ⟨before, after, rfl, hnot⟩ := List.eq_append_cons_of_mem hmem
  rw [oneOf?, List.findSome?_eq_some_iff]
  refine ⟨before, word, after, rfl, ?_, ?_⟩
  · simp [h.dropWord?_eq, Text.atEnd, hlength]
  · intro other hother
    have hne : other ≠ word := fun heq => hnot (heq ▸ hother)
    have hnone := h.dropWord?_eq_none hword
      (hclash other (List.mem_append_left _ hother) hne) []
    rw [List.append_nil] at hnone
    simp only [hnone]

/-- The word behind a written keyword, one of words that differ from each other. -/
theorem choice?_spells {keyword word : String} {words : List String} {written cs : List Char}
    (hkeyword : Spells keyword written) (h : Spells word cs) (hword : IsWord word)
    (hmem : word ∈ words)
    (hclash : ∀ other ∈ words, other ≠ word → clash other.toList word.toList = true) :
    choice? keyword words (written ++ ' ' :: cs) = some cs := by
  rw [choice?, hkeyword.afterWord_append,
    Text.afterBlanks_space _ (h.isPhrase hword).starts, oneOf?_spells h hword.visible hmem hclash]

/-- Digits are a phrase. -/
theorem isPhrase_digits {ds : List Char} (hne : ds ≠ []) (hds : ∀ d ∈ ds, d.isDigit = true) :
    IsPhrase ds := by
  apply Text.isPhrase_of_no_blank hne
  intro d hd
  have hcode : 48 ≤ d.toNat ∧ d.toNat ≤ 57 := Char.isDigit_iff_toNat.1 (hds d hd)
  exact Text.isBlank_eq_false (by omega) (by omega)

/-- The digits behind the two words for a number of stops. -/
theorem stops?_spells {written ds : List Char} (h : Spells "max stops" written) (hne : ds ≠ [])
    (hds : ∀ d ∈ ds, d.isDigit = true) : stops? (written ++ ' ' :: ds) = some ds := by
  obtain ⟨first, second, rfl, hfirst, hsecond⟩ := h.split "max" "stops" rfl
  have hstops := hsecond.isPhrase (by decide)
  have hdigits : Text.digits? (ds ++ []) = some (ds, []) := Text.digits?_append hne hds (by simp)
  rw [List.append_nil] at hdigits
  rw [stops?, List.append_assoc, hfirst.afterWord_append, List.cons_append,
    Text.afterBlanks_space _ (hstops.starts.append hstops.ne_nil _), hsecond.afterWord_append,
    Text.afterBlanks_space _ (isPhrase_digits hne hds).starts]
  simp only [hdigits]
  rfl

/-- A clock reading is a phrase. -/
theorem isPhrase_clock {clock : String} (h : Text.IsClock clock.toList) : IsPhrase clock.toList :=
  ((Atom.time clock).isAtomText h).isPhrase

/-- The clock reading behind two written words. -/
theorem clockAfter?_spells (first second : String) {phrase clock : String} {written : List Char}
    (h : Spells phrase written) (hphrase : phrase.toList = first.toList ++ ' ' :: second.toList)
    (hsecond : IsWord second) (hclock : Text.IsClock clock.toList) :
    clockAfter? first second (written ++ ' ' :: clock.toList) = some clock.toList := by
  obtain ⟨xs, ys, rfl, hx, hy⟩ := h.split first second hphrase
  have hy' := hy.isPhrase hsecond
  rw [clockAfter?, List.append_assoc, hx.afterWord_append, List.cons_append,
    Text.afterBlanks_space _ (hy'.starts.append hy'.ne_nil _), hy.afterWord_append,
    Text.afterBlanks_space _ (isPhrase_clock hclock).starts]
  obtain ⟨a, b, c, d, hclock, hdigits⟩ := hclock
  have hall : a.isDigit = true ∧ b.isDigit = true ∧ c.isDigit = true ∧ d.isDigit = true := by
    simpa using hdigits
  simp [hclock, lineClock?, Text.clock?, hall, Text.atEnd]

/-- The place behind a written keyword. -/
theorem readPlace_quoted {place : String} {cs : List Char} (h : Quoted place cs)
    (hplace : Text.IsPlain place) (line : Line) (keyword : String) :
    readPlace line keyword cs = .ok place := by
  rw [readPlace, exprAt_eq (.atom (.text h)) hplace]

/-- The first words of route options differ from each other. -/
theorem afterWord_option {α : Type} {word other : String} {written : List Char}
    (h : Spells word written) (hword : word ∈ Keyword.Table.option.words)
    (hother : other ∈ Keyword.Table.option.words) (hne : other ≠ word)
    (next : List Char → Option α) (rest : List Char) :
    Text.afterWord other next (written ++ rest) = none := by
  have hclash : ∀ word ∈ Keyword.Table.option.words, isVisible word = true ∧
      ∀ other ∈ Keyword.Table.option.words, other ≠ word →
        clash other.toList word.toList = true := by
    decide
  obtain ⟨hvisible, hothers⟩ := hclash word hword
  exact h.afterWord_eq_none hvisible (hothers other hother hne) next rest

/-- The words for avoidances are visible and differ from each other. -/
theorem avoidance_facts (a : Avoidance) : IsWord a.word ∧
    a.word ∈ Avoidance.all.map Avoidance.word ∧
    ∀ other ∈ Avoidance.all.map Avoidance.word, other ≠ a.word →
      clash other.toList a.word.toList = true := by
  cases a <;> decide

/-- The words for preferences are visible and differ from each other. -/
theorem preference_facts (p : Preference) : IsWord p.word ∧
    p.word ∈ Preference.all.map Preference.word ∧
    ∀ other ∈ Preference.all.map Preference.word, other ≠ p.word →
      clash other.toList p.word.toList = true := by
  cases p <;> decide

/-- A written word of a vocabulary is read back to its lower case. -/
theorem lower_spells {word : String} {cs : List Char} (h : Spells word cs)
    (hword : isVisible word = true) : String.ofList (Text.lower cs) = word := by
  have hlower := h.lower_append hword []
  rw [List.append_nil, Text.lower_nil, List.append_nil] at hlower
  rw [hlower, String.ofList_toList]

/-- A line with a written `from` says where a route starts. -/
theorem readOption_origin {line : Line} {word cs : List Char} (h : Spells "from" word)
    (hcs : IsPhrase cs) (htext : line.text.toList = word ++ ' ' :: cs) :
    readOption line = (readPlace line "from" cs).map .origin := by
  simp only [readOption, htext, argumentOf?_spells h hcs]
  simp +decide only [choice?, afterWord_option h]

/-- A line with a written `to` says where a route ends. -/
theorem readOption_destination {line : Line} {word cs : List Char} (h : Spells "to" word)
    (hcs : IsPhrase cs) (htext : line.text.toList = word ++ ' ' :: cs) :
    readOption line = (readPlace line "to" cs).map .destination := by
  simp only [readOption, htext, argumentOf?_spells h hcs]
  simp +decide only [choice?, argumentOf?, afterWord_option h]

/-- **A written route option is read back.** -/
theorem OptionLine.readOption_eq {option : RouteOption} {line : Line}
    (h : OptionLine option line.text.toList) (hplain : option.IsPlain) :
    readOption line = .ok option := by
  generalize htext : line.text.toList = cs at h
  -- in each case the recognisers that come first fail at the first word of the line
  cases h with
  | @avoid a _ _ hword ha =>
      obtain ⟨hword', hmem, hclash⟩ := avoidance_facts a
      have hfound := choice?_spells hword ha hword' hmem hclash
      simp only [readOption, htext, hfound, readAvoidance, lower_spells ha hword'.visible,
        Avoidance.ofWord?_word]
  | origin hword hplace =>
      rw [readOption_origin hword (hplace.isPhrase hplain.no_break) htext,
        readPlace_quoted hplace hplain]
      rfl
  | destination hword hplace =>
      rw [readOption_destination hword (hplace.isPhrase hplain.no_break) htext,
        readPlace_quoted hplace hplain]
      rfl
  | @prefer p _ _ hword hp =>
      obtain ⟨hword', hmem, hclash⟩ := preference_facts p
      have hfound := choice?_spells hword hp hword' hmem hclash
      simp only [readOption, htext, hfound, readPreference, lower_spells hp hword'.visible,
        Preference.ofWord?_word]
      simp +decide only [choice?, argumentOf?, afterWord_option hword]
  | maxStops hword hne hds hlength =>
      have hfound := stops?_spells hword hne hds
      obtain ⟨first, second, rfl, hfirst, -⟩ := hword.split "max" "stops" rfl
      rw [List.append_assoc] at htext hfound
      simp only [readOption, htext, hfound, readStops, if_neg (Nat.not_lt.2 hlength)]
      simp +decide only [choice?, argumentOf?, afterWord_option hfirst]
  | departAt hword =>
      have hfound := clockAfter?_spells "depart" "at" hword rfl (by decide) hplain
      obtain ⟨first, second, rfl, hfirst, -⟩ := hword.split "depart" "at" rfl
      rw [List.append_assoc] at htext hfound
      simp only [readOption, htext, hfound]
      simp +decide only [choice?, argumentOf?, stops?, afterWord_option hfirst]
      rw [String.ofList_toList]
  | arriveBefore hword =>
      have hfound := clockAfter?_spells "arrive" "before" hword rfl (by decide) hplain
      obtain ⟨first, second, rfl, hfirst, -⟩ := hword.split "arrive" "before" rfl
      rw [List.append_assoc] at htext hfound
      simp only [readOption, htext, hfound]
      simp +decide only [choice?, argumentOf?, stops?, clockAfter?, afterWord_option hfirst]
      rw [String.ofList_toList]

/-! ### Written lines are significant -/

/-- What is written for a plain route option is a phrase. -/
theorem OptionLine.isPhrase {option : RouteOption} {cs : List Char} (h : OptionLine option cs)
    (hplain : option.IsPlain) : IsPhrase cs := by
  cases h with
  | @avoid a _ _ hword ha =>
      obtain ⟨hword', -⟩ := avoidance_facts a
      exact (hword.isPhrase (by decide)).append (ha.isPhrase hword')
  | origin hword hplace =>
      exact (hword.isPhrase (by decide)).append (IsAtomText.quoted hplain hplace).isPhrase
  | destination hword hplace =>
      exact (hword.isPhrase (by decide)).append (IsAtomText.quoted hplain hplace).isPhrase
  | @prefer p _ _ hword hp =>
      obtain ⟨hword', -⟩ := preference_facts p
      exact (hword.isPhrase (by decide)).append (hp.isPhrase hword')
  | maxStops hword hne hds _ =>
      exact (hword.isPhrase_pair "max" "stops" rfl (by decide) (by decide)).append
        (isPhrase_digits hne hds)
  | departAt hword =>
      exact (hword.isPhrase_pair "depart" "at" rfl (by decide) (by decide)).append
        (isPhrase_clock hplain)
  | arriveBefore hword =>
      exact (hword.isPhrase_pair "arrive" "before" rfl (by decide) (by decide)).append
        (isPhrase_clock hplain)

/-- A line that starts with a keyword is no comment. -/
theorem head?_ne_hash {word : String} {written : List Char} (h : Spells word written)
    (hne : word ≠ "") (hword : '#' ∉ word.toList) (rest : List Char) :
    (written ++ rest).head? ≠ some '#' := by
  have hne' : written ≠ [] := by
    rintro rfl
    exact hne (String.toList_inj.1 h.symm)
  rw [List.head?_append_of_ne_nil written hne']
  intro hhead
  exact h.not_mem (by decide) hword (List.mem_of_mem_head? hhead)

/-- A written header is no comment. -/
theorem HeaderLine.head?_ne {header : Header} {cs : List Char} (h : HeaderLine header cs) :
    cs.head? ≠ some '#' := by
  cases h with
  | when hword => exact head?_ne_hash hword (by decide) (by decide) _
  | branch hword _ => exact head?_ne_hash hword (by decide) (by decide) _
  | display hword _ => exact head?_ne_hash hword (by decide) (by decide) _
  | assign hword _ _ => exact head?_ne_hash hword (by decide) (by decide) _
  | route hword => exact head?_ne_hash hword (by decide) (by decide) _

/-- A written route option is no comment. -/
theorem OptionLine.head?_ne {option : RouteOption} {cs : List Char} (h : OptionLine option cs) :
    cs.head? ≠ some '#' := by
  cases h with
  | avoid hword _ => exact head?_ne_hash hword (by decide) (by decide) _
  | origin hword _ => exact head?_ne_hash hword (by decide) (by decide) _
  | destination hword _ => exact head?_ne_hash hword (by decide) (by decide) _
  | prefer hword _ => exact head?_ne_hash hword (by decide) (by decide) _
  | maxStops hword _ _ _ => exact head?_ne_hash hword (by decide) (by decide) _
  | departAt hword => exact head?_ne_hash hword (by decide) (by decide) _
  | arriveBefore hword => exact head?_ne_hash hword (by decide) (by decide) _

end Render

end Waymark
