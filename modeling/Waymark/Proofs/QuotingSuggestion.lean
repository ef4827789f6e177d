/-
**The suggestion to quote a place.**

The place of a route has to be a text in quotes.  Where it is another expression, the line is refused
with a suggestion: the same line with the place in quotes.  This module says when that line does what
it is suggested for.

What stands in quotes is split at comparisons before the quotes are looked at.  So the suggestion
works for every place that is an atom, which has no blanks and no signs in it; and it fails for every
place that is a comparison, since a text that is split is also split within quotes.  Such a suggestion
leads to a line that is refused again.

Main definitions:

* `Parse.SetsPlace` — a line that sets a place of every plan that has none.

Main results:

* `Parse.isSolid_of_atom?` — an atom that is no text is written without blanks and signs;
* `Parse.Decomposable.quoted` — a text that decomposes does so within quotes;
* `Parse.readOption_placeNotQuoted` — what is known of a line that is refused with the suggestion;
* `Parse.quoting_suggestion_iff` — **the suggested line sets the place exactly if the place that was
  refused is no comparison**, and is refused otherwise.
-/
import Waymark.Proofs.Splitting
import Waymark.Proofs.WellFormed

set_option relaxedAutoImplicit false
set_option autoImplicit false

namespace Waymark

/-! ### Texts without blanks and signs -/

/-- A text without blanks and signs can be written in quotes. -/
theorem Render.IsSolid.isPlain {s : String} (h : IsSolid s.toList) : Text.IsPlain s where
  no_break hmem := absurd (h.no_blank _ hmem) (by decide)
  no_less := h.no_less
  no_greater := h.no_greater
  no_word word _ := by
    rw [Bool.eq_false_iff, ne_eq, Text.standsIn_iff]
    rintro ⟨before, b, written, c, after, hs, hb, -, -⟩
    have hsolid := h.no_blank b (by rw [hs]; simp)
    rw [hb] at hsolid
    simp at hsolid

/-- What counts as a word of letters has neither blanks nor signs in it. -/
theorem Text.CountsAs.isSolid {word : String} {written : List Char} (h : CountsAs word written)
    (hword : IsWord word) (hletters : ∀ letter ∈ word.toList, letter.isLower = true) :
    Render.IsSolid written := by
  have hcounts : ∀ c ∈ written, ∃ letter ∈ word.toList, isLetter letter c = true := by
    intro c hc
    exact exists_isLetter_of_dropWord? (dropWord?_eq_nil_iff.2 h) hc
  have hsign : ∀ sign ∈ ['<', '>'], sign ∉ written := by
    intro sign hmem hsign
    have hlow : ∀ sign ∈ ['<', '>'], sign.toLower.toNat < 97 := by decide
    have hbelow := hlow sign hmem
    obtain ⟨letter, hletter, hcount⟩ := hcounts sign hsign
    have hlower := isLower_iff.1 (hletters letter hletter)
    rw [isLetter_eq (by omega), beq_iff_eq] at hcount
    rw [hcount] at hbelow
    omega
  refine ⟨(h.solid hword).1, ?_, ?_, ?_⟩
  · intro c hc
    obtain ⟨letter, hletter, hcount⟩ := hcounts c hc
    have hlower := isLower_iff.1 (hletters letter hletter)
    exact isBlank_of_isLetter (by omega) (by omega) hcount
  · exact hsign '<' (by decide)
  · exact hsign '>' (by decide)

namespace Parse

open Render (IsSolid)

/-- A truth value is written without blanks and signs. -/
theorem isSolid_of_boolean? {cs : List Char} {b : Bool} (h : boolean? cs = some b) :
    IsSolid cs := by
  have hword : ∀ word ∈ ["true", "false"], Text.dropWord? word.toList cs = some [] →
      IsSolid cs := by
    intro word hword hdrop
    have hfacts : ∀ word ∈ ["true", "false"], Text.IsWord word ∧
        ∀ letter ∈ word.toList, letter.isLower = true := by decide
    obtain ⟨hvisible, hletters⟩ := hfacts word hword
    exact Text.CountsAs.isSolid (Text.dropWord?_eq_nil_iff.1 hdrop) hvisible hletters
  rw [boolean?] at h
  split at h
  · exact hword "true" (by decide) ‹_›
  · split at h
    · exact hword "false" (by decide) ‹_›
    · simp at h

/-- **An atom that is no text is written without blanks and signs.** -/
theorem isSolid_of_atom? {cs : List Char} {e : Expr} (h : atom? cs = some e)
    (hbreak : '\n' ∉ cs) (he : ∀ s, e ≠ .text s) : IsSolid cs := by
  have hwritten : Render.Atom e cs → e.IsPlainAtom → IsSolid cs := by
    intro hatom hplain
    rcases hatom.plain_or_quoted hplain with ⟨s, hs, -⟩ | ⟨hne, hchars⟩
    · exact absurd hs (he s)
    · exact Render.isSolid_of_isPlainChar hne hchars
  have hform := (atom?_wellFormed hbreak h).2
  rw [atom?] at h
  by_cases hquoted : isQuoted cs = true
  · rw [if_pos hquoted, Option.some.injEq] at h
    exact absurd h.symm (he _)
  rw [if_neg hquoted] at h
  cases hbool : boolean? cs with
  | some b => exact isSolid_of_boolean? hbool
  | none =>
      cases hnumber : number? cs with
      | some x =>
          simp only [hbool, hnumber, Option.some.injEq] at h
          subst h
          rw [number?] at hnumber
          split at hnumber
          · rename_i hnumeral
            exact hwritten (.number (Render.isNumeral_of_isNumber hnumeral) hnumber) trivial
          · simp at hnumber
      | none =>
          simp only [hbool, hnumber] at h
          have htime := Render.Atom.time (String.ofList cs)
          have hname := Render.Atom.identifier (String.ofList cs)
          rw [String.toList_ofList] at htime hname
          split at h
          · obtain rfl := Option.some.inj h
            exact hwritten htime hform
          · split at h
            · obtain rfl := Option.some.inj h
              exact hwritten hname hform
            · simp at h

/-! ### Comparisons within quotes -/

/-- **A text that decomposes does so within quotes.** -/
theorem Decomposable.quoted {separator : Separator} {s : String}
    (h : Decomposable separator s.toList) (hbreak : '\n' ∉ s.toList) {mark : Char}
    (hmark : mark ∈ ['"', '\x27']) : Decomposable separator (mark :: (s.toList ++ [mark])) := by
  obtain ⟨pre, core, trail, post, hdecomposes⟩ := h
  obtain ⟨rest, hs, hbehind⟩ := hdecomposes.text
  obtain ⟨tail, hrest, -⟩ := hbehind.text
  exact decomposable_quoted hbreak hmark pre core trail tail (by rw [hs, hrest])
    hbehind.core_written hbehind.trail_blank

/-- A text that can be written in quotes is not split without them. -/
theorem split?_eq_none_of_isPlain {s : String} (h : Text.IsPlain s) : split? s.toList = none := by
  have hmark : '"' ∈ ['"', '\x27'] := by decide
  have hquoted := (split?_quoted_eq_none_iff h.no_break hmark).2 h
  rw [split?_eq_none_iff] at hquoted ⊢
  intro comparison hmem hdecomposable
  exact hquoted comparison hmem (hdecomposable.quoted h.no_break hmark)

/-- **An expression that is no text can be put in quotes exactly if it is no comparison.** -/
theorem isPlain_iff_of_exprAt {line : Line} {s : String} {e : Expr}
    (hphrase : Text.IsPhrase s.toList) (hread : exprAt line s.toList = .ok e)
    (he : ∀ s, e ≠ .text s) :
    Text.IsPlain s ↔ ∀ op left right, e ≠ .compare op left right := by
  cases hsplit : split? s.toList with
  | some parts =>
      have hsome : split? s.toList ≠ none := by simp [hsplit]
      have hplain : ¬ Text.IsPlain s := fun h => hsome (split?_eq_none_of_isPlain h)
      rcases exprAt_of_split? hsome line with ⟨op, left, right, h⟩ | ⟨text, unquoted, h⟩
      · obtain rfl := Except.ok.inj (hread.symm.trans h)
        exact iff_of_false hplain fun hne => hne op left right rfl
      · rw [hread] at h
        simp at h
  | none =>
      rw [exprAt, readExpr] at hread
      simp only [hsplit, readAtom, hphrase.strip_eq] at hread
      cases hatom : atom? s.toList with
      | none => simp [hatom] at hread
      | some e' =>
          simp only [hatom, Except.ok.injEq] at hread
          subst hread
          have hatomic := (atom?_wellFormed hphrase.no_break hatom).1
          refine iff_of_true (isSolid_of_atom? hatom hphrase.no_break he).isPlain ?_
          rintro op left right rfl
          simp [Expr.isAtom] at hatomic

/-! ### Lines that set a place -/

/-- `SetsPlace line place keyword`: the line is taken for the option with the given keyword, and sets
the place that belongs to it in every plan that has none. -/
inductive SetsPlace (line : Line) (place : String) : String → Prop
  | origin : (∀ plan : Route, plan.origin = none →
      addOption plan line = .ok { plan with origin := some place }) → SetsPlace line place "from"
  | destination : (∀ plan : Route, plan.destination = none →
      addOption plan line = .ok { plan with destination := some place }) →
      SetsPlace line place "to"

/-- What a line is read as behind the keywords of places. -/
def placeOptions : List (String × (String → RouteOption)) :=
  [("from", .origin), ("to", .destination)]

theorem setsPlace_of_readOption {line : Line} {place keyword : String}
    {option : String → RouteOption} (hoption : (keyword, option) ∈ placeOptions)
    (h : readOption line = .ok (option place)) : SetsPlace line place keyword := by
  simp only [placeOptions, List.mem_cons, List.not_mem_nil, or_false, Prod.mk.injEq] at hoption
  rcases hoption with ⟨rfl, rfl⟩ | ⟨rfl, rfl⟩
  · refine .origin fun plan hplan => ?_
    simp only [addOption, h, Route.add, hplan, Option.isSome_none, Bool.false_eq_true, if_false]
  · refine .destination fun plan hplan => ?_
    simp only [addOption, h, Route.add, hplan, Option.isSome_none, Bool.false_eq_true, if_false]

theorem not_setsPlace_of_error {line : Line} {place keyword : String} {fault : Fault}
    (h : readOption line = .error fault) : ¬ SetsPlace line place keyword := by
  rintro (hsets | hsets)
  · have hadd := hsets { name := "" } rfl
    simp [addOption, h] at hadd
  · have hadd := hsets { name := "" } rfl
    simp [addOption, h] at hadd

/-! ### The line that is refused and the one that is suggested -/

theorem readExpr_eq_error {cs : List Char} {cause : Cause} (h : readExpr cs = .error cause) :
    ∃ text unquoted, cause = .invalidExpression text unquoted := by
  rw [readExpr] at h
  split at h
  · exact readAtom_eq_error h
  · split at h
    · rename_i hleft
      obtain rfl := Except.error.inj h
      exact readAtom_eq_error hleft
    · split at h
      · rename_i hright
        obtain rfl := Except.error.inj h
        exact readAtom_eq_error hright
      · simp at h

/-- A place that is refused for want of quotes is an expression that is no text. -/
theorem readPlace_placeNotQuoted {line : Line} {keyword keyword' text : String} {cs : List Char}
    {number : Int}
    (h : readPlace line keyword cs = .error (.at number (.placeNotQuoted keyword' text))) :
    keyword' = keyword ∧ cs = text.toList ∧ ∃ e, exprAt line cs = .ok e ∧ ∀ s, e ≠ .text s := by
  rw [readPlace] at h
  split at h
  · -- what is no expression is refused as such
    rename_i hread
    rw [exprAt] at hread
    split at hread
    · simp at hread
    · rename_i cause hcause
      obtain ⟨found, unquoted, rfl⟩ := readExpr_eq_error hcause
      obtain rfl := Except.error.inj h
      simp at hread
  · simp at h
  · rename_i e hne hread
    simp only [Except.error.injEq, Fault.at.injEq, Cause.placeNotQuoted.injEq] at h
    obtain ⟨-, rfl, rfl⟩ := h
    refine ⟨rfl, String.toList_ofList.symm, e, hread, ?_⟩
    rintro s rfl
    exact hne s rfl

/-- **What is known of a line that is refused with the suggestion**: it has the keyword of a place, and
behind it an expression that is no text. -/
theorem readOption_placeNotQuoted {line : Line} {keyword text : String} {number : Int}
    (hline : Text.IsPhrase line.text.toList)
    (h : readOption line = .error (.at number (.placeNotQuoted keyword text))) :
    (∃ option, (keyword, option) ∈ placeOptions) ∧ Text.IsPhrase text.toList ∧
      ∃ e, exprAt line text.toList = .ok e ∧ ∀ s, e ≠ .text s := by
  have hplace : ∀ (word : String) (option : String → RouteOption) (cs : List Char),
      (word, option) ∈ placeOptions → argumentOf? word line.text.toList = some cs →
      (readPlace line word cs).map option = .error (.at number (.placeNotQuoted keyword text)) →
      (∃ option, (keyword, option) ∈ placeOptions) ∧ Text.IsPhrase text.toList ∧
        ∃ e, exprAt line text.toList = .ok e ∧ ∀ s, e ≠ .text s := by
    intro word option cs hoption hargument hread
    cases hread' : readPlace line word cs with
    | ok place => simp [hread', Except.map] at hread
    | error fault =>
        simp only [hread', Except.map, Except.error.injEq] at hread
        subst hread
        obtain ⟨rfl, rfl, hexpr⟩ := readPlace_placeNotQuoted hread'
        exact ⟨⟨option, hoption⟩, isPhrase_of_argumentOf? hline hargument, hexpr⟩
  -- of all that a line may be taken for, only places are refused for this cause
  simp only [readOption] at h
  split at h
  · rw [readAvoidance] at h
    split at h <;> simp at h
  split at h
  · exact hplace "from" .origin _ (by simp [placeOptions]) ‹_› h
  split at h
  · exact hplace "to" .destination _ (by simp [placeOptions]) ‹_› h
  split at h
  · rw [readPreference] at h
    split at h <;> simp at h
  split at h
  · rw [readStops] at h
    split at h <;> simp at h
  split at h
  · simp at h
  split at h
  · simp at h
  · rw [unknownOption] at h
    split at h <;> simp at h

/-- The line that is suggested is read as the option with its keyword. -/
theorem readOption_suggested {again : Line} {keyword place : String}
    {option : String → RouteOption} (hoption : (keyword, option) ∈ placeOptions)
    (hbreak : '\n' ∉ place.toList) (htext : again.text = keyword ++ " \"" ++ place ++ "\"") :
    readOption again =
      (readPlace again keyword ('"' :: (place.toList ++ ['"']))).map option := by
  have hquoted : Render.Quoted place ('"' :: (place.toList ++ ['"'])) := ⟨'"', by decide, rfl⟩
  have hphrase := hquoted.isPhrase hbreak
  have hlist : again.text.toList = keyword.toList ++ ' ' :: '"' :: (place.toList ++ ['"']) := by
    rw [htext]
    simp
  simp only [placeOptions, List.mem_cons, List.not_mem_nil, or_false, Prod.mk.injEq] at hoption
  rcases hoption with ⟨rfl, rfl⟩ | ⟨rfl, rfl⟩
  · have hspells : Text.Spells "from" "from".toList := rfl
    exact Render.readOption_origin hspells hphrase hlist
  · have hspells : Text.Spells "to" "to".toList := rfl
    exact Render.readOption_destination hspells hphrase hlist

/-- A place that is split is refused, as a comparison or as no expression. -/
theorem readPlace_of_split? {cs : List Char} (h : split? cs ≠ none) (line : Line)
    (keyword : String) : ∃ cause, readPlace line keyword cs = .error (.at line.number cause) := by
  rw [readPlace]
  rcases exprAt_of_split? h line with ⟨op, left, right, hread⟩ | ⟨text, unquoted, hread⟩
  · exact ⟨_, by rw [hread]⟩
  · exact ⟨_, by rw [hread]⟩

/-- **The suggestion to quote a place works exactly if the place is no comparison.**  Let a line be
refused since its place is not given as a text in quotes.  A line that reads as the suggestion says
sets the place to the text that was found, unless this text is a comparison; and then it is refused,
whatever the plan has so far. -/
theorem quoting_suggestion_iff (line : Line) (hline : Text.IsPhrase line.text.toList)
    (plan : Route) (number : Int) (keyword text : String)
    (h : addOption plan line = .error (.at number (.placeNotQuoted keyword text))) :
    ∃ place suggestion,
      (Cause.placeNotQuoted keyword text).found = some place ∧
      (Cause.placeNotQuoted keyword text).suggestion = some suggestion ∧
      ∀ again : Line, again.text = suggestion →
        (SetsPlace again place keyword ↔
          ∀ op left right, exprAt line place.toList ≠ .ok (.compare op left right)) ∧
        (¬ SetsPlace again place keyword →
          ∀ plan : Route, ∃ cause, addOption plan again = .error (.at again.number cause)) := by
  have hread : readOption line = .error (.at number (.placeNotQuoted keyword text)) := by
    rw [addOption] at h
    split at h
    · rename_i hread
      rw [hread, Except.error.inj h]
    · split at h <;> simp at h
  obtain ⟨⟨option, hoption⟩, hphrase, e, hexpr, he⟩ := readOption_placeNotQuoted hline hread
  refine ⟨text, _, rfl, rfl, ?_⟩
  intro again htext
  have hagain := readOption_suggested hoption hphrase.no_break htext
  have hcompare : (∀ op left right, exprAt line text.toList ≠ .ok (.compare op left right)) ↔
      Text.IsPlain text := by
    rw [isPlain_iff_of_exprAt hphrase hexpr he]
    simp only [hexpr, ne_eq, Except.ok.injEq]
  rw [hcompare]
  by_cases hplain : Text.IsPlain text
  · have hset : SetsPlace again text keyword := by
      apply setsPlace_of_readOption hoption
      rw [hagain, Render.readPlace_quoted ⟨'"', by decide, rfl⟩ hplain]
      rfl
    exact ⟨iff_of_true hset hplain, fun hnot => absurd hset hnot⟩
  · have hmark : '"' ∈ ['"', '\x27'] := by decide
    have hsplit := mt (split?_quoted_eq_none_iff hphrase.no_break hmark).1 hplain
    obtain ⟨cause, hcause⟩ := readPlace_of_split? hsplit again keyword
    rw [hcause] at hagain
    refine ⟨iff_of_false (not_setsPlace_of_error hagain) hplain, fun _ plan => ⟨cause, ?_⟩⟩
    rw [addOption, hagain]
    rfl

/-- A bare name is set as a place by the line that is suggested for it; the line that is suggested for
a comparison is refused. -/
theorem quoting_suggestion_iff_warehouse :
    SetsPlace ⟨2, 2, "from \"warehouse\"", "  from \"warehouse\""⟩ "warehouse" "from" ∧
    ∃ cause, addOption { name := "errand" } ⟨2, 2, "from \"a > b\"", "  from \"a > b\""⟩ =
      .error (.at 2 cause) := by
  constructor
  · have hread : addOption { name := "errand" } ⟨2, 2, "from warehouse", "  from warehouse"⟩ =
        .error (.at 2 (.placeNotQuoted "from" "warehouse")) := by decide
    obtain ⟨place, suggestion, hplace, hsuggestion, hagain⟩ :=
      quoting_suggestion_iff ⟨2, 2, "from warehouse", "  from warehouse"⟩
        ⟨by decide, by decide, by decide, by decide⟩ _ _ _ _ hread
    obtain rfl := Option.some.inj hplace
    obtain rfl := Option.some.inj hsuggestion
    refine (hagain _ rfl).1.2 ?_
    intro op left right hcompare
    have hname : exprAt ⟨2, 2, "from warehouse", "  from warehouse"⟩ "warehouse".toList =
        .ok (.identifier "warehouse") := by decide
    rw [hname] at hcompare
    simp at hcompare
  · have hread : addOption { name := "errand" } ⟨2, 2, "from a > b", "  from a > b"⟩ =
        .error (.at 2 (.placeNotQuoted "from" "a > b")) := by decide
    obtain ⟨place, suggestion, hplace, hsuggestion, hagain⟩ :=
      quoting_suggestion_iff ⟨2, 2, "from a > b", "  from a > b"⟩
        ⟨by decide, by decide, by decide, by decide⟩ _ _ _ _ hread
    obtain rfl := Option.some.inj hplace
    obtain rfl := Option.some.inj hsuggestion
    have hcompare : exprAt ⟨2, 2, "from a > b", "  from a > b"⟩ "a > b".toList =
        .ok (.compare .greater (.identifier "a") (.identifier "b")) := by decide
    obtain ⟨hiff, hrefused⟩ := hagain ⟨2, 2, "from \"a > b\"", "  from \"a > b\""⟩ rfl
    exact hrefused (fun hset => hiff.1 hset _ _ _ hcompare) _

end Parse

end Waymark
