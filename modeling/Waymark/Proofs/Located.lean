/-
**Which sources are refused without a line.**

A source that is not a program should be refused with a diagnostic that names a line.  The readers of
lines keep to that with three exceptions, all in the values of route options: the words of an `avoid`
and a `prefer` option are recognised by case folding and then looked up by their lower case, which
differ outside ASCII, and the digits of `max stops` are recognised in any number but read only up to a
limit.  The fault that arises there belongs to no line.

This module says for which sources that happens.  It does exactly if the first line that the reader
cannot pass is a route option of that kind, and the reader gets there exactly if the lines before it,
with an option in its place that can be read, are a program.

Main definitions:

* `Parse.Fault.isLocated` — whether a fault belongs to a line;
* `Parse.LacksValue` — a line that looks like a route option but has no value;
* `Source.Strands` — a source that is read up to such a line.

Main results:

* `Parse.readOption_unlocated_iff` — the lines that are refused without a line number;
* `Grammar.Block.readBlock_fails` — where an option belongs, its fault is the fault of the source;
* `Program.parse_located_iff` — **a source is read, or refused with a line, exactly if it does not
  strand**.
-/
import Waymark.Proofs.Grammar
import Waymark.Proofs.SourceLine
import Waymark.Proofs.WrittenLine

set_option relaxedAutoImplicit false
set_option autoImplicit false

namespace Waymark

/-! ### Words outside ASCII -/

namespace Text

/-- Only the Kelvin sign has an ASCII letter alone as its lower case. -/
theorem exists_mem_lowerChar {c : Char} (h : 128 ≤ c.toNat) (hk : c ≠ kelvin) :
    ∃ d ∈ lowerChar c, 128 ≤ d.toNat := by
  rw [lowerChar]
  split
  · exact ⟨dotAbove, by simp, by decide⟩
  · refine ⟨c.toLower, by simp, ?_⟩
    rw [toNat_toLower, if_neg (by omega)]
    exact h

/-- The Kelvin sign counts as no other letter in ASCII than `k`. -/
theorem eq_of_isLetter_kelvin {letter : Char} (h : isLetter letter kelvin = true)
    (hlow : letter.toNat < 128) : letter = 'k' := by
  rw [isLetter, Bool.or_eq_true] at h
  rcases h with h | h
  · rw [← beq_iff_eq.1 h] at hlow
    exact absurd hlow (by decide)
  · unfold partners at h
    split at h
    · exact absurd h (by decide)
    · rfl
    · exact absurd h (by decide)
    · simp at h

/-- A text that is recognised as a word has that word as its lower case exactly if it is in ASCII. -/
theorem lower_mem_iff {words : List String} (hvisible : ∀ word ∈ words, isVisible word = true)
    (hk : ∀ word ∈ words, 'k' ∉ word.toList) {word : String} (hword : word ∈ words)
    {cs : List Char} (h : dropWord? word.toList cs = some []) :
    String.ofList (lower cs) ∈ words ↔ ∀ c ∈ cs, c.toNat < 128 := by
  constructor
  · -- outside ASCII only the Kelvin sign has a lower case in ASCII, and it counts as `k` only
    intro hmem c hc
    by_contra hhigh
    have hkelvin : c ≠ kelvin := by
      rintro rfl
      obtain ⟨letter, hletter, hcount⟩ := exists_isLetter_of_dropWord? h hc
      have hlow : letter.toNat < 128 := by
        have := List.all_eq_true.1 (hvisible word hword) letter hletter
        simp only [Bool.and_eq_true, decide_eq_true_eq] at this
        exact this.2
      rw [eq_of_isLetter_kelvin hcount hlow] at hletter
      exact hk word hword hletter
    obtain ⟨d, hd, hcode⟩ := exists_mem_lowerChar (by omega) hkelvin
    have hall := List.all_eq_true.1 (hvisible _ hmem) d
      (by rw [String.toList_ofList]; exact List.mem_flatMap.2 ⟨c, hc, hd⟩)
    simp only [Bool.and_eq_true, decide_eq_true_eq] at hall
    omega
  · intro hlow
    have hspells := spells_of_dropWord? hlow h
    rw [Render.lower_spells hspells (hvisible word hword)]
    exact hword

end Text

/-! ### Options without a value -/

namespace Parse

open Text (isVisible)

/-- Whether a fault belongs to a line. -/
def Fault.isLocated (fault : Fault) : Bool :=
  match fault with
  | .at _ _ => true
  | _ => false

theorem exists_at_of_isLocated {fault : Fault} (h : fault.isLocated = true) :
    ∃ line cause, fault = .at line cause := by
  rcases fault with ⟨line, cause⟩ | _ | _ | _
  · exact ⟨line, cause, rfl⟩
  all_goals simp [Fault.isLocated] at h

/-- A line that has the form of a route option but no value: its word is not in ASCII, or its number
of stops has too many digits. -/
inductive LacksValue (line : Line) : Prop
  | avoid {word : List Char} :
      choice? "avoid" (Avoidance.all.map Avoidance.word) line.text.toList = some word →
      (∃ c ∈ word, 128 ≤ c.toNat) → LacksValue line
  | prefer {word : List Char} :
      choice? "prefer" (Preference.all.map Preference.word) line.text.toList = some word →
      (∃ c ∈ word, 128 ≤ c.toNat) → LacksValue line
  | stops {ds : List Char} :
      stops? line.text.toList = some ds → Numeral.maxDigits < ds.length → LacksValue line

/-- The word that is found behind a keyword is recognised as one of the given ones. -/
theorem exists_mem_of_choice? {keyword : String} {words : List String} {cs word : List Char}
    (h : choice? keyword words cs = some word) :
    ∃ w ∈ words, Text.dropWord? w.toList word = some [] := by
  rw [choice?, Text.afterWord] at h
  cases hdrop : Text.dropWord? keyword.toList cs with
  | none => simp [hdrop] at h
  | some rest =>
      simp only [hdrop] at h
      obtain ⟨blanks, behind, -, -, -, hfound⟩ := Text.afterBlanks_eq_some h
      rw [oneOf?] at hfound
      obtain ⟨w, hw, hmatch⟩ := List.exists_of_findSome?_eq_some hfound
      cases hw' : Text.dropWord? w.toList behind with
      | none => simp [hw'] at hmatch
      | some tail =>
          simp only [hw'] at hmatch
          split at hmatch
          · obtain ⟨written, rfl, hwritten⟩ := Text.dropWord?_eq_some hw'
            have hlength : written.length = w.length := by
              rw [Text.length_eq_of_dropWord? hwritten, String.length_toList]
            simp only [Option.some.injEq] at hmatch
            rw [← hlength, List.take_left] at hmatch
            exact ⟨w, hw, by rw [← hmatch]; exact hwritten⟩
          · simp at hmatch

/-- The word that is found behind a keyword has one of the given words as its lower case exactly if
it is in ASCII. -/
theorem lower_mem_iff_of_choice? {keyword : String} {words : List String} {cs word : List Char}
    (hwords : ∀ w ∈ words, isVisible w = true ∧ 'k' ∉ w.toList)
    (h : choice? keyword words cs = some word) :
    String.ofList (Text.lower word) ∈ words ↔ ¬ ∃ c ∈ word, 128 ≤ c.toNat := by
  obtain ⟨w, hw, hdrop⟩ := exists_mem_of_choice? h
  rw [Text.lower_mem_iff (fun w hw => (hwords w hw).1) (fun w hw => (hwords w hw).2) hw hdrop]
  simp

/-- An avoidance has no value exactly if its word is not in ASCII. -/
theorem readAvoidance_unlocated_iff {cs word : List Char}
    (h : choice? "avoid" (Avoidance.all.map Avoidance.word) cs = some word) :
    (∃ fault, readAvoidance word = .error fault ∧ fault.isLocated = false) ↔
      ∃ c ∈ word, 128 ≤ c.toNat := by
  have hmem := lower_mem_iff_of_choice? (by decide) h
  have hnone : Avoidance.ofWord? (String.ofList (Text.lower word)) = none ↔
      ∃ c ∈ word, 128 ≤ c.toNat := by
    rw [← not_iff_not, ← hmem, Avoidance.ofWord?]
    simp
  rw [← hnone, readAvoidance]
  cases hfound : Avoidance.ofWord? (String.ofList (Text.lower word)) with
  | none => simp [Fault.isLocated]
  | some a => simp

/-- A preference has no value exactly if its word is not in ASCII. -/
theorem readPreference_unlocated_iff {cs word : List Char}
    (h : choice? "prefer" (Preference.all.map Preference.word) cs = some word) :
    (∃ fault, readPreference word = .error fault ∧ fault.isLocated = false) ↔
      ∃ c ∈ word, 128 ≤ c.toNat := by
  have hmem := lower_mem_iff_of_choice? (by decide) h
  have hnone : Preference.ofWord? (String.ofList (Text.lower word)) = none ↔
      ∃ c ∈ word, 128 ≤ c.toNat := by
    rw [← not_iff_not, ← hmem, Preference.ofWord?]
    simp
  rw [← hnone, readPreference]
  cases hfound : Preference.ofWord? (String.ofList (Text.lower word)) with
  | none => simp [Fault.isLocated]
  | some p => simp

/-! ### Faults of lines -/

/-- A line that has a word, as every line of a source has. -/
def HasWord (line : Line) : Prop := (Text.firstWord? line.text.toList).isSome = true

/-- A keyword is suggested, or none, for every line that has a word. -/
theorem exists_suggest_eq (table : Keyword.Table) {line : Line} (h : HasWord line) :
    ∃ suggestion, Keyword.suggest table line.text = .ok suggestion := by
  obtain ⟨word, hword⟩ := Option.isSome_iff_exists.1 h
  rw [Keyword.suggest]
  split
  · exact ⟨none, rfl⟩
  · simp only [hword]
    split
    · exact ⟨none, rfl⟩
    · split
      · exact ⟨none, rfl⟩
      · exact ⟨_, rfl⟩

theorem unknownStatement_located {line : Line} (h : HasWord line) :
    (unknownStatement line).isLocated = true := by
  obtain ⟨suggestion, hsuggest⟩ := exists_suggest_eq .statement h
  rw [unknownStatement, hsuggest]
  rfl

theorem unknownOption_located {line : Line} (h : HasWord line) :
    (unknownOption line).isLocated = true := by
  obtain ⟨suggestion, hsuggest⟩ := exists_suggest_eq .option h
  rw [unknownOption, hsuggest]
  rfl

/-- A result whose fault, if it is one, belongs to a line. -/
def Located {α : Type} (result : Except Fault α) : Prop :=
  ∀ fault, result = .error fault → fault.isLocated = true

theorem located_ok {α : Type} (a : α) : Located (.ok a : Except Fault α) := by
  intro fault h
  simp at h

theorem located_error {α : Type} {fault : Fault} (h : fault.isLocated = true) :
    Located (.error fault : Except Fault α) := by
  rintro _ ⟨rfl⟩
  exact h

theorem Located.map {α β : Type} {result : Except Fault α} (h : Located result) (f : α → β) :
    Located (result.map f) := by
  cases result with
  | ok a => exact located_ok _
  | error fault => exact located_error (h fault rfl)

theorem Located.absurd {α : Type} {result : Except Fault α} (h : Located result) {fault : Fault}
    (hresult : result = .error fault) (hfault : fault.isLocated = false) : False := by
  rw [h fault hresult] at hfault
  simp at hfault

theorem exprAt_located (line : Line) (cs : List Char) : Located (exprAt line cs) := by
  rw [exprAt]
  split
  · exact located_ok _
  · exact located_error rfl

theorem readPlace_located (line : Line) (keyword : String) (cs : List Char) :
    Located (readPlace line keyword cs) := by
  rw [readPlace]
  split
  · rename_i fault hexpr
    exact located_error (exprAt_located line cs fault hexpr)
  · exact located_ok _
  · exact located_error rfl

theorem readWhen_located (line : Line) : Located (readWhen line) := by
  rw [readWhen]
  split
  · exact located_error rfl
  · exact located_ok _

theorem readRoute_located (line : Line) : Located (readRoute line) := by
  rw [readRoute]
  split
  · exact located_error rfl
  · exact located_ok _

/-- A header with an expression has the faults of the expression. -/
theorem match_exprAt_located (line : Line) (cs : List Char) (header : Expr → Header) :
    Located
      (match exprAt line cs with
      | .error f => .error f
      | .ok e => .ok (header e)) := by
  cases hexpr : exprAt line cs with
  | error fault => exact located_error (exprAt_located line cs fault hexpr)
  | ok e => exact located_ok _

theorem readIf_located (line : Line) : Located (readIf line) := by
  rw [readIf]
  split
  · exact located_error rfl
  · exact match_exprAt_located line _ .branch

theorem readShow_located (line : Line) : Located (readShow line) := by
  rw [readShow]
  split
  · exact located_error rfl
  · exact match_exprAt_located line _ .display

theorem readSet_located (line : Line) : Located (readSet line) := by
  rw [readSet]
  split
  · exact located_error rfl
  · exact match_exprAt_located line _ (.assign _)

/-- **The faults of headers belong to their line.** -/
theorem readHeader_located {line : Line} (h : HasWord line) : Located (readHeader line) := by
  simp only [readHeader]
  repeat' split
  · exact readWhen_located line
  · exact readIf_located line
  · exact readShow_located line
  · exact readSet_located line
  · exact readRoute_located line
  · exact located_error (unknownStatement_located h)

/-- A text that starts with a word starts with its first letter, if that has no partners. -/
theorem exists_initial_of_afterWord {α : Type} {word : String} {letter : Char}
    {next : List Char → Option α} {cs : List Char} {found : α}
    (hword : word.toList.head? = some letter) (hpartners : Text.partners letter = [])
    (h : Text.afterWord word next cs = some found) :
    ∃ c rest, cs = c :: rest ∧ c.toLower = letter := by
  obtain ⟨letters, hletters⟩ := List.head?_eq_some_iff.1 hword
  rw [Text.afterWord, hletters] at h
  cases cs with
  | nil => simp [Text.dropWord?] at h
  | cons c cs =>
      refine ⟨c, cs, rfl, ?_⟩
      by_contra hc
      simp [Text.dropWord?, Text.isLetter, hpartners, hc] at h

/-- Whether two words start with different letters, none of which has partners. -/
def startApart (word other : String) : Bool :=
  match word.toList, other.toList with
  | letter :: _, letter' :: _ =>
    letter != letter' && (Text.partners letter).isEmpty && (Text.partners letter').isEmpty
  | _, _ => false

/-- Words that start apart are not both recognised. -/
theorem afterWord_eq_none_of_startApart {α β : Type} {word other : String}
    {next : List Char → Option α} {next' : List Char → Option β} {cs : List Char} {found : α}
    (hapart : startApart word other = true) (h : Text.afterWord word next cs = some found) :
    Text.afterWord other next' cs = none := by
  rw [startApart] at hapart
  split at hapart
  · rename_i letter letters letter' letters' hword hother
    simp only [Bool.and_eq_true, bne_iff_ne, ne_eq, List.isEmpty_iff] at hapart
    obtain ⟨⟨hne, hpartners⟩, hpartners'⟩ := hapart
    obtain ⟨c, rest, rfl, hc⟩ := exists_initial_of_afterWord (by rw [hword]; rfl) hpartners h
    rw [Text.afterWord, hother]
    simp [Text.dropWord?, Text.isLetter, hpartners', hc, hne]
  · simp at hapart

/-- A number of stops has no value exactly if it has too many digits. -/
theorem readStops_unlocated_iff {ds : List Char} :
    (∃ fault, readStops ds = .error fault ∧ fault.isLocated = false) ↔
      Numeral.maxDigits < ds.length := by
  rw [readStops]
  split
  · rename_i hlong
    simp [hlong, Fault.isLocated]
  · rename_i hshort
    simp [hshort]

/-- **An option is refused without a line exactly if it has no value.** -/
theorem readOption_unlocated_iff {line : Line} (hword : HasWord line) :
    (∃ fault, readOption line = .error fault ∧ fault.isLocated = false) ↔ LacksValue line := by
  constructor
  · rintro ⟨fault, h, hfault⟩
    simp only [readOption] at h
    split at h
    · rename_i word hchoice
      exact .avoid hchoice ((readAvoidance_unlocated_iff hchoice).1 ⟨fault, h, hfault⟩)
    split at h
    · exact (((readPlace_located line "from" _).map RouteOption.origin).absurd h hfault).elim
    split at h
    · exact (((readPlace_located line "to" _).map RouteOption.destination).absurd h hfault).elim
    split at h
    · rename_i word hchoice
      exact .prefer hchoice ((readPreference_unlocated_iff hchoice).1 ⟨fault, h, hfault⟩)
    split at h
    · rename_i ds hstops
      exact .stops hstops (readStops_unlocated_iff.1 ⟨fault, h, hfault⟩)
    split at h
    · exact ((located_ok _).absurd h hfault).elim
    split at h
    · exact ((located_ok _).absurd h hfault).elim
    · exact ((located_error (unknownOption_located hword)).absurd h hfault).elim
  · intro h
    -- the recognisers that come first fail at the first letter
    cases h with
    | avoid hchoice hfar =>
        obtain ⟨fault, hread, hfault⟩ := (readAvoidance_unlocated_iff hchoice).2 hfar
        refine ⟨fault, ?_, hfault⟩
        simp only [readOption, hchoice, hread]
    | prefer hchoice hfar =>
        obtain ⟨fault, hread, hfault⟩ := (readPreference_unlocated_iff hchoice).2 hfar
        have havoid : choice? "avoid" (Avoidance.all.map Avoidance.word) line.text.toList = none :=
          afterWord_eq_none_of_startApart (by decide) hchoice
        have hfrom : argumentOf? "from" line.text.toList = none :=
          afterWord_eq_none_of_startApart (by decide) hchoice
        have hto : argumentOf? "to" line.text.toList = none :=
          afterWord_eq_none_of_startApart (by decide) hchoice
        refine ⟨fault, ?_, hfault⟩
        simp only [readOption, havoid, hfrom, hto, hchoice, hread]
    | stops hstops hlong =>
        obtain ⟨fault, hread, hfault⟩ := readStops_unlocated_iff.2 hlong
        have havoid : choice? "avoid" (Avoidance.all.map Avoidance.word) line.text.toList = none :=
          afterWord_eq_none_of_startApart (by decide) hstops
        have hfrom : argumentOf? "from" line.text.toList = none :=
          afterWord_eq_none_of_startApart (by decide) hstops
        have hto : argumentOf? "to" line.text.toList = none :=
          afterWord_eq_none_of_startApart (by decide) hstops
        have hprefer :
            choice? "prefer" (Preference.all.map Preference.word) line.text.toList = none :=
          afterWord_eq_none_of_startApart (by decide) hstops
        refine ⟨fault, ?_, hfault⟩
        simp only [readOption, havoid, hfrom, hto, hprefer, hstops, hread]

end Parse

/-! ### Where the reader breaks off -/

namespace Grammar

open Parse

/-- Options break off at a line that takes the place of the last of them and is refused. -/
theorem readOptions_eq_error {indent : Int} {lines pre : List Line} {good line : Line}
    {options : List RouteOption} {plan plan' : Route} {fault : Fault}
    (h : List.Forall₂ (OptionAt indent) lines options) (hlines : lines = pre ++ [good])
    (hadd : plan.addAll options = .ok plan') (hindent : line.indent = good.indent)
    (hline : readOption line = .error fault) (post : List Line) :
    readOptions indent plan (pre ++ line :: post) = .error fault := by
  induction h generalizing pre plan with
  | nil => simp at hlines
  | @cons first option lines options hfirst _ ih =>
      obtain ⟨hindent', hoption⟩ := hfirst
      cases pre with
      | nil =>
          rw [List.nil_append, List.cons.injEq] at hlines
          rw [← hlines.1, hindent'] at hindent
          simp [readOptions, hindent, addOption, hline]
      | cons head pre =>
          rw [List.cons_append, List.cons.injEq] at hlines
          obtain ⟨rfl, hlines⟩ := hlines
          simp only [Route.addAll] at hadd
          cases hone : plan.add option with
          | error keyword => simp [hone] at hadd
          | ok next =>
              simp only [hone] at hadd
              simp [readOptions, hindent', addOption, hoption, hone, ih hlines hadd]

/-- A route block that is refused without a line breaks off at an option behind options that can be
added to the plan. -/
theorem exists_of_readOptions_error {indent : Int} {lines : List Line} {plan : Route}
    {fault : Fault} (h : readOptions indent plan lines = .error fault)
    (hfault : fault.isLocated = false) :
    ∃ inner line post options plan', lines = inner ++ line :: post ∧
      List.Forall₂ (OptionAt indent) inner options ∧ plan.addAll options = .ok plan' ∧
      line.indent = indent ∧ readOption line = .error fault := by
  induction lines generalizing plan with
  | nil => simp [readOptions] at h
  | cons line lines ih =>
      rw [readOptions] at h
      split at h
      · simp at h
      · split at h
        · exact ((located_error rfl).absurd h hfault).elim
        · rename_i hless hmore
          have hindent : line.indent = indent := by omega
          rw [addOption] at h
          cases hoption : readOption line with
          | error f =>
              simp only [hoption, Except.error.injEq] at h
              exact ⟨[], line, lines, [], plan, rfl, .nil, rfl, hindent, by rw [hoption, h]⟩
          | ok option =>
              cases hone : plan.add option with
              | error keyword =>
                  simp only [hoption, hone] at h
                  exact ((located_error rfl).absurd h hfault).elim
              | ok next =>
                  simp only [hoption, hone] at h
                  obtain ⟨inner, last, post, options, plan', rfl, hall, hadd, hlast⟩ := ih h
                  refine ⟨line :: inner, last, post, option :: options, plan', rfl,
                    .cons ⟨hindent, hoption⟩ hall, ?_, hlast⟩
                  rw [Route.addAll, hone]
                  exact hadd

/-- The last line of two lists of lines. -/
theorem append_eq_concat {xs ys pre : List Line} {last : Line} (h : xs ++ ys = pre ++ [last]) :
    (ys = [] ∧ xs = pre ++ [last]) ∨ ∃ ys', ys = ys' ++ [last] ∧ pre = xs ++ ys' := by
  rcases List.eq_nil_or_concat' ys with rfl | ⟨ys', d, rfl⟩
  · exact .inl ⟨rfl, by rw [← h, List.append_nil]⟩
  · rw [← List.append_assoc] at h
    obtain ⟨hpre, hlast⟩ := List.append_inj' h rfl
    obtain rfl : d = last := by simpa using hlast
    exact .inr ⟨ys', rfl, hpre.symm⟩

/-- A result that is refused with the given fault, whatever route plans were complete. -/
def Fails {α : Type} (fault : Fault) (result : Except Failure α) : Prop :=
  ∃ routes, result = .error ⟨fault, routes⟩

/-- A block is refused where its first statement is. -/
theorem Fails.of_statement {base : Int} {head : Line} {tail : List Line} {fault : Fault}
    (hindent : head.indent = base) (h : Fails fault (readStatement base head tail)) :
    Fails fault (readBlock base (head :: tail)) := by
  obtain ⟨routes, h⟩ := h
  refine ⟨routes, ?_⟩
  rw [readBlock_cons, if_neg (by omega), if_neg (by omega), h]

/-- A block is refused where the rest of it behind its first statement is. -/
theorem Fails.of_rest {base : Int} {head : Line} {tail rest : List Line} {stmt : Stmt}
    {fault : Fault} (hindent : head.indent = base)
    (hstmt : readStatement base head tail = .ok (stmt, rest))
    (h : Fails fault (readBlock base rest)) : Fails fault (readBlock base (head :: tail)) := by
  obtain ⟨routes, h⟩ := h
  refine ⟨stmt.routes ++ routes, ?_⟩
  rw [readBlock_cons, if_neg (by omega), if_neg (by omega), hstmt]
  simp only [h, Failure.after]

section Stopgap

variable {good line : Line} {post : List Line} {fault : Fault}
  (hgood : ∀ header, readHeader good ≠ .ok header)

include hgood

/-- A block whose last line is no header starts with another line, which is one. -/
theorem Block.exists_header {base : Int} {pre : List Line} {stmts : List Stmt}
    (h : Block base (pre ++ [good]) stmts) :
    ∃ head tail header, pre = head :: tail ∧ HeaderAt base head header := by
  cases pre with
  | nil =>
      obtain ⟨header, -, hheader⟩ := h.head_header
      exact absurd hheader (hgood header)
  | cons head tail =>
      obtain ⟨header, hheader⟩ := h.head_header
      exact ⟨head, tail, header, rfl, hheader⟩

/-- Such a block ends a block one step deeper, whatever it goes on with. -/
theorem Block.ends_pre {base : Int} {pre : List Line} {stmts : List Stmt}
    (h : Block base (pre ++ [good]) stmts) (more : List Line) :
    Ends (base + indentStep) (pre ++ more) ∧
      ∀ line ∈ (pre ++ more).head?, ¬ ElseAt base line := by
  obtain ⟨head, tail, header, rfl, hindent, hheader⟩ := h.exists_header hgood
  constructor
  · rintro line ⟨rfl⟩
    rw [hindent, indentStep]
    omega
  · rintro line ⟨rfl⟩ ⟨-, helse⟩
    exact readHeader_ne_ok_of_isElse helse header hheader

/-- A header is not the last of lines that end in none. -/
theorem HeaderAt.eq_cons {base : Int} {head : Line} {header : Header} {tail pre : List Line}
    (hd : HeaderAt base head header) (h : head :: tail = pre ++ [good]) :
    ∃ pre', pre = head :: pre' ∧ tail = pre' ++ [good] := by
  cases pre with
  | nil =>
      rw [List.nil_append, List.cons.injEq] at h
      exact absurd (h.1 ▸ hd.2) (hgood header)
  | cons first pre' =>
      rw [List.cons_append, List.cons.injEq] at h
      exact ⟨pre', by rw [h.1], h.2⟩

/-- The block of a header is refused where a block one step deeper is, if that block starts with a
header. -/
theorem Fails.of_child {base : Int} {pre : List Line} {body : List Stmt}
    (hbody : Block (base + indentStep) (pre ++ [good]) body) (header : Line) (keyword : String)
    (h : Fails fault (readBlock (base + indentStep) (pre ++ line :: post))) :
    Fails fault (readChild header keyword base (pre ++ line :: post)) := by
  obtain ⟨head, tail, -, rfl, hindent, -⟩ := hbody.exists_header hgood
  have hopen : blockFault? header keyword base (head :: tail ++ line :: post) = none :=
    blockFault?_eq_none_iff.2 ⟨head, _, rfl, hindent⟩
  rw [readChild_eq, hopen]
  exact h

/-- **Where an option belongs, its fault is the fault of the block.** -/
theorem Block.readBlock_fails {base : Int} {lines pre : List Line} {stmts : List Stmt}
    (h : Block base lines stmts) (hlines : lines = pre ++ [good])
    (hindent : line.indent = good.indent) (hline : readOption line = .error fault) :
    Fails fault (readBlock base (pre ++ line :: post)) := by
  -- the first statement is read whole, or it is the one that the option belongs to
  induction h generalizing pre with
  | nil base => simp at hlines
  | @display base head value rest stmts hd _ ih =>
      obtain ⟨pre, rfl, rfl⟩ := hd.eq_cons hgood hlines
      have hstmt : readStatement base head (pre ++ line :: post) =
          .ok (.display value, pre ++ line :: post) := by
        simp only [readStatement_eq, hd.2]
      exact .of_rest hd.1 hstmt (ih rfl)
  | @assign base head name value rest stmts hd _ ih =>
      obtain ⟨pre, rfl, rfl⟩ := hd.eq_cons hgood hlines
      have hstmt : readStatement base head (pre ++ line :: post) =
          .ok (.assign name value, pre ++ line :: post) := by
        simp only [readStatement_eq, hd.2]
      exact .of_rest hd.1 hstmt (ih rfl)
  | @when base head event inner rest body stmts hd hbody hne hrest ihbody ih =>
      obtain ⟨pre, rfl, htail⟩ := hd.eq_cons hgood hlines
      rcases append_eq_concat htail with ⟨rfl, rfl⟩ | ⟨rest, rfl, rfl⟩
      · obtain ⟨routes, hchild⟩ := Fails.of_child hgood hbody head "when" (ihbody rfl)
        rw [List.cons_append]
        refine .of_statement hd.1 ⟨routes, ?_⟩
        simp only [readStatement_eq, hd.2, hchild]
      · obtain ⟨hends, -⟩ := hrest.ends_pre hgood (line :: post)
        rw [List.cons_append, List.append_assoc]
        exact .of_rest hd.1 (readStatement_when hd (hbody.readBlock_append hends) hne) (ih rfl)
  | @branch base head test inner rest body stmts hd hbody hne hrest ihbody ih =>
      obtain ⟨pre, rfl, htail⟩ := hd.eq_cons hgood hlines
      rcases append_eq_concat htail with ⟨rfl, rfl⟩ | ⟨rest, rfl, rfl⟩
      · obtain ⟨routes, hchild⟩ := Fails.of_child hgood hbody head "if" (ihbody rfl)
        rw [List.cons_append]
        refine .of_statement hd.1 ⟨routes, ?_⟩
        simp only [readStatement_eq, hd.2, hchild]
      · obtain ⟨hends, hnot⟩ := hrest.ends_pre hgood (line :: post)
        rw [List.cons_append, List.append_assoc]
        exact .of_rest hd.1 (readStatement_branch hd (hbody.readBlock_append hends) hne hnot)
          (ih rfl)
  | @branchElse base head opener test inner other rest body elseBody stmts hd hbody hne helse hother
      hne' hrest ihbody ihother ih =>
      obtain ⟨pre, rfl, htail⟩ := hd.eq_cons hgood hlines
      rcases append_eq_concat htail with ⟨hnil, -⟩ | ⟨tail, hother', rfl⟩
      · simp at hnil
      cases tail with
      | nil =>
          simp only [List.nil_append, List.cons.injEq, List.append_eq_nil_iff] at hother'
          obtain ⟨-, rfl, -⟩ := hother'
          exact absurd hother.eq_nil hne'
      | cons first tail =>
          rw [List.cons_append, List.cons.injEq] at hother'
          obtain ⟨rfl, hother'⟩ := hother'
          rcases append_eq_concat hother' with ⟨rfl, rfl⟩ | ⟨rest, rfl, rfl⟩
          · obtain ⟨routes, hchild'⟩ := Fails.of_child hgood hother opener "else" (ihother rfl)
            have hchild := readChild_of_readBlock head "if"
              (hbody.readBlock_append (helse.ends (tail ++ line :: post))) hne
            rw [List.cons_append, List.append_assoc, List.cons_append]
            refine .of_statement hd.1 ⟨Stmt.routesOf body ++ routes, ?_⟩
            have helse' : opener.indent = base ∧ isElse opener = true := helse
            simp only [readStatement_eq, hd.2, hchild, readAlternative_cons, if_pos helse', hchild',
              Failure.after]
          · obtain ⟨hends, -⟩ := hrest.ends_pre hgood (line :: post)
            have hstmt := readStatement_branchElse hd (hbody.readBlock_append (helse.ends _)) hne
              helse (hother.readBlock_append hends) hne'
            rw [List.cons_append, List.append_assoc, List.cons_append, List.append_assoc]
            exact .of_rest hd.1 hstmt (ih rfl)
  | @route base head name inner rest options stmts hd hall hne hslots hrest ih =>
      obtain ⟨pre, rfl, htail⟩ := hd.eq_cons hgood hlines
      rcases append_eq_concat htail with ⟨rfl, rfl⟩ | ⟨rest, rfl, rfl⟩
      · have hopen : blockFault? head "route" base (pre ++ line :: post) = none := by
          cases pre with
          | nil =>
              cases hall with
              | cons hoption _ =>
                  exact blockFault?_eq_none_iff.2 ⟨line, post, rfl, by rw [hindent, hoption.1]⟩
          | cons first pre =>
              cases hall with
              | cons hoption _ => exact blockFault?_eq_none_iff.2 ⟨first, _, rfl, hoption.1⟩
        have hadd : ({ name := name } : Route).addAll options =
            .ok (Route.ofOptions name options) :=
          Route.addAll_eq_ok_iff.2 ⟨hslots, rfl⟩
        have hread := readOptions_eq_error hall rfl hadd hindent hline post
        rw [List.cons_append]
        refine .of_statement hd.1 ⟨[], ?_⟩
        simp only [readStatement_eq, hd.2, hopen, hread]
      · obtain ⟨hends, -⟩ := hrest.ends_pre hgood (line :: post)
        rw [List.cons_append, List.append_assoc]
        exact .of_rest hd.1 (readStatement_route hd hall hne hslots hends) (ih rfl)

end Stopgap

/-- A block with lines has statements. -/
theorem Block.stmts_ne_nil {base : Int} {lines : List Line} {stmts : List Stmt}
    (h : Block base lines stmts) (hne : lines ≠ []) : stmts ≠ [] := by
  rintro rfl
  cases h
  exact hne rfl

/-- Lines that are read up to an option that is refused with the given fault: with an option in its
place that can be read, they are a block. -/
def BreaksOff (base : Int) (lines : List Line) (fault : Fault) : Prop :=
  ∃ pre line post, lines = pre ++ line :: post ∧ readOption line = .error fault ∧
    ∀ good a, OptionAt line.indent good (.avoid a) → ∃ body, Block base (pre ++ [good]) body

/-- A route block that is refused without a line. -/
theorem breaksOff_route {base : Int} {head : Line} {name : String} {tail : List Line}
    {fault : Fault} (hd : HeaderAt base head (.route name))
    (h : readOptions (base + indentStep) { name := name } tail = .error fault)
    (hfault : fault.isLocated = false) : BreaksOff base (head :: tail) fault := by
  obtain ⟨inner, line, post, options, plan, rfl, hall, hadd, hindent, hline⟩ :=
    exists_of_readOptions_error h hfault
  obtain ⟨hslots, -⟩ := Route.addAll_eq_ok_iff.1 hadd
  refine ⟨head :: inner, line, post, rfl, hline, ?_⟩
  intro good a hgood
  rw [hindent] at hgood
  have hall' := List.rel_append hall (List.Forall₂.cons hgood .nil)
  have hslots' : (RouteOption.slots (options ++ [.avoid a])).Nodup := by
    have hnone : RouteOption.slots [.avoid a] = [] := rfl
    rw [RouteOption.slots_append, hnone, List.append_nil]
    exact hslots
  have hblock := Block.route hd hall' (by simp) hslots' (.nil base)
  rw [List.append_nil] at hblock
  exact ⟨_, hblock⟩

/-- What breaks off in the block of a header breaks off in the block of the header. -/
theorem BreaksOff.of_child {base : Int} {head : Line} {tail : List Line} {fault : Fault}
    (stmt : List Stmt → Stmt)
    (hput : ∀ {inner body}, Block (base + indentStep) inner body → body ≠ [] →
      Block base (head :: inner) [stmt body])
    (h : BreaksOff (base + indentStep) tail fault) : BreaksOff base (head :: tail) fault := by
  obtain ⟨pre, line, post, rfl, hline, hblock⟩ := h
  refine ⟨head :: pre, line, post, rfl, hline, ?_⟩
  intro good a hgood
  obtain ⟨body, hbody⟩ := hblock good a hgood
  exact ⟨_, hput hbody (hbody.stmts_ne_nil (by simp))⟩

theorem blockFault?_located {header : Line} {keyword : String} {indent : Int} {lines : List Line}
    {fault : Fault} (h : blockFault? header keyword indent lines = some fault) :
    fault.isLocated = true := by
  cases lines with
  | nil =>
      simp only [blockFault?, Option.some.injEq] at h
      rw [← h]
      rfl
  | cons line lines =>
      rw [blockFault?] at h
      split at h
      · simp only [Option.some.injEq] at h
        rw [← h]
        rfl
      · split at h
        · simp only [Option.some.injEq] at h
          rw [← h]
          rfl
        · simp at h

/-- The block of a header is refused without a line where a block one step deeper is. -/
theorem readBlock_of_readChild_error {header : Line} {keyword : String} {indent : Int}
    {lines : List Line} {failure : Failure}
    (h : readChild header keyword indent lines = .error failure)
    (hfault : failure.fault.isLocated = false) :
    readBlock (indent + indentStep) lines = .error failure := by
  rw [readChild_eq] at h
  cases hopen : blockFault? header keyword indent lines with
  | none =>
      simp only [hopen] at h
      exact h
  | some fault =>
      simp only [hopen, Except.error.injEq] at h
      rw [← h, blockFault?_located hopen] at hfault
      simp at hfault

/-- An alternative is refused where the block that its line opens is. -/
theorem exists_of_readAlternative_error {indent : Int} {lines : List Line} {failure : Failure}
    (h : readAlternative indent lines = .error failure) :
    ∃ opener rest, lines = opener :: rest ∧ ElseAt indent opener ∧
      readChild opener "else" indent rest = .error failure := by
  cases lines with
  | nil => simp at h
  | cons opener rest =>
      rw [readAlternative_cons] at h
      split at h
      · rename_i helse
        cases hchild : readChild opener "else" indent rest with
        | ok r => simp [hchild] at h
        | error f =>
            simp only [hchild, Except.error.injEq] at h
            exact ⟨opener, rest, rfl, helse, by rw [hchild, h]⟩
      · simp at h

/-- What must be known of lines that `readBlock` refuses without a line. -/
def Stops (lines : List Line) : Prop :=
  ∀ (base : Int) (failure : Failure), readBlock base lines = .error failure →
    failure.fault.isLocated = false → BreaksOff base lines failure.fault

/-- A statement that is refused without a line breaks off at an option, given that this holds of
shorter lines. -/
theorem breaksOff_of_readStatement {base : Int} {head : Line} {tail : List Line}
    {failure : Failure} (hstops : ∀ lines : List Line, lines <:+ tail → Stops lines)
    (hword : HasWord head) (hindent : head.indent = base)
    (h : readStatement base head tail = .error failure)
    (hfault : failure.fault.isLocated = false) : BreaksOff base (head :: tail) failure.fault := by
  rw [readStatement_eq] at h
  cases hheader : readHeader head with
  | error fault =>
      simp only [hheader, Except.error.injEq] at h
      rw [← h] at hfault
      exact ((readHeader_located hword).absurd hheader hfault).elim
  | ok header =>
      simp only [hheader] at h
      cases header with
      | display value => simp at h
      | assign name value => simp at h
      | when event =>
          cases hchild : readChild head "when" base tail with
          | ok r => simp [hchild] at h
          | error f =>
              simp only [hchild, Except.error.injEq] at h
              subst h
              have hbody := hstops tail (List.suffix_refl tail) _ _
                (readBlock_of_readChild_error hchild hfault) hfault
              apply hbody.of_child (.when event)
              intro inner body hinner hne
              have hblock := Block.when ⟨hindent, hheader⟩ hinner hne (.nil base)
              rwa [List.append_nil] at hblock
      | branch test =>
          cases hchild : readChild head "if" base tail with
          | error f =>
              simp only [hchild, Except.error.injEq] at h
              subst h
              have hbody := hstops tail (List.suffix_refl tail) _ _
                (readBlock_of_readChild_error hchild hfault) hfault
              apply hbody.of_child (.branch test · none)
              intro inner body hinner hne
              have hblock := Block.branch ⟨hindent, hheader⟩ hinner hne (.nil base)
              rwa [List.append_nil] at hblock
          | ok r =>
              obtain ⟨body, mid⟩ := r
              obtain ⟨hbody, hne⟩ := readChild_eq_ok_iff.1 hchild
              obtain ⟨used, rfl, hblock, -⟩ := block_of_readBlock _ _ _ _ hbody
              simp only [hchild] at h
              cases halt : readAlternative base mid with
              | ok r => simp [halt] at h
              | error f =>
                  simp only [halt, Except.error.injEq] at h
                  subst h
                  -- the first block was read whole, so that it breaks off in the alternative
                  obtain ⟨opener, rest, rfl, helse, hother⟩ := exists_of_readAlternative_error halt
                  have hbody' := hstops rest
                    ((List.suffix_cons opener rest).trans (List.suffix_append used _)) _ _
                    (readBlock_of_readChild_error hother hfault) hfault
                  obtain ⟨pre, line, post, rfl, hline, hblock'⟩ := hbody'
                  refine ⟨head :: (used ++ opener :: pre), line, post, by simp, hline, ?_⟩
                  intro good a hgood
                  obtain ⟨elseBody, hother'⟩ := hblock' good a hgood
                  have hwhole := Block.branchElse ⟨hindent, hheader⟩ hblock hne helse hother'
                    (hother'.stmts_ne_nil (by simp)) (.nil base)
                  exact ⟨_, by simpa using hwhole⟩
      | route name =>
          cases hopen : blockFault? head "route" base tail with
          | some fault =>
              simp only [hopen, Except.error.injEq] at h
              rw [← h, blockFault?_located hopen] at hfault
              simp at hfault
          | none =>
              simp only [hopen] at h
              cases hoptions : readOptions (base + indentStep) { name := name } tail with
              | ok r => simp [hoptions] at h
              | error fault =>
                  simp only [hoptions, Except.error.injEq] at h
                  rw [← h] at hfault ⊢
                  exact breaksOff_route ⟨hindent, hheader⟩ hoptions hfault

/-- **What is refused without a line breaks off at an option.** -/
theorem breaksOff_of_readBlock (lines : List Line) (hwords : ∀ line ∈ lines, HasWord line) :
    Stops lines := by
  -- on the number of lines, as for blocks that are read
  induction hn : lines.length using Nat.strongRecOn generalizing lines with
  | _ n ih =>
      intro base failure h hfault
      cases lines with
      | nil => simp at h
      | cons head tail =>
          rw [readBlock_cons] at h
          split at h
          · simp at h
          split at h
          · simp only [Except.error.injEq] at h
            rw [← h] at hfault
            simp [Fault.isLocated] at hfault
          rename_i hless hmore
          have hindent : head.indent = base := by omega
          have hshort : ∀ lines : List Line, lines <:+ tail → Stops lines := by
            intro lines hsuffix
            have := hsuffix.length_le
            refine ih lines.length ?_ lines (fun l hl => hwords l ?_) rfl
            · rw [← hn, List.length_cons]
              omega
            · exact List.mem_cons_of_mem head (hsuffix.subset hl)
          cases hstmt : readStatement base head tail with
          | error f =>
              simp only [hstmt, Except.error.injEq] at h
              subst h
              exact breaksOff_of_readStatement hshort (hwords head List.mem_cons_self) hindent hstmt
                hfault
          | ok r =>
              obtain ⟨stmt, rest⟩ := r
              obtain ⟨used, rfl, hput⟩ :=
                block_of_readStatement (fun lines _ => block_of_readBlock lines) hindent hstmt
              cases hrest : readBlock base rest with
              | ok r => simp [hstmt, hrest] at h
              | error f =>
                  simp only [hstmt, hrest, Except.error.injEq] at h
                  subst h
                  -- the first statement is put before the block that breaks off
                  obtain ⟨pre, line, post, rfl, hline, hblock⟩ :=
                    hshort rest (List.suffix_append used rest) _ _ hrest hfault
                  refine ⟨head :: (used ++ pre), line, post, by simp, hline, ?_⟩
                  intro good a hgood
                  obtain ⟨body, hbody⟩ := hblock good a hgood
                  exact ⟨_, by simpa using hput _ _ hbody⟩

end Grammar

/-! ### Sources -/

/-- The line that a physical line holds has a word. -/
theorem Line.hasWord_of_ofPhysical {number : Nat} {raw : List Char} {line : Line}
    (h : Line.ofPhysical number raw = .significant line) : Parse.HasWord line := by
  obtain ⟨hskip, -, -, htext⟩ := Line.of_ofPhysical h
  cases hdrop : raw.dropWhile Text.isBlank with
  | nil => simp [Line.isSkipped, hdrop] at hskip
  | cons c rest =>
      obtain ⟨hc, more, hstrip⟩ := Text.exists_strip_eq hdrop
      simp [Parse.HasWord, htext, hstrip, Text.firstWord?, hc]

/-- **Every line of a source has a word.** -/
theorem Source.hasWord {number : Nat} {raws : List (List Char)} {lines : List Line}
    (h : Source.linesFrom number raws = .ok lines) : ∀ line ∈ lines, Parse.HasWord line := by
  intro line hline
  obtain ⟨i, raw, -, hread⟩ := Source.exists_raw_of_mem h hline
  exact Line.hasWord_of_ofPhysical hread

/-- A source that is read up to a route option without a value: with an option in its place that has
one, the lines up to there are a program. -/
def Source.Strands (source : String) : Prop :=
  ∃ before line after body, Source.lines source = .ok (before ++ line :: after) ∧
    Grammar.Block 0 (before ++ [{ line with text := "avoid tolls" }]) body ∧
    Parse.LacksValue line

namespace Program

open Parse

/-- The option that takes the place of another one can be read. -/
theorem optionAt_stopgap (line : Line) :
    Grammar.OptionAt line.indent { line with text := "avoid tolls" } (.avoid .tolls) := by
  have havoid : Text.Spells "avoid" "avoid".toList := by decide
  have htolls : Text.Spells (Avoidance.word .tolls) "tolls".toList := by decide
  have hline : Render.OptionLine (.avoid .tolls) "avoid tolls".toList := .avoid havoid htolls
  exact ⟨rfl, Render.OptionLine.readOption_eq hline trivial⟩

/-- The option that takes the place of another one is no header. -/
theorem readHeader_stopgap (line : Line) (header : Header) :
    readHeader { line with text := "avoid tolls" } ≠ .ok header := by
  have htext : "avoid tolls".toList = 'a' :: "void tolls".toList := by decide
  exact Grammar.readHeader_ne_ok_of_initial htext (by decide) (by decide) header

/-- A source is refused without a line exactly if it strands. -/
theorem parse_unlocated_iff (source : String) :
    (∃ fault, parse source = .error fault ∧ fault.isLocated = false) ↔ Source.Strands source := by
  rw [parse]
  constructor
  · rintro ⟨fault, h, hfault⟩
    cases hlines : Source.lines source with
    | error number =>
        simp only [hlines] at h
        exact ((located_error rfl).absurd h hfault).elim
    | ok lines =>
        simp only [hlines, ofLines] at h
        cases hread : readBlock 0 lines with
        | ok r =>
            obtain ⟨body, left⟩ := r
            cases left with
            | nil => simp [hread] at h
            | cons line left =>
                simp only [hread] at h
                exact ((located_error rfl).absurd h hfault).elim
        | error failure =>
            simp only [hread, Except.error.injEq] at h
            subst h
            have hwords := Source.hasWord hlines
            obtain ⟨before, line, after, rfl, hline, hblock⟩ :=
              Grammar.breaksOff_of_readBlock lines hwords 0 failure hread hfault
            obtain ⟨body, hbody⟩ := hblock _ _ (optionAt_stopgap line)
            exact ⟨before, line, after, body, hlines, hbody,
              (readOption_unlocated_iff (hwords line (by simp))).1 ⟨_, hline, hfault⟩⟩
  · rintro ⟨before, line, after, body, hlines, hbody, hvalue⟩
    have hword := Source.hasWord hlines line (by simp)
    obtain ⟨fault, hline, hfault⟩ := (readOption_unlocated_iff hword).2 hvalue
    have hindent : line.indent = ({ line with text := "avoid tolls" } : Line).indent := rfl
    have hfails : Grammar.Fails fault (readBlock 0 (before ++ line :: after)) :=
      hbody.readBlock_fails (readHeader_stopgap line) rfl hindent hline
    obtain ⟨routes, hread⟩ := hfails
    refine ⟨fault, ?_, hfault⟩
    simp only [hlines, ofLines, hread]

/-- **A source is read, or refused with a diagnostic that names a line, exactly if it does not
strand.** -/
theorem parse_located_iff (source : String) :
    ((∃ program, parse source = .ok program ∧ tryParse source = .ok (.ok program)) ∨
      ∃ line cause, parse source = .error (.at line cause) ∧
        ∃ d : Diagnostic, tryParse source = .ok (.error d) ∧ d.line = some line ∧
          (d.kind = .parse ∨ d.kind = .indentation)) ↔
      ¬ Source.Strands source := by
  rw [← parse_unlocated_iff]
  constructor
  · rintro (⟨program, hparse, -⟩ | ⟨line, cause, hparse, -⟩) ⟨fault, h, hfault⟩
    · simp [hparse] at h
    · rw [hparse] at h
      exact (located_error rfl).absurd h hfault
  · intro h
    cases hparse : parse source with
    | ok program => exact .inl ⟨program, rfl, by rw [tryParse, hparse]⟩
    | error fault =>
        have hlocated : fault.isLocated = true := by
          by_contra hnot
          exact h ⟨fault, hparse, by simpa using hnot⟩
        obtain ⟨line, cause, rfl⟩ := exists_at_of_isLocated hlocated
        refine .inr ⟨line, cause, rfl, cause.diagnostic line, by rw [tryParse, hparse], ?_⟩
        rw [Cause.diagnostic]
        cases cause.indents with
        | none => exact ⟨rfl, .inl rfl⟩
        | some pair => exact ⟨rfl, .inr rfl⟩

/-- The long s folds to the last letter of `tolls` and is its own lower case. -/
theorem strands_longS : Source.Strands "route r\n  avoid toll\u017f" := by
  have hword : Text.Spells "route" "route".toList := by decide
  have hroute : Render.HeaderLine (.route "r") "route r".toList := .route hword
  have hplain : Text.isIdentifier "r".toList = true := by decide
  have hheader : Grammar.HeaderAt 0 ⟨1, 0, "route r", "route r"⟩ (.route "r") :=
    ⟨rfl, Render.HeaderLine.readHeader_eq hroute hplain⟩
  have hlines : Source.lines "route r\n  avoid toll\u017f" =
      .ok ([⟨1, 0, "route r", "route r"⟩] ++
        ⟨2, 2, "avoid toll\u017f", "  avoid toll\u017f"⟩ :: []) := by
    rfl
  have hoption := optionAt_stopgap ⟨2, 2, "avoid toll\u017f", "  avoid toll\u017f"⟩
  have hblock := Grammar.Block.route hheader (.cons hoption .nil) (by simp) (by decide) (.nil 0)
  have hchoice : choice? "avoid" (Avoidance.all.map Avoidance.word) "avoid toll\u017f".toList =
      some "toll\u017f".toList := by
    decide
  exact ⟨_, _, _, _, hlines, hblock, .avoid hchoice (by decide)⟩

/-- Such a source is neither read nor refused with a line. -/
theorem not_located_longS :
    ¬ ((∃ program, parse "route r\n  avoid toll\u017f" = .ok program ∧
        tryParse "route r\n  avoid toll\u017f" = .ok (.ok program)) ∨
      ∃ line cause, parse "route r\n  avoid toll\u017f" = .error (.at line cause) ∧
        ∃ d : Diagnostic, tryParse "route r\n  avoid toll\u017f" = .ok (.error d) ∧
          d.line = some line ∧ (d.kind = .parse ∨ d.kind = .indentation)) := by
  rw [parse_located_iff, not_not]
  exact strands_longS

end Program

end Waymark
