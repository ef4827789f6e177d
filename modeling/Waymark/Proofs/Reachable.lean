/-
**Which faults can arise, and where.**

The readers name more reasons for refusing a line than there are sources to refuse.  A line that
starts with a keyword and a space has something behind the space, since a line of a source ends
with no blank; so an event rule, a conditional and a line that shows a value always have their
argument.  Every indent counts characters, so no line stands to the left of the outermost
block.  And a line that starts no statement has a first word for which a keyword can be suggested.

Two comparisons with the keyword must be reconciled for the first of these.  The reader is chosen
by the lower case of the line, and the argument is found behind a word that is recognised by case
folding; outside ASCII the two differ.  But whenever the lower case of a line starts with a
keyword and a space, the line itself starts with that keyword in the sense of folding.

Main definitions:

* `Parse.Cause.canArise` — the reasons for which a source can be refused;
* `Parse.Fault.ArisesIn` — a fault of one of the given lines;
* `Parse.unusedMessages` — the messages for lines that no source has.

Main results:

* `Text.dropWord?_of_lower` — a keyword at the start of the lower case of a text is recognised;
* `Parse.argumentOf?_of_startsWith` — **behind a keyword and a space there is an argument**;
* `Parse.readHeader_failsIn`, `Parse.readOption_failsIn`, `Parse.readBlock_arises` — the faults of
  headers, route options and blocks;
* `Parse.Cause.message_of_canArise` — the messages that are never told;
* `Program.parse_faults` — **every fault of a source belongs to a line of significance, up to two
  kinds that belong to no line**, and reading with a cursor never runs out of lines.
-/
import Waymark.Proofs.Grammar
import Waymark.Proofs.Located
import Waymark.Proofs.SourceLine
import Waymark.Proofs.Walk
import Waymark.Proofs.WrittenLine

set_option relaxedAutoImplicit false
set_option autoImplicit false

namespace Waymark

/-! ### Keywords in lower case -/

namespace Text

/-- The lower case of a character is one letter as which the character counts, except that the
dotted capital i leaves a dot behind it. -/
theorem lowerChar_cases (c : Char) :
    (∃ letter, lowerChar c = [letter] ∧ isLetter letter c = true) ∨
      lowerChar c = ['i', dotAbove] := by
  by_cases hi : c = dottedI
  · exact .inr (by rw [lowerChar, if_pos hi])
  by_cases hk : c = kelvin
  · exact .inl ⟨'k', by rw [lowerChar, if_neg hi, if_pos hk], by rw [hk]; decide⟩
  · exact .inl ⟨c.toLower, by rw [lowerChar, if_neg hi, if_neg hk], isLetter_toLower rfl⟩

/-- Only the space counts as a space. -/
theorem eq_space_of_isLetter {c : Char} (h : isLetter ' ' c = true) : c = ' ' := by
  have hlower : c.toLower = ' ' := by simpa [isLetter, partners] using h
  exact eq_of_toLower_eq hlower (by decide)

/-- **A keyword at the start of the lower case of a text is recognised**, if a space follows it. -/
theorem dropWord?_of_lower {word cs : List Char} (hlow : ∀ c ∈ word, c.toNat < 128)
    (h : word ++ [' '] <+: lower cs) : ∃ rest, dropWord? word cs = some (' ' :: rest) := by
  induction word generalizing cs with
  | nil =>
      cases cs with
      | nil => simp at h
      | cons c cs =>
          rw [lower_cons, List.nil_append] at h
          rcases lowerChar_cases c with ⟨letter, hc, hletter⟩ | hc
          · rw [hc, List.singleton_append, List.cons_prefix_cons] at h
            obtain ⟨rfl, -⟩ := h
            exact ⟨cs, by rw [eq_space_of_isLetter hletter]; rfl⟩
          · rw [hc, List.cons_append, List.cons_prefix_cons] at h
            exact absurd h.1 (by decide)
  | cons letter word ih =>
      cases cs with
      | nil => simp at h
      | cons c cs =>
          obtain ⟨hletter, hword⟩ := List.forall_mem_cons.1 hlow
          rw [lower_cons, List.cons_append] at h
          rcases lowerChar_cases c with ⟨letter', hc, hcount⟩ | hc
          · rw [hc, List.singleton_append, List.cons_prefix_cons] at h
            obtain ⟨rfl, hstart⟩ := h
            rw [dropWord?, if_pos hcount]
            exact ih hword hstart
          · -- the dot would have to be a letter of the keyword, or the space behind it
            rw [hc, List.cons_append, List.cons_prefix_cons] at h
            obtain ⟨-, hstart⟩ := h
            cases word with
            | nil =>
                rw [List.nil_append, List.cons_append, List.cons_prefix_cons] at hstart
                exact absurd hstart.1 (by decide)
            | cons next word =>
                rw [List.cons_append, List.cons_append, List.cons_prefix_cons] at hstart
                have hnext := (List.forall_mem_cons.1 hword).1
                rw [hstart.1] at hnext
                exact absurd hnext (by decide)

/-- Behind a keyword and a space at the start of a phrase, something is left. -/
theorem IsPhrase.exists_argument? {written rest : List Char}
    (h : IsPhrase (written ++ ' ' :: rest)) : ∃ found, argument? (' ' :: rest) = some found := by
  have hne : rest ≠ [] := by
    rintro rfl
    have hsolid := h.ends ' ' (by simp)
    exact absurd hsolid (by decide)
  have hbreak : '\n' ∉ rest := by
    intro hmem
    exact h.no_break (by simp [hmem])
  have hspace : isBlank ' ' = true := rfl
  rw [argument?, afterBlanks, if_pos hspace, restOfLine?_eq hne hbreak]
  cases afterBlanks restOfLine? rest with
  | none => exact ⟨strip rest, rfl⟩
  | some found => exact ⟨strip found, rfl⟩

end Text

namespace Parse

/-- **Behind a keyword and a space there is an argument**, on every line that ends with no blank. -/
theorem argumentOf?_of_startsWith {keyword : String} (hkeyword : Text.isVisible keyword = true)
    {cs : List Char} (hcs : Text.IsPhrase cs) (h : startsWith keyword cs = true) :
    ∃ found, argumentOf? keyword cs = some found := by
  have hlow : ∀ c ∈ keyword.toList, c.toNat < 128 := by
    intro c hc
    have hvisible := List.all_eq_true.1 hkeyword c hc
    simp only [Bool.and_eq_true, decide_eq_true_eq] at hvisible
    exact hvisible.2
  obtain ⟨rest, hrest⟩ := Text.dropWord?_of_lower hlow (List.isPrefixOf_iff_prefix.1 h)
  obtain ⟨written, rfl, -⟩ := Text.dropWord?_eq_some hrest
  obtain ⟨found, hfound⟩ := hcs.exists_argument?
  exact ⟨found, by rw [argumentOf?, Text.afterWord, hrest]; exact hfound⟩

/-! ### Faults that can arise -/

/-- Whether a source can be refused for the given reason. -/
def Cause.canArise (cause : Cause) : Bool :=
  match cause with
  | .invalidWhen => false
  | .invalidIf => false
  | .invalidShow => false
  | .extraInput _ => false
  | _ => true

/-- A fault that can arise in the given lines: it belongs to one of them, or to a route option that
has no value. -/
inductive Fault.ArisesIn (lines : List Line) : Fault → Prop
  | at {line : Line} {cause : Cause} :
      line ∈ lines → cause.canArise = true → ArisesIn lines (.at line.number cause)
  | foreignWord (vocabulary : Vocabulary) (word : String) :
      ArisesIn lines (.foreignWord vocabulary word)
  | tooManyDigits (count : Nat) : ArisesIn lines (.tooManyDigits count)

theorem Fault.ArisesIn.mono {lines more : List Line} {fault : Fault} (h : fault.ArisesIn lines)
    (hsubset : lines ⊆ more) : fault.ArisesIn more := by
  cases h with
  | «at» hline hcause => exact .at (hsubset hline) hcause
  | foreignWord vocabulary word => exact .foreignWord vocabulary word
  | tooManyDigits count => exact .tooManyDigits count

/-- A line that is a phrase has a word. -/
theorem hasWord_of_isPhrase {line : Line} (h : Text.IsPhrase line.text.toList) : HasWord line := by
  cases hcs : line.text.toList with
  | nil => exact absurd hcs h.ne_nil
  | cons c cs =>
      have hc : Text.isBlank c = false := h.starts c (by rw [hcs]; rfl)
      simp [HasWord, hcs, Text.firstWord?, hc]

/-- An atom is refused as an expression. -/
theorem canArise_of_readAtom {cs : List Char} {cause : Cause} (h : readAtom cs = .error cause) :
    cause.canArise = true := by
  simp only [readAtom] at h
  split at h
  · simp at h
  · simp only [Except.error.injEq] at h
    rw [← h]
    rfl

/-- A comparison is refused where one of its sides is. -/
theorem canArise_of_readExpr {cs : List Char} {cause : Cause} (h : readExpr cs = .error cause) :
    cause.canArise = true := by
  rw [readExpr] at h
  split at h
  · exact canArise_of_readAtom h
  · split at h
    · rename_i hleft
      rw [Except.error.injEq] at h
      exact canArise_of_readAtom (h ▸ hleft)
    · split at h
      · rename_i hright
        rw [Except.error.injEq] at h
        exact canArise_of_readAtom (h ▸ hright)
      · simp at h

/-! ### Faults of headers and options -/

/-- A result whose fault, if it is one, can arise in the given lines. -/
def FailsIn {α : Type} (lines : List Line) (result : Except Fault α) : Prop :=
  ∀ fault, result = .error fault → fault.ArisesIn lines

theorem failsIn_ok {α : Type} (lines : List Line) (a : α) :
    FailsIn lines (.ok a : Except Fault α) := by
  intro fault h
  simp at h

theorem failsIn_error {α : Type} {lines : List Line} {fault : Fault} (h : fault.ArisesIn lines) :
    FailsIn lines (.error fault : Except Fault α) := by
  rintro _ ⟨rfl⟩
  exact h

section Lines

variable {line : Line} {lines : List Line} (hline : line ∈ lines)

include hline

theorem exprAt_failsIn (cs : List Char) : FailsIn lines (exprAt line cs) := by
  rw [exprAt]
  split
  · exact failsIn_ok lines _
  · rename_i cause hread
    exact failsIn_error (.at hline (canArise_of_readExpr hread))

/-- A header with an expression is refused where the expression is. -/
theorem match_exprAt_failsIn (cs : List Char) (header : Expr → Header) :
    FailsIn lines
      (match exprAt line cs with
      | .error f => .error f
      | .ok e => .ok (header e)) := by
  cases hexpr : exprAt line cs with
  | ok e => exact failsIn_ok lines _
  | error fault => exact failsIn_error (exprAt_failsIn hline cs fault hexpr)

/-- **The faults of headers**: a keyword with a space behind it has its argument. -/
theorem readHeader_failsIn (hphrase : Text.IsPhrase line.text.toList) :
    FailsIn lines (readHeader line) := by
  simp only [readHeader]
  split
  · rename_i hstarts
    obtain ⟨event, hevent⟩ := argumentOf?_of_startsWith (by decide) hphrase hstarts
    rw [readWhen, hevent]
    exact failsIn_ok lines _
  split
  · rename_i hstarts
    obtain ⟨test, htest⟩ := argumentOf?_of_startsWith (by decide) hphrase hstarts
    rw [readIf, htest]
    exact match_exprAt_failsIn hline test .branch
  split
  · rename_i hstarts
    obtain ⟨value, hvalue⟩ := argumentOf?_of_startsWith (by decide) hphrase hstarts
    rw [readShow, hvalue]
    exact match_exprAt_failsIn hline value .display
  split
  · rw [readSet]
    split
    · exact failsIn_error (.at hline rfl)
    · exact match_exprAt_failsIn hline _ (.assign _)
  split
  · rw [readRoute]
    split
    · exact failsIn_error (.at hline rfl)
    · exact failsIn_ok lines _
  · obtain ⟨suggestion, hsuggest⟩ := exists_suggest_eq .statement (hasWord_of_isPhrase hphrase)
    rw [unknownStatement, hsuggest]
    exact failsIn_error (.at hline rfl)

/-- An option with a place is refused where the place is. -/
theorem map_readPlace_failsIn (keyword : String) (cs : List Char) (option : String → RouteOption) :
    FailsIn lines ((readPlace line keyword cs).map option) := by
  rw [readPlace]
  split
  · rename_i fault hexpr
    exact failsIn_error (exprAt_failsIn hline cs fault hexpr)
  · exact failsIn_ok lines _
  · exact failsIn_error (.at hline rfl)

/-- **The faults of route options**: those of a line, and of a word or a number without a value. -/
theorem readOption_failsIn (hphrase : Text.IsPhrase line.text.toList) :
    FailsIn lines (readOption line) := by
  simp only [readOption]
  split
  · simp only [readAvoidance]
    split
    · exact failsIn_ok lines _
    · exact failsIn_error (.foreignWord _ _)
  split
  · exact map_readPlace_failsIn hline "from" _ .origin
  split
  · exact map_readPlace_failsIn hline "to" _ .destination
  split
  · simp only [readPreference]
    split
    · exact failsIn_ok lines _
    · exact failsIn_error (.foreignWord _ _)
  split
  · rw [readStops]
    split
    · exact failsIn_error (.tooManyDigits _)
    · exact failsIn_ok lines _
  split
  · exact failsIn_ok lines _
  split
  · exact failsIn_ok lines _
  · obtain ⟨suggestion, hsuggest⟩ := exists_suggest_eq .option (hasWord_of_isPhrase hphrase)
    rw [unknownOption, hsuggest]
    exact failsIn_error (.at hline rfl)

theorem addOption_failsIn (hphrase : Text.IsPhrase line.text.toList) (plan : Route) :
    FailsIn lines (addOption plan line) := by
  rw [addOption]
  split
  · rename_i fault hoption
    exact failsIn_error (readOption_failsIn hline hphrase fault hoption)
  · split
    · exact failsIn_error (.at hline rfl)
    · exact failsIn_ok lines _

end Lines

/-! ### Faults of blocks -/

/-- Lines that are phrases, as those of a source are. -/
def Phrases (lines : List Line) : Prop := ∀ line ∈ lines, Text.IsPhrase line.text.toList

/-- A route block is refused in its lines. -/
theorem readOptions_failsIn (indent : Int) (plan : Route) {lines : List Line}
    (hphrases : Phrases lines) : FailsIn lines (readOptions indent plan lines) := by
  induction lines generalizing plan with
  | nil => exact failsIn_ok [] _
  | cons line lines ih =>
      obtain ⟨hphrase, hphrases⟩ := List.forall_mem_cons.1 hphrases
      rw [readOptions]
      split
      · exact failsIn_ok _ _
      split
      · exact failsIn_error (.at List.mem_cons_self rfl)
      split
      · rename_i fault hadd
        exact failsIn_error (addOption_failsIn List.mem_cons_self hphrase plan fault hadd)
      · rename_i next hadd
        intro fault h
        exact (ih next hphrases fault h).mono (List.subset_cons_self line lines)

/-- A block that is not opened is a fault of the header, or of the line behind it. -/
theorem blockFault?_arises {header : Line} {keyword : String} {indent : Int} {lines : List Line}
    {fault : Fault} (h : blockFault? header keyword indent lines = some fault) :
    fault.ArisesIn (header :: lines) := by
  cases lines with
  | nil =>
      rw [blockFault?, Option.some.injEq] at h
      exact h ▸ .at List.mem_cons_self rfl
  | cons line lines =>
      rw [blockFault?] at h
      split at h
      · rw [Option.some.injEq] at h
        exact h ▸ .at List.mem_cons_self rfl
      split at h
      · rw [Option.some.injEq] at h
        exact h ▸ .at (List.mem_cons_of_mem header List.mem_cons_self) rfl
      · simp at h

/-- What is to be shown of the lines of a block. -/
def Arises (lines : List Line) : Prop :=
  ∀ (base : Int) (failure : Failure), readBlock base lines = .error failure →
    failure.fault.ArisesIn lines

/-- A header and its block are refused in their lines, if the lines of the block are. -/
theorem readChild_arises {header : Line} {keyword : String} {indent : Int} {lines : List Line}
    {failure : Failure} (hblock : Arises lines)
    (h : readChild header keyword indent lines = .error failure) :
    failure.fault.ArisesIn (header :: lines) := by
  rw [readChild_eq] at h
  split at h
  · rename_i hopen
    rw [Except.error.injEq] at h
    exact h ▸ blockFault?_arises hopen
  · exact (hblock _ _ h).mono (List.subset_cons_self header lines)

/-- **A statement is refused in its lines**, given that this holds of the blocks behind its
header. -/
theorem readStatement_arises {base : Int} {head : Line} {tail : List Line} {failure : Failure}
    (hblocks : ∀ lines, lines <:+ tail → Arises lines) (hphrase : Text.IsPhrase head.text.toList)
    (hphrases : Phrases tail) (h : readStatement base head tail = .error failure) :
    failure.fault.ArisesIn (head :: tail) := by
  have htail := hblocks tail (List.suffix_refl tail)
  rw [readStatement_eq] at h
  cases hheader : readHeader head with
  | error fault =>
      simp only [hheader, Except.error.injEq] at h
      rw [← h]
      exact readHeader_failsIn List.mem_cons_self hphrase fault hheader
  | ok header =>
      simp only [hheader] at h
      cases header with
      | display value => simp at h
      | assign name value => simp at h
      | when event =>
          cases hchild : readChild head "when" base tail with
          | ok r => simp [hchild] at h
          | error f =>
              simp only [hchild, Except.error.injEq] at h
              exact readChild_arises htail (h ▸ hchild)
      | branch test =>
          cases hchild : readChild head "if" base tail with
          | error f =>
              simp only [hchild, Except.error.injEq] at h
              exact readChild_arises htail (h ▸ hchild)
          | ok r =>
              obtain ⟨body, mid⟩ := r
              obtain ⟨hbody, -⟩ := Grammar.readChild_eq_ok_iff.1 hchild
              obtain ⟨used, rfl, -⟩ := Grammar.block_of_readBlock _ _ _ _ hbody
              simp only [hchild] at h
              cases halt : readAlternative base mid with
              | ok r => simp [halt] at h
              | error f =>
                  simp only [halt, Except.error.injEq] at h
                  rw [← h]
                  obtain ⟨opener, rest, rfl, -, hother⟩ :=
                    Grammar.exists_of_readAlternative_error halt
                  have hsuffix : opener :: rest <:+ used ++ opener :: rest :=
                    List.suffix_append used _
                  have hrest := hblocks rest ((List.suffix_cons opener rest).trans hsuffix)
                  refine (readChild_arises hrest hother).mono ?_
                  exact List.subset_cons_of_subset head hsuffix.subset
      | route name =>
          cases hopen : blockFault? head "route" base tail with
          | some fault =>
              simp only [hopen, Except.error.injEq] at h
              rw [← h]
              exact blockFault?_arises hopen
          | none =>
              simp only [hopen] at h
              cases hoptions : readOptions (base + indentStep) { name := name } tail with
              | ok r => simp [hoptions] at h
              | error fault =>
                  simp only [hoptions, Except.error.injEq] at h
                  rw [← h]
                  exact (readOptions_failsIn _ _ hphrases fault hoptions).mono
                    (List.subset_cons_self head tail)

/-- **A block is refused in its lines.** -/
theorem readBlock_arises (lines : List Line) (hphrases : Phrases lines) : Arises lines := by
  -- on the number of lines, as for blocks that are read
  induction hn : lines.length using Nat.strongRecOn generalizing lines with
  | _ n ih =>
      intro base failure h
      cases lines with
      | nil => simp at h
      | cons head tail =>
          obtain ⟨hphrase, hphrases⟩ := List.forall_mem_cons.1 hphrases
          rw [List.length_cons] at hn
          have hshort : ∀ lines, lines <:+ tail → Arises lines := by
            intro lines hsuffix
            have hle := hsuffix.length_le
            refine ih lines.length (by omega) lines ?_ rfl
            intro line hline
            exact hphrases line (hsuffix.subset hline)
          rw [readBlock_cons] at h
          split at h
          · simp at h
          split at h
          · rw [Except.error.injEq] at h
            exact h ▸ .at List.mem_cons_self rfl
          rename_i hless hmore
          have hindent : head.indent = base := by omega
          cases hstmt : readStatement base head tail with
          | error f =>
              simp only [hstmt, Except.error.injEq] at h
              exact readStatement_arises hshort hphrase hphrases (h ▸ hstmt)
          | ok r =>
              obtain ⟨stmt, rest⟩ := r
              obtain ⟨used, rfl, -⟩ := Grammar.block_of_readStatement
                (fun lines _ => Grammar.block_of_readBlock lines) hindent hstmt
              cases hrest : readBlock base rest with
              | ok r => simp [hstmt, hrest] at h
              | error f =>
                  simp only [hstmt, hrest, Except.error.injEq] at h
                  rw [← h]
                  have hsuffix : rest <:+ used ++ rest := List.suffix_append used rest
                  refine (hshort rest hsuffix base f hrest).mono ?_
                  exact List.subset_cons_of_subset head hsuffix.subset

/-! ### Messages that are never told -/

/-- The messages that the readers have for lines that no source has. -/
def unusedMessages : List String :=
  ["Unexpected extra input", "Invalid when syntax", "Invalid if syntax", "Invalid show syntax"]

/-- A message that starts with another text is none of them. -/
theorem append_not_mem_unusedMessages {start : String}
    (h : ∀ message ∈ unusedMessages, Text.clash message.toList start.toList = true)
    (rest : String) : start ++ rest ∉ unusedMessages := by
  intro hmem
  have hwhole : (start ++ rest).toList ++ [] = start.toList ++ rest.toList := by
    rw [List.append_nil, String.toList_append]
  exact Render.not_prefix_of_clash (h _ hmem) [] rest.toList ⟨[], by rw [List.append_nil, hwhole]⟩

/-- **The messages of the reasons for which a source can be refused.** -/
theorem Cause.message_of_canArise {cause : Cause} (h : cause.canArise = true) :
    cause.message ∉ unusedMessages := by
  delta message
  cases cause with
  | invalidWhen | invalidIf | invalidShow | extraInput => simp [canArise] at h
  | tab | invalidSet | invalidRoute =>
      simp only
      decide +kernel
  | deeper | deeperOption | badStep | missingBlock | unknownStatement | invalidExpression
  | unknownOption | placeNotQuoted | duplicateOption =>
      simp only [String.append_assoc]
      exact append_not_mem_unusedMessages (by decide +kernel) _

end Parse

/-! ### Sources -/

namespace Program

open Parse Grammar

/-- The lines of a source are refused at one of them: none stands to the left of the outermost
block. -/
theorem ofLines_arises {lines : List Line} {failure : Failure} (hphrases : Phrases lines)
    (hindent : ∀ line ∈ lines, 0 ≤ line.indent) (h : ofLines lines = .error failure) :
    failure.fault.ArisesIn lines := by
  rw [ofLines] at h
  cases hread : readBlock 0 lines with
  | error f =>
      simp only [hread, Except.error.injEq] at h
      exact h ▸ readBlock_arises lines hphrases 0 f hread
  | ok r =>
      obtain ⟨body, left⟩ := r
      have hnil := eq_nil_of_readBlock hindent hread
      subst hnil
      simp [hread] at h

/-- **Where a source is refused, and why.**  Reading it with a cursor never runs out of lines.  A
fault belongs to a physical line that is neither blank nor a comment, and is not told by one of the
messages for lines that no source has; the only other faults are those of route options without a
value. -/
theorem parse_faults (source : String) :
    Walk.parse source = (parse source).mapError .refused ∧
    ∀ fault, parse source = .error fault →
      (∃ (i : Nat) (raw : List Char) (cause : Cause), fault = .at (i + 1) cause ∧
        (Source.physicalLines source.toList)[i]? = some raw ∧ Line.isSkipped raw = false ∧
        cause.message ∉ unusedMessages) ∨
      (∃ vocabulary word, fault = .foreignWord vocabulary word) ∨
      ∃ count, fault = .tooManyDigits count := by
  refine ⟨Walk.parse_eq source, ?_⟩
  intro fault h
  rw [parse] at h
  cases hlines : Source.lines source with
  | error n =>
      simp only [hlines, Except.error.injEq] at h
      obtain ⟨i, raw, hn, hget, hread⟩ := Source.exists_raw_of_error hlines
      have hnumber : (n : Int) = i + 1 := by omega
      rw [← h, hnumber]
      exact .inl ⟨i, raw, .tab, rfl, hget, Line.isSkipped_of_tabbed hread,
        Cause.message_of_canArise rfl⟩
  | ok lines =>
      simp only [hlines] at h
      cases hread : ofLines lines with
      | ok program => simp [hread] at h
      | error failure =>
          simp only [hread, Except.error.injEq] at h
          have harises := ofLines_arises (fun line => Source.isPhrase_text hlines)
            (fun line => Source.indent_nonneg hlines) hread
          rw [h] at harises
          cases harises with
          | @«at» line cause hline hcause =>
              obtain ⟨i, raw, hget, hphysical⟩ := Source.exists_raw_of_mem hlines hline
              obtain ⟨hskip, hnumber, -, -⟩ := Line.of_ofPhysical hphysical
              have hplace : line.number = i + 1 := by omega
              rw [hplace]
              exact .inl ⟨i, raw, cause, rfl, hget, hskip, Cause.message_of_canArise hcause⟩
          | foreignWord vocabulary word => exact .inr (.inl ⟨vocabulary, word, rfl⟩)
          | tooManyDigits count => exact .inr (.inr ⟨count, rfl⟩)

/-- A comment and a blank line before a line that is too deep. -/
theorem parse_faults_third :
    parse "# detour\n\n show 1" = .error (.at 3 (.deeper 0 1)) ∧
    ∃ raw, (Source.physicalLines "# detour\n\n show 1".toList)[2]? = some raw ∧
      Line.isSkipped raw = false ∧ (Cause.deeper 0 1).message ∉ unusedMessages := by
  have hlines : Source.lines "# detour\n\n show 1" = .ok [⟨3, 1, "show 1", " show 1"⟩] := rfl
  have hparse : parse "# detour\n\n show 1" = .error (.at 3 (.deeper 0 1)) := by
    simp [parse, hlines, ofLines, readBlock_cons]
  refine ⟨hparse, ?_⟩
  rcases (parse_faults _).2 _ hparse with
    ⟨i, raw, cause, hfault, hget, hskip, htold⟩ | ⟨vocabulary, word, hfault⟩ | ⟨count, hfault⟩
  · simp only [Fault.at.injEq] at hfault
    obtain ⟨hi, rfl⟩ := hfault
    have htwo : i = 2 := by omega
    subst htwo
    exact ⟨raw, hget, hskip, htold⟩
  · simp at hfault
  · simp at hfault

end Program

end Waymark
