/-
**What the recognisers of line patterns find.**

A line is written from *phrases*, texts without a line break and without blanks at their ends, and
from words *spelled* in some mixture of capital and small ASCII letters, with single spaces between
them.  This module says what the recognisers of `Waymark.Text.Pattern` find on such texts.

Main definitions:

* `Text.IsPhrase` — a text that stands on a line between two spaces;
* `Text.Spells` — a text that is a given word up to the case of ASCII letters.

Main results:

* `Text.dropWord?_eq_some_iff` — where a word is recognised;
* `Text.IsPhrase.strip_eq`, `Text.IsPhrase.argument?_eq` — a phrase is what is left of it without
  outer blanks, and what is found behind a keyword and a space;
* `Text.Spells.dropWord?_append`, `Text.Spells.lower_append` — a spelled word is recognised and has
  the word as its lower case;
* `Text.Spells.dropWord?_eq_none` — a spelled word is not taken for a word with another first letter;
* `Text.afterBlanks_eq_some` — where a recogniser behind blanks finds what it looks for;
* `Text.afterBlanks_longest`, `Text.splitAt?_shortest` — how many blanks are passed over, and where a
  separator is found.
-/
import Mathlib.Data.List.Basic
import Mathlib.Data.List.Forall2
import Mathlib.Data.List.TakeWhile
import Waymark.Text.Pattern

set_option relaxedAutoImplicit false
set_option autoImplicit false

namespace Waymark

namespace Text

/-! ### Deciding by characters -/

-- characters are finitely many, so that a statement about those of a text may also be decided by
-- trying all of them; these instances come first
instance (priority := 2000) decidableForallMem (p : Char → Prop) [DecidablePred p]
    (cs : List Char) : Decidable (∀ c ∈ cs, p c) :=
  List.decidableBAll p cs

instance (priority := 2000) decidableExistsMem (p : Char → Prop) [DecidablePred p]
    (cs : List Char) : Decidable (∃ c ∈ cs, p c) :=
  List.decidableBEx p cs

/-! ### Blanks -/

/-- An ASCII character beyond the space is no blank. -/
theorem isBlank_eq_false {c : Char} (h : 32 < c.toNat) (h' : c.toNat < 128) :
    isBlank c = false := by
  simp only [isBlank, Bool.or_eq_false_iff, Bool.and_eq_false_iff, decide_eq_false_iff_not,
    beq_eq_false_iff_ne]
  omega

/-- The codes of capital letters. -/
theorem isUpper_iff {c : Char} : c.isUpper = true ↔ 65 ≤ c.toNat ∧ c.toNat ≤ 90 := by
  change decide ('A'.val ≤ c.val ∧ c.val ≤ 'Z'.val) = true ↔ _
  simp [UInt32.le_iff_toNat_le]

/-- The codes of small letters. -/
theorem isLower_iff {c : Char} : c.isLower = true ↔ 97 ≤ c.toNat ∧ c.toNat ≤ 122 := by
  change (decide ('a'.val ≤ c.val) && decide (c.val ≤ 'z'.val)) = true ↔ _
  simp [UInt32.le_iff_toNat_le]

theorem isAlpha_iff {c : Char} : c.isAlpha = true ↔ c.isUpper = true ∨ c.isLower = true := by
  change (c.isUpper || c.isLower) = true ↔ _
  exact Bool.or_eq_true_iff

/-- The codes of the characters of an identifier. -/
theorem isIdentifierPart_iff {c : Char} :
    isIdentifierPart c = true ↔ (65 ≤ c.toNat ∧ c.toNat ≤ 90) ∨ (97 ≤ c.toNat ∧ c.toNat ≤ 122) ∨
      (48 ≤ c.toNat ∧ c.toNat ≤ 57) ∨ c.toNat = 95 := by
  have h : c = '_' ↔ c.toNat = 95 := by
    rw [← Char.toNat_inj]
    rfl
  have hdigit : c.isDigit = true ↔ 48 ≤ c.toNat ∧ c.toNat ≤ 57 := Char.isDigit_iff_toNat
  simp only [isIdentifierPart, Char.isAlphanum, Bool.or_eq_true, isAlpha_iff, isUpper_iff,
    isLower_iff, hdigit, beq_iff_eq, h]
  omega

/-- An identifier does not start with a digit. -/
theorem isDigit_of_isIdentifierStart {c : Char} (h : isIdentifierStart c = true) :
    c.isDigit = false := by
  by_contra hdigit
  have hcode : 48 ≤ c.toNat ∧ c.toNat ≤ 57 := Char.isDigit_iff_toNat.1 (by simpa using hdigit)
  have h' : (65 ≤ c.toNat ∧ c.toNat ≤ 90) ∨ (97 ≤ c.toNat ∧ c.toNat ≤ 122) ∨ c = '_' := by
    simpa [isIdentifierStart, isAlpha_iff, isUpper_iff, isLower_iff, or_assoc] using h
  rcases h' with h' | h' | rfl
  · omega
  · omega
  · exact absurd hcode (by decide)

/-- A clock reading starts with a digit. -/
theorem clock?_of_not_isDigit {c : Char} (h : c.isDigit = false) (cs : List Char) :
    clock? (c :: cs) = none := by
  unfold clock?
  split
  · rename_i heq
    simp [← (List.cons.inj heq).1, h]
  · rfl

/-- Every character of an identifier is one with which identifiers go on. -/
theorem isIdentifierPart_of_mem {cs : List Char} (h : isIdentifier cs = true) {c : Char}
    (hc : c ∈ cs) : isIdentifierPart c = true := by
  cases cs with
  | nil => simp at hc
  | cons d cs =>
      simp only [isIdentifier, Bool.and_eq_true] at h
      rcases List.mem_cons.1 hc with rfl | hc
      · simp only [isIdentifierStart, Bool.or_eq_true] at h
        rcases h.1 with h | h <;> simp [isIdentifierPart, Char.isAlphanum, h]
      · exact List.all_eq_true.1 h.2 c hc

/-! ### Letter case -/

/-- The code of the ASCII lower case of a character. -/
theorem toNat_toLower (c : Char) :
    c.toLower.toNat = if 65 ≤ c.toNat ∧ c.toNat ≤ 90 then c.toNat + 32 else c.toNat := by
  by_cases h : 'A'.val ≤ c.val ∧ c.val ≤ 'Z'.val
  · have h' : 65 ≤ c.toNat ∧ c.toNat ≤ 90 := by simpa [UInt32.le_iff_toNat_le] using h
    have hlower : c.toLower.val = c.val + ('a'.val - 'A'.val) := congrArg Char.val (dif_pos h)
    have hstep : ('a'.val - 'A'.val).toNat = 32 := rfl
    rw [if_pos h', ← Char.toNat_val, hlower, UInt32.toNat_add, Char.toNat_val, hstep]
    exact Nat.mod_eq_of_lt (by omega)
  · have h' : ¬ (65 ≤ c.toNat ∧ c.toNat ≤ 90) := by simpa [UInt32.le_iff_toNat_le] using h
    have hlower : c.toLower = c := dif_neg h
    rw [if_neg h', hlower]

/-- A character whose ASCII lower case is in ASCII is in ASCII itself. -/
theorem toNat_lt_of_toLower {c : Char} (h : c.toLower.toNat < 128) : c.toNat < 128 := by
  rw [toNat_toLower] at h
  split at h <;> omega

/-- A character that comes before the small letters is the ASCII lower case of no other one. -/
theorem eq_of_toLower_eq {c d : Char} (h : c.toLower = d) (hd : d.toNat < 97) : c = d := by
  have hcode := congrArg Char.toNat h
  rw [toNat_toLower] at hcode
  rw [← Char.toNat_inj, ← hcode, if_neg]
  intro hrange
  rw [if_pos hrange] at hcode
  omega

/-- The lower case of a character in ASCII is its ASCII lower case. -/
theorem lowerChar_eq {c : Char} (h : c.toLower.toNat < 128) : lowerChar c = [c.toLower] := by
  have hc := toNat_lt_of_toLower h
  rw [lowerChar, if_neg, if_neg]
  · rintro rfl
    exact absurd hc (by decide)
  · rintro rfl
    exact absurd hc (by decide)

/-- The partners of keyword letters lie outside ASCII. -/
theorem le_toNat_of_mem_partners {letter c : Char} (h : c ∈ partners letter) : 128 ≤ c.toNat := by
  unfold partners at h
  split at h
  · rw [List.mem_singleton.1 h]
    decide
  · rw [List.mem_singleton.1 h]
    decide
  · rcases List.mem_pair.1 h with rfl | rfl <;> decide
  · simp at h

/-- A character in ASCII counts as a keyword letter only by its ASCII lower case. -/
theorem isLetter_eq {letter c : Char} (h : c.toLower.toNat < 128) :
    isLetter letter c = (c.toLower == letter) := by
  have hc := toNat_lt_of_toLower h
  have hpartners : (partners letter).contains c = false := by
    by_contra hmem
    have := le_toNat_of_mem_partners (List.contains_iff_mem.1 (by simpa using hmem))
    omega
  rw [isLetter, hpartners, Bool.or_false]

/-! ### Recognised words -/

/-- **A word is recognised at the start of a text** exactly if the text starts with one character for
each of its letters that counts as this letter. -/
theorem dropWord?_eq_some_iff {word cs rest : List Char} :
    dropWord? word cs = some rest ↔
      ∃ written, cs = written ++ rest ∧
        List.Forall₂ (fun letter c => isLetter letter c = true) word written := by
  induction word generalizing cs with
  | nil => simp [dropWord?]
  | cons letter word ih =>
      cases cs with
      | nil =>
          simp only [dropWord?, reduceCtorEq, false_iff]
          rintro ⟨written, hcs, hwritten⟩
          cases hwritten
          simp at hcs
      | cons c cs =>
          rw [dropWord?]
          constructor
          · intro h
            split at h
            · rename_i hc
              obtain ⟨written, rfl, hwritten⟩ := ih.1 h
              exact ⟨c :: written, rfl, .cons hc hwritten⟩
            · simp at h
          · rintro ⟨written, hcs, hwritten⟩
            cases hwritten with
            | cons hd htail =>
                obtain ⟨rfl, rfl⟩ := List.cons.inj hcs
                rw [if_pos hd]
                exact ih.2 ⟨_, rfl, htail⟩

theorem dropWord?_eq_nil_iff {word written : List Char} :
    dropWord? word written = some [] ↔
      List.Forall₂ (fun letter c => isLetter letter c = true) word written := by
  simp [dropWord?_eq_some_iff]

/-- The characters that a word is recognised in, and the text behind them. -/
theorem dropWord?_eq_some {word cs rest : List Char} (h : dropWord? word cs = some rest) :
    ∃ written, cs = written ++ rest ∧ dropWord? word written = some [] := by
  obtain ⟨written, hcs, hwritten⟩ := dropWord?_eq_some_iff.1 h
  exact ⟨written, hcs, dropWord?_eq_nil_iff.2 hwritten⟩

/-- A word is recognised in as many characters as it has letters. -/
theorem length_eq_of_dropWord? {word written : List Char} (h : dropWord? word written = some []) :
    written.length = word.length :=
  (dropWord?_eq_nil_iff.1 h).length_eq.symm

/-- A word that is recognised in a text is recognised before any further text. -/
theorem dropWord?_append {word written : List Char} (h : dropWord? word written = some [])
    (rest : List Char) : dropWord? word (written ++ rest) = some rest :=
  dropWord?_eq_some_iff.2 ⟨written, rfl, dropWord?_eq_nil_iff.1 h⟩

/-- Each character that a word is recognised in counts as one of its letters. -/
theorem exists_isLetter_of_dropWord? {word written : List Char}
    (h : dropWord? word written = some []) {c : Char} (hc : c ∈ written) :
    ∃ letter ∈ word, isLetter letter c = true := by
  have hall := dropWord?_eq_nil_iff.1 h
  clear h
  induction hall with
  | nil => simp at hc
  | @cons letter d word written hd _ ih =>
      rcases List.mem_cons.1 hc with rfl | hc
      · exact ⟨letter, List.mem_cons_self, hd⟩
      · obtain ⟨l, hl, hlc⟩ := ih hc
        exact ⟨l, List.mem_cons_of_mem letter hl, hlc⟩

/-! ### Spelled words -/

/-- A text that is the given word up to the case of ASCII letters. -/
def Spells (word : String) (cs : List Char) : Prop := cs.map Char.toLower = word.toList

instance (word : String) (cs : List Char) : Decidable (Spells word cs) :=
  inferInstanceAs (Decidable (cs.map Char.toLower = word.toList))

/-- Whether a word is made of ASCII characters beyond the space, as keywords are. -/
def isVisible (word : String) : Bool := word.toList.all (fun c => 32 < c.toNat && c.toNat < 128)

/-- A word that lines are written with: it is visible and not empty. -/
structure IsWord (word : String) : Prop where
  visible : isVisible word = true
  ne_empty : word ≠ ""

instance (word : String) : Decidable (IsWord word) :=
  decidable_of_iff (isVisible word = true ∧ word ≠ "")
    ⟨fun h => ⟨h.1, h.2⟩, fun h => ⟨h.visible, h.ne_empty⟩⟩

/-- Whether two words differ at a place that both have. -/
def clash (xs ys : List Char) : Bool :=
  match xs, ys with
  | x :: xs, y :: ys => x != y || clash xs ys
  | _, _ => false

/-- A spelled word is recognised, whatever follows it. -/
theorem Spells.dropWord?_append {word : String} {cs : List Char} (h : Spells word cs)
    (rest : List Char) : dropWord? word.toList (cs ++ rest) = some rest := by
  rw [← h]
  clear h
  induction cs with
  | nil => rfl
  | cons c cs ih => simpa [dropWord?, isLetter_toLower] using ih

/-- A spelled word is recognised to its end. -/
theorem Spells.dropWord?_eq {word : String} {cs : List Char} (h : Spells word cs) :
    dropWord? word.toList cs = some [] := by
  have hdrop := h.dropWord?_append []
  rwa [List.append_nil] at hdrop

/-- A character without a lower case that is not in a word is in no text that spells it. -/
theorem Spells.not_mem {word : String} {cs : List Char} (h : Spells word cs) {c : Char}
    (hlower : c.toLower = c) (hc : c ∉ word.toList) : c ∉ cs := by
  intro hmem
  refine hc ?_
  rw [← hlower, ← h]
  exact List.mem_map_of_mem hmem

/-- What is known of the letters of a word holds of the ASCII lower case of each character of a text
that spells it. -/
theorem Spells.toLower_visible {word : String} {cs : List Char} (h : Spells word cs)
    (hword : isVisible word = true) {c : Char} (hc : c ∈ cs) :
    32 < c.toLower.toNat ∧ c.toLower.toNat < 128 := by
  have hmem : c.toLower ∈ word.toList := h ▸ List.mem_map_of_mem hc
  simpa using List.all_eq_true.1 hword _ hmem

/-- A spelled keyword has no blanks. -/
theorem Spells.isBlank_eq_false {word : String} {cs : List Char} (h : Spells word cs)
    (hword : isVisible word = true) {c : Char} (hc : c ∈ cs) : isBlank c = false := by
  obtain ⟨hlow, hhigh⟩ := h.toLower_visible hword hc
  have := toNat_lt_of_toLower hhigh
  rw [toNat_toLower] at hlow
  refine Text.isBlank_eq_false ?_ this
  split at hlow <;> omega

/-- The lower case of a spelled keyword is the keyword. -/
theorem Spells.lower_append {word : String} {cs : List Char} (h : Spells word cs)
    (hword : isVisible word = true) (rest : List Char) :
    lower (cs ++ rest) = word.toList ++ lower rest := by
  have hchars : cs.flatMap lowerChar = cs.map Char.toLower := by
    rw [List.map_eq_flatMap]
    exact List.flatMap_congr fun c hc => lowerChar_eq (h.toLower_visible hword hc).2
  rw [lower, List.flatMap_append, hchars, h]
  rfl

/-- A spelled keyword is not taken for a word that it differs from. -/
theorem Spells.dropWord?_eq_none {word : String} {cs : List Char} (h : Spells word cs)
    (hword : isVisible word = true) {other : List Char} (hclash : clash other word.toList = true)
    (rest : List Char) : dropWord? other (cs ++ rest) = none := by
  have hlow : ∀ c ∈ cs, c.toLower.toNat < 128 := fun c hc => (h.toLower_visible hword hc).2
  rw [← h] at hclash
  clear h
  -- both words are passed up to the place where they differ
  induction cs generalizing other with
  | nil => cases other <;> simp [clash] at hclash
  | cons c cs ih =>
      cases other with
      | nil => simp [clash] at hclash
      | cons letter other =>
          have hletter : isLetter letter c = (c.toLower == letter) :=
            isLetter_eq (hlow c List.mem_cons_self)
          rw [List.cons_append, dropWord?, hletter]
          by_cases heq : c.toLower = letter
          · have hrest : clash other (cs.map Char.toLower) = true := by
              simpa [clash, heq] using hclash
            simpa [heq] using ih hrest fun d hd => hlow d (List.mem_cons_of_mem c hd)
          · simp [heq]

/-- A text in ASCII that is recognised as a word spells it. -/
theorem spells_of_dropWord? {word : String} {cs : List Char} (hlow : ∀ c ∈ cs, c.toNat < 128)
    (h : dropWord? word.toList cs = some []) : Spells word cs := by
  have hall := dropWord?_eq_nil_iff.1 h
  clear h
  rw [Spells]
  generalize word.toList = letters at hall
  induction hall with
  | nil => rfl
  | @cons letter c letters cs hc _ ih =>
      obtain ⟨hlow, hlows⟩ := List.forall_mem_cons.1 hlow
      have hlower : c.toLower.toNat < 128 := by
        rw [toNat_toLower]
        split <;> omega
      rw [isLetter_eq hlower, beq_iff_eq] at hc
      rw [List.map_cons, hc, ih hlows]

/-- A spelled pair of words is a space between two spelled words. -/
theorem Spells.split (first second : String) {phrase : String} {cs : List Char}
    (h : Spells phrase cs) (hphrase : phrase.toList = first.toList ++ ' ' :: second.toList) :
    ∃ xs ys, cs = xs ++ ' ' :: ys ∧ Spells first xs ∧ Spells second ys := by
  rw [Spells, hphrase, List.map_eq_append_iff] at h
  obtain ⟨xs, zs, rfl, hxs, hzs⟩ := h
  obtain ⟨c, ys, rfl, hc, hys⟩ := List.map_eq_cons_iff.1 hzs
  have hspace : c = ' ' := eq_of_toLower_eq hc (by decide)
  exact ⟨xs, ys, by rw [hspace], hxs, hys⟩

/-- A spelled sign is the sign. -/
theorem Spells.eq_singleton {word : String} {cs : List Char} (h : Spells word cs) (c : Char)
    (hword : word.toList = [c]) (hc : c.toNat < 97) : cs = [c] := by
  rw [Spells, hword] at h
  obtain ⟨d, rfl, hd⟩ := List.map_eq_singleton_iff.1 h
  rw [eq_of_toLower_eq hd hc]

/-! ### Phrases -/

/-- A text that does not start with a blank. -/
def StartsSolid (cs : List Char) : Prop := ∀ c ∈ cs.head?, isBlank c = false

instance (cs : List Char) : Decidable (StartsSolid cs) :=
  decidable_of_iff (∀ c ∈ cs.head?.toList, isBlank c = false) (by simp [StartsSolid])

/-- A text that stands on a line between two spaces: it is not empty, has no line break and has no
blanks at its ends. -/
structure IsPhrase (cs : List Char) : Prop where
  ne_nil : cs ≠ []
  no_break : '\n' ∉ cs
  starts : StartsSolid cs
  ends : StartsSolid cs.reverse

theorem StartsSolid.append {cs : List Char} (h : StartsSolid cs) (hne : cs ≠ [])
    (rest : List Char) : StartsSolid (cs ++ rest) := by
  intro c hc
  rw [List.head?_append_of_ne_nil cs hne] at hc
  exact h c hc

theorem StartsSolid.dropWhile_eq {cs : List Char} (h : StartsSolid cs) :
    cs.dropWhile isBlank = cs := by
  cases cs with
  | nil => rfl
  | cons c cs => rw [List.dropWhile_cons_of_neg (by simp [h c rfl])]

theorem StartsSolid.takeWhile_eq {cs : List Char} (h : StartsSolid cs) :
    cs.takeWhile isBlank = [] := by
  cases cs with
  | nil => rfl
  | cons c cs => rw [List.takeWhile_cons_of_neg (by simp [h c rfl])]

/-- A text without blanks, if it is not empty, is a phrase. -/
theorem isPhrase_of_no_blank {cs : List Char} (hne : cs ≠ []) (h : ∀ c ∈ cs, isBlank c = false) :
    IsPhrase cs where
  ne_nil := hne
  no_break hmem := absurd (h _ hmem) (by decide)
  starts c hc := h c (List.mem_of_mem_head? hc)
  ends c hc := h c (List.mem_reverse.1 (List.mem_of_mem_head? hc))

/-- Two phrases with a space between them are a phrase. -/
theorem IsPhrase.append {xs ys : List Char} (hx : IsPhrase xs) (hy : IsPhrase ys) :
    IsPhrase (xs ++ ' ' :: ys) where
  ne_nil := by simp
  no_break := by simp [hx.no_break, hy.no_break]
  starts := hx.starts.append hx.ne_nil _
  ends := by
    have hrev : (xs ++ ' ' :: ys).reverse = ys.reverse ++ ' ' :: xs.reverse := by simp
    rw [hrev]
    exact hy.ends.append (by simpa using hy.ne_nil) _

/-- A text without blanks at its ends has no outer blanks. -/
theorem StartsSolid.strip_eq {cs : List Char} (hstart : StartsSolid cs)
    (hend : StartsSolid cs.reverse) : strip cs = cs := by
  rw [strip, hstart.dropWhile_eq, stripEnd, hend.dropWhile_eq, List.reverse_reverse]

theorem strip_eq_of_no_blank {cs : List Char} (h : ∀ c ∈ cs, isBlank c = false) : strip cs = cs :=
  StartsSolid.strip_eq (fun c hc => h c (List.mem_of_mem_head? hc))
    (fun c hc => h c (List.mem_reverse.1 (List.mem_of_mem_head? hc)))

/-- A phrase has no outer blanks. -/
theorem IsPhrase.strip_eq {cs : List Char} (h : IsPhrase cs) : strip cs = cs :=
  h.starts.strip_eq h.ends

/-- Blanks at the end are left out with those before them. -/
theorem stripEnd_append {blanks : List Char} (h : ∀ c ∈ blanks, isBlank c = true)
    (cs : List Char) : stripEnd (cs ++ blanks) = stripEnd cs := by
  rw [stripEnd, List.reverse_append, List.dropWhile_append_of_pos (by simpa using h)]
  rfl

/-- A text is itself without the blanks at its end, and those blanks. -/
theorem exists_stripEnd_append (cs : List Char) :
    ∃ blanks, (∀ c ∈ blanks, isBlank c = true) ∧ cs = stripEnd cs ++ blanks := by
  refine ⟨(cs.reverse.takeWhile isBlank).reverse, ?_, ?_⟩
  · intro c hc
    exact (List.mem_takeWhile_imp (by simpa using hc) : isBlank c = true)
  · rw [stripEnd, ← List.reverse_append, List.takeWhile_append_dropWhile, List.reverse_reverse]

/-- The rest of a line without line breaks is the whole of it. -/
theorem restOfLine?_eq {cs : List Char} (hne : cs ≠ []) (h : '\n' ∉ cs) :
    restOfLine? cs = some cs := by
  have hall : ∀ c ∈ cs, (c != '\n') = true := by
    intro c hc
    simpa using fun heq : c = '\n' => h (heq ▸ hc)
  have htake : cs.takeWhile (fun c => c != '\n') = cs := List.takeWhile_eq_self_iff.2 hall
  have hdrop : cs.dropWhile (fun c => c != '\n') = [] := List.dropWhile_eq_nil_iff.2 hall
  rw [restOfLine?, htake, hdrop]
  cases cs with
  | nil => exact absurd rfl hne
  | cons c cs => rfl

/-- A run of characters is cut off where the next one does not belong to it. -/
theorem cut_append {p : Char → Bool} {run rest : List Char} (hrun : ∀ c ∈ run, p c = true)
    (hrest : ∀ c ∈ rest.head?, p c = false) :
    (run ++ rest).takeWhile p = run ∧ (run ++ rest).dropWhile p = rest := by
  rw [List.takeWhile_append_of_pos hrun, List.dropWhile_append_of_pos hrun]
  cases rest with
  | nil => simp
  | cons c rest => simp [hrest c rfl]

theorem atEnd_iff {cs : List Char} : atEnd cs = true ↔ cs = [] ∨ cs = ['\n'] := by
  unfold atEnd
  split
  · simp
  · simp
  · rename_i hnil hbreak
    simp only [Bool.false_eq_true, false_iff, not_or]
    exact ⟨hnil, hbreak⟩

/-- **What is left of a line** is a text without line breaks that reaches to the end or to one last
line break. -/
theorem restOfLine?_eq_some_iff {cs line : List Char} :
    restOfLine? cs = some line ↔
      line ≠ [] ∧ '\n' ∉ line ∧ (cs = line ∨ cs = line ++ ['\n']) := by
  constructor
  · intro h
    have hcs : cs = cs.takeWhile (fun c => c != '\n') ++ cs.dropWhile (fun c => c != '\n') :=
      List.takeWhile_append_dropWhile.symm
    rw [restOfLine?] at h
    split at h
    · simp at h
    · rename_i hne
      split at h
      · rename_i hend
        rw [Option.some.injEq] at h
        rw [h] at hne hcs
        refine ⟨hne, ?_, ?_⟩
        · intro hmem
          rw [← h] at hmem
          simpa using List.mem_takeWhile_imp hmem
        · rcases atEnd_iff.1 hend with hdrop | hdrop
          · left
            rwa [hdrop, List.append_nil] at hcs
          · right
            rwa [hdrop] at hcs
      · simp at h
  · rintro ⟨hne, hbreak, rfl | rfl⟩
    · exact restOfLine?_eq hne hbreak
    · have hall : ∀ c ∈ line, (c != '\n') = true := by
        intro c hc
        simpa using fun heq : c = '\n' => hbreak (heq ▸ hc)
      have hstop : ∀ c ∈ ['\n'].head?, (c != '\n') = false := by simp
      obtain ⟨htake, hdrop⟩ := cut_append hall hstop
      rw [restOfLine?, htake, hdrop]
      cases line with
      | nil => exact absurd rfl hne
      | cons c line => rfl

/-- The digits at the start of a text. -/
theorem digits?_append {ds rest : List Char} (hne : ds ≠ []) (hds : ∀ d ∈ ds, d.isDigit = true)
    (hrest : ∀ c ∈ rest.head?, c.isDigit = false) : digits? (ds ++ rest) = some (ds, rest) := by
  obtain ⟨htake, hdrop⟩ := cut_append hds hrest
  rw [digits?, htake, hdrop]
  cases ds with
  | nil => exact absurd rfl hne
  | cons d ds => rfl

/-- What is found at the start of a text is digits, at least one. -/
theorem digits?_eq_some {cs ds rest : List Char} (h : digits? cs = some (ds, rest)) :
    cs = ds ++ rest ∧ ds ≠ [] ∧ ∀ d ∈ ds, d.isDigit = true := by
  have hcs : cs.takeWhile Char.isDigit ++ cs.dropWhile Char.isDigit = cs :=
    List.takeWhile_append_dropWhile
  rw [digits?] at h
  split at h
  · simp at h
  · rename_i hne
    simp only [Option.some.injEq, Prod.mk.injEq] at h
    obtain ⟨rfl, rfl⟩ := h
    exact ⟨hcs.symm, hne, fun d hd => List.mem_takeWhile_imp hd⟩

/-! ### Recognisers behind blanks -/

/-- No recogniser behind blanks finds anything on a text that starts with none. -/
theorem afterBlanks_eq_none {α : Type} (next : List Char → Option α) {cs : List Char}
    (h : StartsSolid cs) : afterBlanks next cs = none := by
  cases cs with
  | nil => rfl
  | cons c cs => simp [afterBlanks, h c rfl]

/-- Behind one space, a recogniser stands at the text that starts there. -/
theorem afterBlanks_space {α : Type} (next : List Char → Option α) {cs : List Char}
    (h : StartsSolid cs) : afterBlanks next (' ' :: cs) = next cs := by
  have hspace : isBlank ' ' = true := rfl
  rw [afterBlanks, if_pos hspace, afterBlanks_eq_none next h]

/-- A recogniser behind blanks finds nothing exactly if it finds nothing behind any of them. -/
theorem afterBlanks_eq_none_iff {α : Type} {next : List Char → Option α} {cs : List Char} :
    afterBlanks next cs = none ↔
      ∀ blanks rest, cs = blanks ++ rest → blanks ≠ [] → (∀ b ∈ blanks, isBlank b = true) →
        next rest = none := by
  induction cs with
  | nil =>
      simp only [afterBlanks, true_iff]
      intro blanks rest hcs hne
      exact absurd (List.append_eq_nil_iff.1 hcs.symm).1 hne
  | cons c cs ih =>
      rw [afterBlanks]
      constructor
      · intro h blanks rest hcs hne hall
        cases blanks with
        | nil => exact absurd rfl hne
        | cons b blanks =>
            rw [List.cons_append, List.cons.injEq] at hcs
            obtain ⟨rfl, rfl⟩ := hcs
            obtain ⟨hb, hall⟩ := List.forall_mem_cons.1 hall
            rw [if_pos hb] at h
            cases hmore : afterBlanks next (blanks ++ rest) with
            | some found => simp [hmore] at h
            | none =>
                simp only [hmore] at h
                cases blanks with
                | nil => exact h
                | cons b' blanks => exact ih.1 hmore _ _ rfl (List.cons_ne_nil _ _) hall
      · intro h
        split
        · rename_i hc
          have hone := h [c] cs rfl (List.cons_ne_nil _ _) (List.forall_mem_singleton.2 hc)
          have hmore : afterBlanks next cs = none := by
            refine ih.2 fun blanks rest hcs _ hall => ?_
            exact h (c :: blanks) rest (by rw [hcs]; rfl) (List.cons_ne_nil _ _)
              (List.forall_mem_cons.2 ⟨hc, hall⟩)
          simp only [hmore, hone]
        · rfl

/-- **What a recogniser behind blanks finds, it finds behind as many of them as it can.** -/
theorem afterBlanks_longest {α : Type} {next : List Char → Option α} {cs : List Char} {found : α}
    (h : afterBlanks next cs = some found) :
    ∃ blanks rest, cs = blanks ++ rest ∧ blanks ≠ [] ∧ (∀ b ∈ blanks, isBlank b = true) ∧
      next rest = some found ∧
      ∀ blanks' rest' found', cs = blanks' ++ rest' → (∀ b ∈ blanks', isBlank b = true) →
        next rest' = some found' → blanks'.length ≤ blanks.length := by
  induction cs with
  | nil => simp [afterBlanks] at h
  | cons c cs ih =>
      rw [afterBlanks] at h
      split at h
      · rename_i hc
        cases hmore : afterBlanks next cs with
        | some found' =>
            rw [hmore] at h
            obtain ⟨blanks, rest, rfl, -, hall, hrest, hlongest⟩ := ih (hmore.trans h)
            refine ⟨c :: blanks, rest, rfl, List.cons_ne_nil c blanks,
              List.forall_mem_cons.2 ⟨hc, hall⟩, hrest, ?_⟩
            intro blanks' rest' found' hcs hall' hfound'
            cases blanks' with
            | nil => simp
            | cons b blanks' =>
                have hle := hlongest blanks' rest' found' (List.cons.inj hcs).2
                  (List.forall_mem_cons.1 hall').2 hfound'
                simpa using hle
        | none =>
            rw [hmore] at h
            refine ⟨[c], cs, rfl, List.cons_ne_nil c [], List.forall_mem_singleton.2 hc, h, ?_⟩
            intro blanks' rest' found' hcs hall' hfound'
            -- behind more blanks than one nothing is found
            rcases blanks' with _ | ⟨b, _ | ⟨b', blanks'⟩⟩
            · simp
            · simp
            · have hnone := afterBlanks_eq_none_iff.1 hmore (b' :: blanks') rest'
                (List.cons.inj hcs).2 (List.cons_ne_nil _ _) (List.forall_mem_cons.1 hall').2
              rw [hnone] at hfound'
              simp at hfound'
      · simp at h

/-- What a recogniser behind blanks finds, it finds behind some of them. -/
theorem afterBlanks_eq_some {α : Type} {next : List Char → Option α} {cs : List Char} {found : α}
    (h : afterBlanks next cs = some found) :
    ∃ blanks rest, cs = blanks ++ rest ∧ blanks ≠ [] ∧ (∀ b ∈ blanks, isBlank b = true) ∧
      next rest = some found := by
  obtain ⟨blanks, rest, hcs, hne, hall, hrest, -⟩ := afterBlanks_longest h
  exact ⟨blanks, rest, hcs, hne, hall, hrest⟩

/-- A recogniser behind any number of blanks finds nothing exactly if it finds nothing behind any of
them, nor at once. -/
theorem afterOptionalBlanks_eq_none_iff {α : Type} {next : List Char → Option α}
    {cs : List Char} :
    afterOptionalBlanks next cs = none ↔
      ∀ blanks rest, cs = blanks ++ rest → (∀ b ∈ blanks, isBlank b = true) →
        next rest = none := by
  rw [afterOptionalBlanks]
  constructor
  · intro h blanks rest hcs hall
    cases hmore : afterBlanks next cs with
    | some found => simp [hmore] at h
    | none =>
        simp only [hmore] at h
        cases blanks with
        | nil => rw [← h, hcs, List.nil_append]
        | cons b blanks =>
            exact afterBlanks_eq_none_iff.1 hmore _ _ hcs (List.cons_ne_nil _ _) hall
  · intro h
    have hmore : afterBlanks next cs = none :=
      afterBlanks_eq_none_iff.2 fun blanks rest hcs _ hall => h blanks rest hcs hall
    simp only [hmore]
    exact h [] cs rfl (by simp)

/-- What a recogniser behind any number of blanks finds, it finds behind as many of them as it
can. -/
theorem afterOptionalBlanks_longest {α : Type} {next : List Char → Option α} {cs : List Char}
    {found : α} (h : afterOptionalBlanks next cs = some found) :
    ∃ blanks rest, cs = blanks ++ rest ∧ (∀ b ∈ blanks, isBlank b = true) ∧
      next rest = some found ∧
      ∀ blanks' rest' found', cs = blanks' ++ rest' → (∀ b ∈ blanks', isBlank b = true) →
        next rest' = some found' → blanks'.length ≤ blanks.length := by
  rw [afterOptionalBlanks] at h
  cases hmore : afterBlanks next cs with
  | some found' =>
      rw [hmore] at h
      obtain ⟨blanks, rest, hcs, -, hall, hrest, hlongest⟩ := afterBlanks_longest (hmore.trans h)
      exact ⟨blanks, rest, hcs, hall, hrest, hlongest⟩
  | none =>
      rw [hmore] at h
      refine ⟨[], cs, rfl, by simp, h, ?_⟩
      intro blanks' rest' found' hcs hall hfound'
      cases blanks' with
      | nil => simp
      | cons b blanks' =>
          have hnone := afterBlanks_eq_none_iff.1 hmore _ _ hcs (List.cons_ne_nil _ _) hall
          rw [hnone] at hfound'
          simp at hfound'

/-- The same for a recogniser behind any number of blanks. -/
theorem afterOptionalBlanks_eq_some {α : Type} {next : List Char → Option α} {cs : List Char}
    {found : α} (h : afterOptionalBlanks next cs = some found) :
    ∃ blanks rest, cs = blanks ++ rest ∧ (∀ b ∈ blanks, isBlank b = true) ∧
      next rest = some found := by
  obtain ⟨blanks, rest, hcs, hall, hrest, -⟩ := afterOptionalBlanks_longest h
  exact ⟨blanks, rest, hcs, hall, hrest⟩

/-- What follows a keyword and a space is the phrase that stands there. -/
theorem IsPhrase.argument?_eq {cs : List Char} (h : IsPhrase cs) :
    argument? (' ' :: cs) = some cs := by
  rw [argument?, afterBlanks_space restOfLine? h.starts, restOfLine?_eq h.ne_nil h.no_break,
    Option.map_some, h.strip_eq]

/-- A spelled keyword is passed over. -/
theorem Spells.afterWord_append {α : Type} {word : String} {cs : List Char} (h : Spells word cs)
    (next : List Char → Option α) (rest : List Char) :
    afterWord word next (cs ++ rest) = next rest := by
  rw [afterWord, h.dropWord?_append]

/-- A spelled keyword is not passed over as another one. -/
theorem Spells.afterWord_eq_none {α : Type} {word other : String} {cs : List Char}
    (h : Spells word cs) (hword : isVisible word = true)
    (hclash : clash other.toList word.toList = true) (next : List Char → Option α)
    (rest : List Char) : afterWord other next (cs ++ rest) = none := by
  rw [afterWord, h.dropWord?_eq_none hword hclash]

/-- A spelled keyword is a phrase. -/
theorem Spells.isPhrase {word : String} {cs : List Char} (h : Spells word cs)
    (hword : IsWord word) : IsPhrase cs := by
  apply isPhrase_of_no_blank
  · rintro rfl
    exact hword.ne_empty (String.toList_inj.1 h.symm)
  · intro c hc
    exact h.isBlank_eq_false hword.visible hc

/-- Two spelled keywords with a space between them are a phrase. -/
theorem Spells.isPhrase_pair (first second : String) {phrase : String} {cs : List Char}
    (h : Spells phrase cs) (hphrase : phrase.toList = first.toList ++ ' ' :: second.toList)
    (hfirst : IsWord first) (hsecond : IsWord second) : IsPhrase cs := by
  obtain ⟨xs, ys, rfl, hx, hy⟩ := h.split first second hphrase
  exact (hx.isPhrase hfirst).append (hy.isPhrase hsecond)

/-! ### The shortest left part -/

/-- A text is not split exactly if the separator is found behind no left part on its line. -/
theorem splitAt?_eq_none_iff {α : Type} {separator : List Char → Option α} {cs : List Char} :
    splitAt? separator cs = none ↔
      ∀ left rest, cs = left ++ rest → left ≠ [] → '\n' ∉ left → separator rest = none := by
  induction cs with
  | nil =>
      simp only [splitAt?, true_iff]
      intro left rest hcs hne
      exact absurd (List.append_eq_nil_iff.1 hcs.symm).1 hne
  | cons c cs ih =>
      rw [splitAt?]
      constructor
      · intro h left rest hcs hne hbreak
        cases left with
        | nil => exact absurd rfl hne
        | cons d left =>
            rw [List.cons_append, List.cons.injEq] at hcs
            obtain ⟨rfl, rfl⟩ := hcs
            rw [List.mem_cons, not_or] at hbreak
            rw [if_neg (Ne.symm hbreak.1)] at h
            cases hhere : separator (left ++ rest) with
            | some found => simp [hhere] at h
            | none =>
                cases hmore : splitAt? separator (left ++ rest) with
                | some pair => simp [hhere, hmore] at h
                | none =>
                    cases left with
                    | nil => exact hhere
                    | cons d' left => exact ih.1 hmore _ _ rfl (List.cons_ne_nil _ _) hbreak.2
      · intro h
        split
        · rfl
        · rename_i hc
          have hone : '\n' ∉ [c] := by simpa using Ne.symm hc
          have hmore : splitAt? separator cs = none := by
            refine ih.2 fun left rest hcs _ hbreak => ?_
            exact h (c :: left) rest (by rw [hcs]; rfl) (List.cons_ne_nil _ _)
              (by simpa [Ne.symm hc] using hbreak)
          simp only [h [c] cs rfl (List.cons_ne_nil _ _) hone, hmore]

/-- **A text is split behind the shortest left part**, on its line, behind which the separator is
found. -/
theorem splitAt?_shortest {α : Type} {separator : List Char → Option α} {cs left : List Char}
    {found : α} (h : splitAt? separator cs = some (left, found)) :
    left ≠ [] ∧ '\n' ∉ left ∧ ∃ rest, cs = left ++ rest ∧ separator rest = some found ∧
      ∀ left' rest' found', cs = left' ++ rest' → left' ≠ [] → separator rest' = some found' →
        left.length ≤ left'.length := by
  induction cs generalizing left with
  | nil => simp [splitAt?] at h
  | cons c cs ih =>
      rw [splitAt?] at h
      split at h
      · simp at h
      · rename_i hc
        cases hhere : separator cs with
        | some found' =>
            simp only [hhere, Option.some.injEq, Prod.mk.injEq] at h
            obtain ⟨rfl, rfl⟩ := h
            refine ⟨List.cons_ne_nil _ _, by simpa using Ne.symm hc, cs, rfl, hhere, ?_⟩
            intro left' rest' found' _ hne _
            exact List.length_pos_iff.2 hne
        | none =>
            cases hmore : splitAt? separator cs with
            | none => simp [hhere, hmore] at h
            | some pair =>
                obtain ⟨tail, found'⟩ := pair
                simp only [hhere, hmore, Option.some.injEq, Prod.mk.injEq] at h
                obtain ⟨rfl, rfl⟩ := h
                obtain ⟨hne, hbreak, rest, rfl, hrest, hshortest⟩ := ih hmore
                refine ⟨List.cons_ne_nil _ _, by simpa [Ne.symm hc] using hbreak, rest, rfl, hrest,
                  ?_⟩
                intro left' rest' found'' hcs _ hfound
                -- one character alone is no left part here
                rcases left' with _ | ⟨d, _ | ⟨d', left'⟩⟩
                · contradiction
                · have hcs' : tail ++ rest = rest' := (List.cons.inj hcs).2
                  rw [← hcs', hhere] at hfound
                  simp at hfound
                · have hle := hshortest (d' :: left') rest' found'' (List.cons.inj hcs).2
                    (List.cons_ne_nil _ _) hfound
                  simpa using hle

end Text

end Waymark
