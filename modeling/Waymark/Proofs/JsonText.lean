/-
**JSON texts are read back.**

The writer and the reader of JSON texts are separate programs, and the writer has a choice that the
reader must undo: all on one line, or every item on a line of its own behind any number of spaces.
This module shows that whatever is written is read back, in every layout, at every depth.

The reader is first described by rules, one for each way in which a value, an item or a member can
begin; from there on its definition is not looked at again.  Each rule leaves a text, so that a
written value is read back with anything behind it that does not go on with a number.

A value cannot be read back if a whole number in it is longer than the reader takes, or if an object
has a key twice; these are the only exceptions.

Main definitions:

* `Json.ReadsValue`, `Json.ReadsItems`, `Json.ReadsMembers` — what is read, and what is left;
* `Json.IsReadable` — values that can be read back.

Main results:

* `Json.scanText?_writeChar`, `Json.joinHalves_codes` — characters are written as codes that join to
  them again;
* `Json.readsValue_writeAt` — a written value is read back, whatever follows;
* `Json.read_write` — **a written text is read back in every layout**.
-/
import Waymark.Json.Writer
import Waymark.Proofs.Numeral

set_option relaxedAutoImplicit false
set_option autoImplicit false

namespace Waymark

namespace Json

/-! ### Texts -/

/-- The codes of a character: one, or the two halves of a pair outside the basic plane. -/
def codesOf (c : Char) : List Nat :=
  if c.toNat < 0x10000 then [c.toNat]
  else [0xD800 + (c.toNat - 0x10000) / 0x400, 0xDC00 + (c.toNat - 0x10000) % 0x400]

theorem hexValue?_digitChar_mod (n : Nat) : hexValue? (Nat.digitChar (n % 16)) = some (n % 16) := by
  have hall : ∀ d < 16, hexValue? (Nat.digitChar d) = some d := by decide
  exact hall (n % 16) (Nat.mod_lt n (by decide))

/-- Four hexadecimal digits are read back. -/
theorem scanText?_codeEscape {n : Nat} (h : n < 0x10000) (rest : List Char) :
    scanText? (codeEscape n ++ rest) =
      (scanText? rest).map fun found => (n :: found.1, found.2) := by
  have hhex : Text.hex 4 n = [Nat.digitChar (n / 16 / 16 / 16 % 16),
      Nat.digitChar (n / 16 / 16 % 16), Nat.digitChar (n / 16 % 16), Nat.digitChar (n % 16)] := rfl
  have hvalue : hexValue4? (Nat.digitChar (n / 16 / 16 / 16 % 16))
      (Nat.digitChar (n / 16 / 16 % 16)) (Nat.digitChar (n / 16 % 16)) (Nat.digitChar (n % 16)) =
        some n := by
    simp only [hexValue4?, hexValue?_digitChar_mod]
    simp only [Option.some.injEq]
    omega
  rw [codeEscape, hhex]
  simp only [List.cons_append, List.nil_append]
  rw [scanText?, hvalue]
  cases scanText? rest <;> rfl

/-- A character that is written as itself. -/
theorem scanText?_plain {c : Char} (hquote : c ≠ '"') (hslash : c ≠ '\\') (hcode : 0x20 ≤ c.toNat)
    (rest : List Char) :
    scanText? (c :: rest) = (scanText? rest).map fun found => (c.toNat :: found.1, found.2) := by
  have hplain : ¬ (c = '\\' ∨ c.toNat < 0x20) := by
    rintro (h | h)
    · exact hslash h
    · omega
  rw [scanText?]
  · rw [if_neg hplain]
    cases scanText? rest <;> rfl
  · exact hquote
  · intro a b d e more h
    exact absurd h hslash
  · intro d more h
    exact absurd h hslash

/-- A short escape stands for its character. -/
theorem scanText?_short {c d : Char} (hc : c ≠ 'u') (h : shortEscape? c = some d)
    (rest : List Char) :
    scanText? ('\\' :: c :: rest) =
      (scanText? rest).map fun found => (d.toNat :: found.1, found.2) := by
  rw [scanText?]
  · rw [h]
    cases scanText? rest <;> rfl
  · intro a b e f more hmore _
    exact absurd hmore hc

/-- **A written character is scanned as its codes.** -/
theorem scanText?_writeChar (c : Char) (rest : List Char) :
    scanText? (writeChar c ++ rest) =
      (scanText? rest).map fun found => (codesOf c ++ found.1, found.2) := by
  rw [writeChar]
  -- seven characters have a short escape
  iterate 7
    split
    · rename_i h
      rw [h]
      exact scanText?_short (by decide) rfl rest
  split
  · rename_i hquote hslash _ _ _ _ _ h
    rw [codesOf, if_pos (by omega)]
    exact scanText?_plain hquote hslash h.1 rest
  split
  · rename_i h
    rw [codesOf, if_pos h]
    exact scanText?_codeEscape h rest
  · rename_i h
    have hbound : c.toNat < 0x110000 := by
      rcases c.valid with hlow | hhigh
      · exact Nat.lt_trans hlow (by decide)
      · exact hhigh.2
    rw [codesOf, if_neg h]
    simp only [List.append_assoc]
    rw [scanText?_codeEscape (by omega), scanText?_codeEscape (by omega)]
    cases scanText? rest <;> rfl

/-- The codes of a character join to it again, whatever codes follow. -/
theorem joinHalves_codesOf (c : Char) (codes : List Nat) :
    joinHalves (codesOf c ++ codes) = c :: joinHalves codes := by
  have hvalid : c.toNat < 0xD800 ∨ (0xDFFF < c.toNat ∧ c.toNat < 0x110000) := c.valid
  rw [codesOf]
  split
  · -- a character of the basic plane is no half of a pair
    have hhigh : isHighHalf c.toNat = false := by
      simp only [isHighHalf, Bool.and_eq_false_iff, decide_eq_false_iff_not]
      omega
    have hlow : isLowHalf c.toNat = false := by
      simp only [isLowHalf, Bool.and_eq_false_iff, decide_eq_false_iff_not]
      omega
    have hchar : charOf c.toNat = c := by
      simp [charOf, hhigh, hlow]
    cases codes with
    | nil => simp [joinHalves, hchar]
    | cons code codes => simp [joinHalves, hhigh, hchar]
  · have hhigh : isHighHalf (0xD800 + (c.toNat - 0x10000) / 0x400) = true := by
      simp only [isHighHalf, Bool.and_eq_true, decide_eq_true_eq]
      omega
    have hlow : isLowHalf (0xDC00 + (c.toNat - 0x10000) % 0x400) = true := by
      simp only [isLowHalf, Bool.and_eq_true, decide_eq_true_eq]
      omega
    have hcode : 0x10000 + (0xD800 + (c.toNat - 0x10000) / 0x400 - 0xD800) * 0x400 +
        (0xDC00 + (c.toNat - 0x10000) % 0x400 - 0xDC00) = c.toNat := by
      omega
    rw [List.cons_append, List.cons_append, List.nil_append, joinHalves, hhigh, hlow, hcode,
      Char.ofNat_toNat]
    rfl

/-- **The codes of a text join to it again.** -/
theorem joinHalves_codes (cs : List Char) : joinHalves (cs.flatMap codesOf) = cs := by
  induction cs with
  | nil => rfl
  | cons c cs ih => rw [List.flatMap_cons, joinHalves_codesOf, ih]

/-- A written text is scanned up to its closing quote. -/
theorem scanText?_writeText (cs rest : List Char) :
    scanText? (cs.flatMap writeChar ++ '"' :: rest) = some (cs.flatMap codesOf, rest) := by
  induction cs with
  | nil => simp [scanText?]
  | cons c cs ih =>
      rw [List.flatMap_cons, List.append_assoc, scanText?_writeChar, ih, List.flatMap_cons]
      rfl

/-! ### What is read, and what is left -/

/-- A value is read at the start of a text. -/
def ReadsValue (cs : List Char) (value : Json) (rest : List Char) : Prop :=
  ∃ h, readValue cs = .ok (value, ⟨rest, h⟩)

/-- The items of an array are read at the start of a text, up to its closing bracket. -/
def ReadsItems (cs : List Char) (items : List Json) (rest : List Char) : Prop :=
  ∃ h, readItems cs = .ok (items, ⟨rest, h⟩)

/-- The members of an object are read at the start of a text, up to its closing brace, and added to
those read before. -/
def ReadsMembers (before : List (String × Json)) (cs : List Char) (members : List (String × Json))
    (rest : List Char) : Prop :=
  ∃ h, readMembers before cs = .ok (members, ⟨rest, h⟩)

theorem readsValue_text {cs rest : List Char} {codes : List Nat}
    (h : scanText? cs = some (codes, rest)) :
    ReadsValue ('"' :: cs) (.text (String.ofList (joinHalves codes))) rest := by
  have hlength := length_lt_of_scanText? h
  refine ⟨by rw [List.length_cons]; omega, ?_⟩
  rw [readValue]
  split
  · rename_i hnone
    simp [h] at hnone
  · rename_i codes' rest' hsome
    rw [h, Option.some.injEq, Prod.mk.injEq] at hsome
    obtain ⟨rfl, rfl⟩ := hsome
    rfl

/-- A character that starts neither a text nor an array nor an object. -/
def IsSimple (c : Char) : Prop := c ≠ '"' ∧ c ≠ '[' ∧ c ≠ '\x7b'

instance (c : Char) : Decidable (IsSimple c) :=
  inferInstanceAs (Decidable (c ≠ '"' ∧ c ≠ '[' ∧ c ≠ '\x7b'))

theorem readsValue_name {c : Char} {cs rest : List Char} {value : Json} (hc : IsSimple c)
    (h : scanName? (c :: cs) = some (value, rest)) : ReadsValue (c :: cs) value rest := by
  obtain ⟨hquote, hbracket, hbrace⟩ := hc
  refine ⟨length_lt_of_scanName? h, ?_⟩
  rw [readValue.eq_5 c cs hquote hbracket hbrace]
  split
  · rename_i value' rest' hsome
    rw [h, Option.some.injEq, Prod.mk.injEq] at hsome
    obtain ⟨rfl, rfl⟩ := hsome
    rfl
  · rename_i hnone
    simp [h] at hnone

theorem readsValue_number {c : Char} {cs rest : List Char} {token : NumberToken} {value : Json}
    (hc : IsSimple c) (hname : scanName? (c :: cs) = none)
    (h : scanNumber? (c :: cs) = some (token, rest)) (hvalue : token.value = .ok value) :
    ReadsValue (c :: cs) value rest := by
  obtain ⟨hquote, hbracket, hbrace⟩ := hc
  refine ⟨length_lt_of_scanNumber? h, ?_⟩
  rw [readValue.eq_5 c cs hquote hbracket hbrace]
  split
  · rename_i value' rest' hsome
    simp [hname] at hsome
  · split
    · rename_i hnone
      simp [h] at hnone
    · rename_i token' rest' hsome
      rw [h, Option.some.injEq, Prod.mk.injEq] at hsome
      obtain ⟨rfl, rfl⟩ := hsome
      rw [hvalue]

theorem readsValue_array_nil {cs rest : List Char} (h : skipSpace cs = ']' :: rest) :
    ReadsValue ('[' :: cs) (.array []) rest := by
  have hlength := length_skipSpace_le cs
  rw [h, List.length_cons] at hlength
  refine ⟨by rw [List.length_cons]; omega, ?_⟩
  rw [readValue]
  split
  · rename_i rest' hrest
    rw [h, List.cons.injEq] at hrest
    obtain ⟨-, rfl⟩ := hrest
    rfl
  · rename_i hne
    exact absurd h (hne rest)

theorem readsValue_array {cs rest : List Char} {items : List Json}
    (hopen : ∀ more, skipSpace cs ≠ ']' :: more) (h : ReadsItems (skipSpace cs) items rest) :
    ReadsValue ('[' :: cs) (.array items) rest := by
  obtain ⟨hlt, h⟩ := h
  have hlength := length_skipSpace_le cs
  refine ⟨by rw [List.length_cons]; omega, ?_⟩
  rw [readValue]
  split
  · rename_i rest' hrest
    exact absurd hrest (hopen rest')
  · rw [h]

theorem readsItems_last {cs rest rest' : List Char} {item : Json} (h : ReadsValue cs item rest)
    (hclose : skipSpace rest = ']' :: rest') : ReadsItems cs [item] rest' := by
  obtain ⟨hlt, h⟩ := h
  have hlength := length_skipSpace_le rest
  rw [hclose, List.length_cons] at hlength
  refine ⟨by omega, ?_⟩
  rw [readItems, h]
  simp only
  split
  · rename_i more hmore
    rw [hclose, List.cons.injEq] at hmore
    obtain ⟨-, rfl⟩ := hmore
    rfl
  · rename_i more hmore
    simp [hclose] at hmore
  · rename_i hne _
    exact absurd hclose (hne rest')

theorem readsItems_cons {cs rest rest' rest'' : List Char} {item : Json} {items : List Json}
    (h : ReadsValue cs item rest) (hcomma : skipSpace rest = ',' :: rest')
    (hitems : ReadsItems (skipSpace rest') items rest'') :
    ReadsItems cs (item :: items) rest'' := by
  obtain ⟨hlt, h⟩ := h
  obtain ⟨hlt', hitems⟩ := hitems
  have hlength := length_skipSpace_le rest
  have hlength' := length_skipSpace_le rest'
  rw [hcomma, List.length_cons] at hlength
  refine ⟨by omega, ?_⟩
  rw [readItems, h]
  simp only
  split
  · rename_i more hmore
    simp [hcomma] at hmore
  · rename_i more hmore
    rw [hcomma, List.cons.injEq] at hmore
    obtain ⟨-, rfl⟩ := hmore
    rw [hitems]
  · rename_i _ hne
    exact absurd hcomma (hne rest')

theorem readsValue_object_nil {cs rest : List Char} (h : skipSpace cs = '\x7d' :: rest) :
    ReadsValue ('\x7b' :: cs) (.object []) rest := by
  have hlength := length_skipSpace_le cs
  rw [h, List.length_cons] at hlength
  refine ⟨by rw [List.length_cons]; omega, ?_⟩
  rw [readValue]
  split
  · rename_i rest' hrest
    rw [h, List.cons.injEq] at hrest
    obtain ⟨-, rfl⟩ := hrest
    rfl
  · rename_i hne
    exact absurd h (hne rest)

theorem readsValue_object {cs rest : List Char} {members : List (String × Json)}
    (hopen : ∀ more, skipSpace cs ≠ '\x7d' :: more)
    (h : ReadsMembers [] (skipSpace cs) members rest) :
    ReadsValue ('\x7b' :: cs) (.object members) rest := by
  obtain ⟨hlt, h⟩ := h
  have hlength := length_skipSpace_le cs
  refine ⟨by rw [List.length_cons]; omega, ?_⟩
  rw [readValue]
  split
  · rename_i rest' hrest
    exact absurd hrest (hopen rest')
  · rw [h]

section Members

variable {before : List (String × Json)} {cs rest₁ rest₂ rest₃ rest₄ : List Char}
  {codes : List Nat} {value : Json} (hkey : scanText? cs = some (codes, rest₁))
  (hcolon : skipSpace rest₁ = ':' :: rest₂) (hvalue : ReadsValue (skipSpace rest₂) value rest₃)

include hkey hcolon hvalue

theorem readsMembers_last (hclose : skipSpace rest₃ = '\x7d' :: rest₄) :
    ReadsMembers before ('"' :: cs) (insertMember (String.ofList (joinHalves codes)) value before)
      rest₄ := by
  obtain ⟨hlt, hvalue⟩ := hvalue
  have h₀ := length_lt_of_scanText? hkey
  have h₁ := length_skipSpace_le rest₁
  have h₂ := length_skipSpace_le rest₂
  have h₃ := length_skipSpace_le rest₃
  rw [hcolon, List.length_cons] at h₁
  rw [hclose, List.length_cons] at h₃
  refine ⟨by rw [List.length_cons]; omega, ?_⟩
  rw [readMembers]
  split
  · rename_i hnone
    simp [hkey] at hnone
  rename_i codes' rest₁' hsome
  rw [hkey, Option.some.injEq, Prod.mk.injEq] at hsome
  obtain ⟨rfl, rfl⟩ := hsome
  split
  · rename_i rest₂' hmore
    rw [hcolon, List.cons.injEq] at hmore
    obtain ⟨-, rfl⟩ := hmore
    rw [hvalue]
    simp only
    split
    · rename_i rest₄' hmore
      rw [hclose, List.cons.injEq] at hmore
      obtain ⟨-, rfl⟩ := hmore
      rfl
    · rename_i rest₄' hmore
      simp [hclose] at hmore
    · rename_i hne _
      exact absurd hclose (hne rest₄)
  · rename_i hne
    exact absurd hcolon (hne rest₂)

theorem readsMembers_cons {members : List (String × Json)} {rest₅ : List Char}
    (hcomma : skipSpace rest₃ = ',' :: rest₄)
    (hmembers : ReadsMembers (insertMember (String.ofList (joinHalves codes)) value before)
      (skipSpace rest₄) members rest₅) :
    ReadsMembers before ('"' :: cs) members rest₅ := by
  obtain ⟨hlt, hvalue⟩ := hvalue
  obtain ⟨hlt', hmembers⟩ := hmembers
  have h₀ := length_lt_of_scanText? hkey
  have h₁ := length_skipSpace_le rest₁
  have h₂ := length_skipSpace_le rest₂
  have h₃ := length_skipSpace_le rest₃
  have h₄ := length_skipSpace_le rest₄
  rw [hcolon, List.length_cons] at h₁
  rw [hcomma, List.length_cons] at h₃
  refine ⟨by rw [List.length_cons]; omega, ?_⟩
  rw [readMembers]
  split
  · rename_i hnone
    simp [hkey] at hnone
  rename_i codes' rest₁' hsome
  rw [hkey, Option.some.injEq, Prod.mk.injEq] at hsome
  obtain ⟨rfl, rfl⟩ := hsome
  split
  · rename_i rest₂' hmore
    rw [hcolon, List.cons.injEq] at hmore
    obtain ⟨-, rfl⟩ := hmore
    rw [hvalue]
    simp only
    split
    · rename_i rest₄' hmore
      simp [hcomma] at hmore
    · rename_i rest₄' hmore
      rw [hcomma, List.cons.injEq] at hmore
      obtain ⟨-, rfl⟩ := hmore
      rw [hmembers]
    · rename_i _ hne
      exact absurd hcomma (hne rest₄)
  · rename_i hne
    exact absurd hcolon (hne rest₂)

end Members

/-! ### Blanks between values -/

/-- A text that does not start with a blank, as every written value. -/
def StartsSolid (cs : List Char) : Prop := ∀ c ∈ cs.head?, isSpace c = false

theorem skipSpace_append {blanks cs : List Char} (hblanks : ∀ c ∈ blanks, isSpace c = true)
    (hcs : StartsSolid cs) : skipSpace (blanks ++ cs) = cs :=
  (Text.cut_append hblanks hcs).2

theorem isSpace_of_mem_lineBreak (layout : Layout) (level : Nat) :
    ∀ c ∈ layout.lineBreak level, isSpace c = true := by
  intro c hc
  cases layout with
  | line => simp [Layout.lineBreak] at hc
  | lines step =>
      rw [Layout.lineBreak, List.mem_cons] at hc
      rcases hc with rfl | hc
      · rfl
      · rw [List.eq_of_mem_replicate hc]
        rfl

/-- What separates two items is a comma and blanks. -/
theorem exists_separator_eq (layout : Layout) (level : Nat) :
    ∃ blanks, layout.separator level = ',' :: blanks ∧ ∀ c ∈ blanks, isSpace c = true := by
  cases layout with
  | line => exact ⟨[' '], rfl, by decide⟩
  | lines step => exact ⟨_, rfl, isSpace_of_mem_lineBreak _ level⟩

/-- Blanks and a closing bracket do not go on with a number. -/
theorem ends_lineBreak (layout : Layout) (level : Nat) {c : Char} (hc : c = ']' ∨ c = '\x7d')
    (rest : List Char) : Numeral.Ends (layout.lineBreak level ++ c :: rest) := by
  intro d hd
  cases layout with
  | line =>
      simp only [Layout.lineBreak, List.nil_append, List.head?_cons, Option.mem_def,
        Option.some.injEq] at hd
      subst hd
      rcases hc with rfl | rfl <;> decide
  | lines step =>
      simp only [Layout.lineBreak, List.cons_append, List.head?_cons, Option.mem_def,
        Option.some.injEq] at hd
      subst hd
      decide

theorem ends_comma (rest : List Char) : Numeral.Ends (',' :: rest) := by
  rintro c ⟨rfl⟩
  decide

/-! ### Numbers -/

/-- No name starts with a digit, and none goes on with one behind a minus sign. -/
theorem scanName?_digit {c : Char} (h : c.isDigit = true) (cs : List Char) :
    scanName? (c :: cs) = none ∧ scanName? ('-' :: c :: cs) = none := by
  have hne : ∀ d, d.isDigit = false → d ≠ c := by
    rintro d hd rfl
    rw [h] at hd
    simp at hd
  have hn := hne 'n' (by decide)
  have ht := hne 't' (by decide)
  have hf := hne 'f' (by decide)
  have hN := hne 'N' (by decide)
  have hI := hne 'I' (by decide)
  have hminus := hne '-' (by decide)
  constructor
  · simp [scanName?, names, dropExact?, hn, ht, hf, hN, hI, hminus]
  · simp [scanName?, names, dropExact?, hI]

theorem isSimple_of_isDigit {c : Char} (h : c.isDigit = true) : IsSimple c := by
  refine ⟨?_, ?_, ?_⟩ <;> (rintro rfl; simp at h)

/-- **A number in parts is read back**, behind its sign. -/
theorem readsValue_parts {p : Numeral.Parts} (hp : p.IsPlain) (negative : Bool) {value : Json}
    (hvalue : NumberToken.value ⟨negative, p.whole, p.tail⟩ = .ok value) {rest : List Char}
    (hrest : Numeral.Ends rest) :
    ReadsValue ((if negative then ['-'] else []) ++ p.text ++ rest) value rest := by
  obtain ⟨c, cs, htext, hc⟩ := hp.exists_text
  have hscan := hp.scanUnsigned? negative hrest
  obtain ⟨hname, hname'⟩ := scanName?_digit hc (cs ++ rest)
  rw [htext, List.cons_append] at hscan
  cases negative with
  | true =>
      rw [htext]
      exact readsValue_number (by decide) hname' hscan hvalue
  | false =>
      rw [htext]
      refine readsValue_number (isSimple_of_isDigit hc) hname ?_ hvalue
      rw [← hscan]
      rw [scanNumber?]
      · rfl
      · rintro rest' ⟨⟩
        simp at hc

/-- A whole number is read back, unless it has too many digits. -/
theorem readsValue_int {n : Int} (h : (Numeral.digitsOf n.natAbs).length ≤ Numeral.maxDigits)
    {rest : List Char} (hrest : Numeral.Ends rest) :
    ReadsValue (Numeral.integer n ++ rest) (.int n) rest := by
  have hplain := Numeral.Parts.isPlain_ofNat n.natAbs
  have hvalue : ∀ negative, NumberToken.value ⟨negative, Numeral.digitsOf n.natAbs, []⟩ =
      .ok (.int (if negative then -(n.natAbs : Int) else n.natAbs)) := by
    intro negative
    rw [NumberToken.value]
    simp only [if_neg (Nat.not_lt.2 h), Numeral.digitsValue_digitsOf]
  have hread := readsValue_parts hplain (decide (n < 0)) (hvalue _) hrest
  rw [Numeral.Parts.text_ofNat] at hread
  by_cases hneg : n < 0
  · have hn : -(n.natAbs : Int) = n := by omega
    simp only [decide_eq_true hneg, if_true, hn] at hread
    rw [Numeral.integer, if_pos hneg]
    exact hread
  · have hn : (n.natAbs : Int) = n := by omega
    simp only [decide_eq_false hneg, Bool.false_eq_true, if_false, hn] at hread
    rw [Numeral.integer, if_neg hneg]
    exact hread

/-- The double that a numeral with a sign stands for. -/
theorem value_of_parts {p : Numeral.Parts} (hp : p.IsPlain) (htail : p.tail ≠ []) {m : Magnitude}
    (hdouble : (p.decimal false).toDouble = .signed false m) (negative : Bool) :
    NumberToken.value ⟨negative, p.whole, p.tail⟩ = .ok (.float (.signed negative m)) := by
  have hmagnitude : Decimal.magnitude (p.decimal false).digits (p.decimal false).exponent = m := by
    rw [Decimal.toDouble, Double.signed.injEq] at hdouble
    exact hdouble.2
  have hread : Double.read? ((if negative then ['-'] else []) ++ p.whole ++ p.tail) =
      some (.signed negative m) := by
    rw [List.append_assoc, ← Numeral.Parts.text, Double.read?, ← hmagnitude]
    cases negative with
    | true =>
        have hdecimal := hp.read?_negative
        simp only [if_true, List.singleton_append, hdecimal, Option.map_some]
        rfl
    | false =>
        have hdecimal := hp.read?_text
        simp only [Bool.false_eq_true, if_false, List.nil_append, hdecimal, Option.map_some]
        rfl
  rw [NumberToken.value]
  split
  · rename_i hnil
    exact absurd hnil htail
  · simp only [hread]

/-- A finite double is written as its text. -/
theorem writeDouble_finite {negative : Bool} {m : Magnitude} (h : m.isInfinite = false) :
    writeDouble (.signed negative m) =
      (if negative then ['-'] else []) ++ Double.magnitudeText m := by
  have hm : m ≠ Magnitude.infinity := by
    rintro rfl
    rw [Magnitude.isInfinite, Magnitude.infinity, Magnitude.rank_ofRank (Nat.le_refl _)] at h
    simp at h
  have hnot : ∀ sign, Double.signed negative m ≠ Double.infinity sign := by
    intro sign heq
    rw [Double.infinity, Double.signed.injEq] at heq
    exact hm heq.2
  rw [writeDouble, if_neg (by simp), if_neg (hnot false), if_neg (hnot true)]
  cases negative <;> rfl

/-- A double is read back, NaN and the infinities by their names. -/
theorem readsValue_double (x : Double) {rest : List Char} (hrest : Numeral.Ends rest) :
    ReadsValue (writeDouble x ++ rest) (.float x) rest := by
  cases x with
  | nan => exact readsValue_name (by decide) rfl
  | signed negative m =>
      cases hfinite : m.isInfinite with
      | true =>
          have hm : m = Magnitude.infinity := by
            apply Magnitude.ext
            rw [Magnitude.infinity, Magnitude.rank_ofRank (Nat.le_refl _)]
            simpa [Magnitude.isInfinite] using hfinite
          subst hm
          cases negative with
          | false => exact readsValue_name (by decide) rfl
          | true => exact readsValue_name (by decide) rfl
      | false =>
          obtain ⟨p, hp, htail, htext, hdouble⟩ := Double.exists_parts_magnitudeText hfinite
          rw [writeDouble_finite hfinite, htext]
          exact readsValue_parts hp negative (value_of_parts hp htail hdouble negative) hrest

/-! ### Values that are read back -/

/-- Values that can be read back: whole numbers are not too long, and no object has a key twice. -/
inductive IsReadable : Json → Prop
  | null : IsReadable .null
  | bool (b : Bool) : IsReadable (.bool b)
  | int {n : Int} : (Numeral.digitsOf n.natAbs).length ≤ Numeral.maxDigits → IsReadable (.int n)
  | float (x : Double) : IsReadable (.float x)
  | text (s : String) : IsReadable (.text s)
  | array {items : List Json} : (∀ item ∈ items, IsReadable item) → IsReadable (.array items)
  | object {members : List (String × Json)} : (members.map Prod.fst).Nodup →
      (∀ member ∈ members, IsReadable member.2) → IsReadable (.object members)

/-- A member with a key that is not there yet is put at the end. -/
theorem insertMember_eq_append {key : String} {members : List (String × Json)}
    (h : key ∉ members.map Prod.fst) (value : Json) :
    insertMember key value members = members ++ [(key, value)] := by
  induction members with
  | nil => rfl
  | cons member members ih =>
      obtain ⟨k, v⟩ := member
      simp only [List.map_cons, List.mem_cons, not_or] at h
      rw [insertMember, if_neg (Ne.symm h.1), ih h.2]
      rfl

/-- Nothing is read where neither a name nor a number stands. -/
theorem not_readsValue {c : Char} {cs rest : List Char} {value : Json} (hc : IsSimple c)
    (hname : scanName? (c :: cs) = none) (hnumber : scanNumber? (c :: cs) = none) :
    ¬ ReadsValue (c :: cs) value rest := by
  obtain ⟨hquote, hbracket, hbrace⟩ := hc
  rintro ⟨hlt, h⟩
  rw [readValue.eq_5 c cs hquote hbracket hbrace] at h
  split at h
  · rename_i value' rest' hsome
    simp [hname] at hsome
  · split at h
    · simp at h
    · rename_i token rest' hsome
      simp [hnumber] at hsome

/-- A value that is read starts neither with a blank nor with a closing bracket. -/
theorem ReadsValue.exists_cons {cs rest : List Char} {value : Json} (h : ReadsValue cs value rest) :
    ∃ c cs', cs = c :: cs' ∧ isSpace c = false ∧ c ≠ ']' := by
  cases cs with
  | nil =>
      obtain ⟨hlt, -⟩ := h
      simp at hlt
  | cons c cs =>
      refine ⟨c, cs, rfl, ?_, ?_⟩
      · by_contra hspace
        simp only [isSpace, Bool.not_eq_false, Bool.or_eq_true, beq_iff_eq] at hspace
        rcases hspace with ((rfl | rfl) | rfl) | rfl
        all_goals exact not_readsValue (by decide) rfl rfl h
      · rintro rfl
        exact not_readsValue (by decide) rfl rfl h

/-- What is to be shown of a value: its text is read back, whatever follows. -/
def ReadsBack (layout : Layout) (level : Nat) (value : Json) : Prop :=
  ∀ rest, Numeral.Ends rest → ReadsValue (writeAt layout level value ++ rest) value rest

/-- A value that is read back starts neither with a blank nor with a closing bracket. -/
theorem ReadsBack.starts {layout : Layout} {level : Nat} {value : Json}
    (h : ReadsBack layout level value) (text : List Char) :
    StartsSolid (writeAt layout level value ++ text) ∧
      ∀ more, writeAt layout level value ++ text ≠ ']' :: more := by
  have hread := h [] Numeral.ends_nil
  rw [List.append_nil] at hread
  obtain ⟨c, cs, hcs, hspace, hbracket⟩ := hread.exists_cons
  rw [hcs]
  constructor
  · rintro d ⟨rfl⟩
    exact hspace
  · intro more hmore
    rw [List.cons_append, List.cons.injEq] at hmore
    exact hbracket hmore.1

/-- The items of an array are read back, if each of them is. -/
theorem readsItems_write {layout : Layout} {level : Nat} {item : Json} {items : List Json}
    (h : ∀ x ∈ item :: items, ReadsBack layout level x) (close : Nat) (rest : List Char) :
    ReadsItems (writeAt layout level item ++ (writeItems layout level items ++
      (layout.lineBreak close ++ ']' :: rest))) (item :: items) rest := by
  induction items generalizing item with
  | nil =>
      rw [writeItems, List.nil_append]
      have hitem := h item List.mem_cons_self _ (ends_lineBreak layout close (.inl rfl) rest)
      refine readsItems_last hitem (skipSpace_append (isSpace_of_mem_lineBreak layout close) ?_)
      rintro c ⟨rfl⟩
      rfl
  | cons next items ih =>
      obtain ⟨blanks, hseparator, hblanks⟩ := exists_separator_eq layout level
      have hmore := ih fun x hx => h x (List.mem_cons_of_mem item hx)
      generalize htext : writeItems layout level items ++ (layout.lineBreak close ++ ']' :: rest) =
        text at hmore
      have hitem := h item List.mem_cons_self _
        (ends_comma (blanks ++ (writeAt layout level next ++ text)))
      obtain ⟨hsolid, -⟩ := (h next (by simp)).starts text
      rw [writeItems, hseparator]
      simp only [List.append_assoc, List.cons_append, htext]
      refine readsItems_cons hitem rfl ?_
      rw [skipSpace_append hblanks hsolid]
      exact hmore

theorem writeText_append (cs rest : List Char) :
    writeText cs ++ rest = '"' :: (cs.flatMap writeChar ++ '"' :: rest) := by
  simp [writeText]

/-- Behind a key and its colon, a value is read after one blank. -/
theorem ReadsBack.readsValue_space {layout : Layout} {level : Nat} {value : Json}
    (h : ReadsBack layout level value) {rest : List Char} (hrest : Numeral.Ends rest) :
    ReadsValue (skipSpace (' ' :: (writeAt layout level value ++ rest))) value rest := by
  have hspace : ∀ c ∈ [' '], isSpace c = true := by decide
  have hskip := skipSpace_append hspace (h.starts rest).1
  rw [List.singleton_append] at hskip
  rw [hskip]
  exact h rest hrest

theorem not_mem_of_nodup_append {key : String} {keys before : List String}
    (h : (before ++ key :: keys).Nodup) : key ∉ before := by
  intro hmem
  exact (List.nodup_append.1 h).2.2 key hmem key List.mem_cons_self rfl

/-- The members of an object are read back, if their values are and no key is there twice. -/
theorem readsMembers_write {layout : Layout} {level : Nat} {key : String} {value : Json}
    {members : List (String × Json)} (before : List (String × Json))
    (hkeys : (before.map Prod.fst ++ key :: members.map Prod.fst).Nodup)
    (h : ∀ member ∈ (key, value) :: members, ReadsBack layout level member.2) (close : Nat)
    (rest : List Char) :
    ReadsMembers before (writeText key.toList ++ ':' :: ' ' :: (writeAt layout level value ++
      (writeMembers layout level members ++ (layout.lineBreak close ++ '\x7d' :: rest))))
      (before ++ (key, value) :: members) rest := by
  have hcolon : ∀ cs, skipSpace (':' :: cs) = ':' :: cs := fun _ => rfl
  induction members generalizing key value before with
  | nil =>
      have hread := (h (key, value) List.mem_cons_self).readsValue_space
        (ends_lineBreak layout close (.inr rfl) rest)
      have hclose : skipSpace (layout.lineBreak close ++ '\x7d' :: rest) = '\x7d' :: rest :=
        skipSpace_append (isSpace_of_mem_lineBreak layout close) (by rintro c ⟨rfl⟩; rfl)
      have hmembers : ReadsMembers before _ _ rest :=
        readsMembers_last (scanText?_writeText key.toList _) (hcolon _) hread hclose
      rw [joinHalves_codes, String.ofList_toList,
        insertMember_eq_append (not_mem_of_nodup_append hkeys)] at hmembers
      rw [writeMembers, List.nil_append, writeText_append]
      exact hmembers
  | cons next members ih =>
      obtain ⟨key', value'⟩ := next
      obtain ⟨blanks, hseparator, hblanks⟩ := exists_separator_eq layout level
      -- the member is put behind those read before, and the next one is read after them
      have hkeys' : ((before ++ [(key, value)]).map Prod.fst ++
          key' :: members.map Prod.fst).Nodup := by
        simpa using hkeys
      have hmore := ih _ hkeys' fun member hmember => h member (List.mem_cons_of_mem _ hmember)
      generalize htext : writeText key'.toList ++ ':' :: ' ' :: (writeAt layout level value' ++
        (writeMembers layout level members ++ (layout.lineBreak close ++ '\x7d' :: rest))) =
          text at hmore
      have hsolid : StartsSolid text := by
        rw [← htext, writeText_append]
        rintro c ⟨rfl⟩
        rfl
      have hread := (h (key, value) List.mem_cons_self).readsValue_space
        (ends_comma (blanks ++ text))
      have hcomma : skipSpace (',' :: (blanks ++ text)) = ',' :: (blanks ++ text) := rfl
      rw [← skipSpace_append hblanks hsolid,
        ← insertMember_eq_append (not_mem_of_nodup_append hkeys)] at hmore
      have hname : String.ofList (joinHalves (key.toList.flatMap codesOf)) = key := by
        rw [joinHalves_codes, String.ofList_toList]
      rw [← hname] at hmore
      have hmembers := readsMembers_cons (scanText?_writeText key.toList _) (hcolon _) hread hcomma
        hmore
      rw [hname, insertMember_eq_append (not_mem_of_nodup_append hkeys), List.append_assoc,
        ← writeText_append, ← htext] at hmembers
      rw [writeMembers, hseparator]
      simpa only [List.append_assoc, List.cons_append, List.nil_append] using hmembers

/-- **A written value is read back, whatever follows.** -/
theorem readsValue_writeAt {value : Json} (h : value.IsReadable) (layout : Layout) (level : Nat) :
    ReadsBack layout level value := by
  induction h generalizing level with
  | null => exact fun rest _ => readsValue_name (by decide) rfl
  | bool b =>
      cases b with
      | true => exact fun rest _ => readsValue_name (by decide) rfl
      | false => exact fun rest _ => readsValue_name (by decide) rfl
  | int hdigits => exact fun rest hrest => readsValue_int hdigits hrest
  | float x => exact fun rest hrest => readsValue_double x hrest
  | text s =>
      intro rest _
      have hread := readsValue_text (scanText?_writeText s.toList rest)
      rw [joinHalves_codes, String.ofList_toList, ← writeText_append] at hread
      exact hread
  | @array items _ ih =>
      intro rest _
      cases items with
      | nil => exact readsValue_array_nil rfl
      | cons item items =>
          have hitems := readsItems_write (fun x hx => ih x hx (level + 1)) level rest
          obtain ⟨hsolid, hopen⟩ := (ih item List.mem_cons_self (level + 1)).starts
            (writeItems layout (level + 1) items ++ (layout.lineBreak level ++ ']' :: rest))
          rw [← skipSpace_append (isSpace_of_mem_lineBreak layout (level + 1)) hsolid]
            at hitems hopen
          have hread := readsValue_array hopen hitems
          rw [writeAt]
          simp only [List.append_assoc, List.cons_append, List.nil_append]
          exact hread
  | @object members hkeys _ ih =>
      intro rest _
      cases members with
      | nil => exact readsValue_object_nil rfl
      | cons member members =>
          obtain ⟨key, value⟩ := member
          have hmembers : ReadsMembers [] _ ((key, value) :: members) rest :=
            readsMembers_write [] hkeys (fun member hmember => ih member hmember (level + 1)) level
              rest
          generalize htext : writeText key.toList ++ ':' :: ' ' ::
            (writeAt layout (level + 1) value ++ (writeMembers layout (level + 1) members ++
              (layout.lineBreak level ++ '\x7d' :: rest))) = text at hmembers
          obtain ⟨hsolid, hopen⟩ : StartsSolid text ∧ ∀ more, text ≠ '\x7d' :: more := by
            rw [← htext, writeText_append]
            exact ⟨by rintro c ⟨rfl⟩; rfl, by simp⟩
          rw [← skipSpace_append (isSpace_of_mem_lineBreak layout (level + 1)) hsolid]
            at hmembers hopen
          have hread := readsValue_object hopen hmembers
          rw [← htext] at hread
          rw [writeAt]
          simp only [List.append_assoc, List.cons_append, List.nil_append]
          exact hread

/-- **A written text is read back in every layout.** -/
theorem read_write {value : Json} (h : value.IsReadable) (layout : Layout) :
    read (value.write layout) = .ok value := by
  have hback := readsValue_writeAt h layout 0
  have hwhole : ReadsValue (writeAt layout 0 value) value [] := by
    have hread := hback [] Numeral.ends_nil
    rwa [List.append_nil] at hread
  have hsolid : StartsSolid (writeAt layout 0 value) := by
    have hstart := (hback.starts []).1
    rwa [List.append_nil] at hstart
  have hskip : skipSpace (writeAt layout 0 value) = writeAt layout 0 value := by
    have hnone : ∀ c ∈ ([] : List Char), isSpace c = true := by simp
    exact skipSpace_append hnone hsolid
  rw [← hskip] at hwhole
  obtain ⟨hlt, hread⟩ := hwhole
  rw [read, write, hread]
  rfl

end Json

end Waymark
