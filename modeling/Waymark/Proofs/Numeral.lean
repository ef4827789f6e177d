/-
**Numerals are read back.**

A number is written as digits, a point with digits behind it, and a power of ten, of which all but
the first may be left out.  Two readers have to find these parts again: the reader of decimals,
which takes the whole text, and the scanner of JSON texts, which stops where the number does.  Both
are shown to do so once, for numerals given by their parts.  What remains is that everything that
is written *is* such a numeral, and that it denotes the number it was written for.

For doubles nothing is assumed about the search for the shortest text.  A text that the search finds
reads back because that is what it was searched for, and the exact expansion, which stands in if
nothing is found, reads back because a value that is met exactly is not rounded.

Main definitions:

* `Numeral.Parts` — a numeral in parts, its text and its decimal;
* `Numeral.Ends` — what a numeral does not go on with.

Main results:

* `Numeral.Parts.IsPlain.read?_text`, `Numeral.Parts.IsPlain.scanUnsigned?` — the two readers find
  the parts;
* `Numeral.exists_parts_ofScaled` — a number that is written out is a numeral that denotes it;
* `Double.exists_parts_magnitudeText` — **the text of a finite magnitude is a numeral that is read
  as it**.
-/
import Mathlib.Data.List.TakeWhile
import Waymark.Json.Reader
import Waymark.Proofs.Exact
import Waymark.Proofs.Pattern

set_option relaxedAutoImplicit false
set_option autoImplicit false

namespace Waymark

/-! ### Digits -/

namespace Text

theorem digitsValue_eq (ds : List Char) : digitsValue ds = Nat.ofDigitChars 10 ds 0 := rfl

theorem ofDigitChars_eq (ds : List Char) (init : Nat) :
    Nat.ofDigitChars 10 ds init = init * 10 ^ ds.length + digitsValue ds := by
  induction ds generalizing init with
  | nil => simp [digitsValue]
  | cons d ds ih =>
      have hcons : ∀ n, Nat.ofDigitChars 10 (d :: ds) n =
          Nat.ofDigitChars 10 ds (10 * n + (d.toNat - 48)) := fun _ => rfl
      rw [digitsValue_eq, hcons, hcons, ih, ih (10 * 0 + _), List.length_cons]
      ring

/-- The number that two runs of digits write together. -/
theorem digitsValue_append (ds es : List Char) :
    digitsValue (ds ++ es) = digitsValue ds * 10 ^ es.length + digitsValue es := by
  rw [digitsValue_eq, Nat.ofDigitChars_append, ofDigitChars_eq]
  rfl

/-- Zeros in front count for nothing. -/
theorem digitsValue_zeros_append (n : Nat) (ds : List Char) :
    digitsValue (List.replicate n '0' ++ ds) = digitsValue ds := by
  have hzero : digitsValue (List.replicate n '0') = 0 := by
    induction n with
    | zero => rfl
    | succ n ih =>
        rw [List.replicate_succ', digitsValue_append, ih]
        rfl
  rw [digitsValue_append, hzero, Nat.zero_mul, Nat.zero_add]

/-- Every zero at the end is a factor of ten. -/
theorem digitsValue_append_zeros (ds : List Char) (n : Nat) :
    digitsValue (ds ++ List.replicate n '0') = digitsValue ds * 10 ^ n := by
  have hzero := digitsValue_zeros_append n []
  rw [List.append_nil] at hzero
  rw [digitsValue_append, hzero, List.length_replicate]
  rfl

end Text

namespace Numeral

open Text (digitsValue)

theorem digitsValue_digitsOf (n : Nat) : digitsValue (digitsOf n) = n :=
  Nat.ofDigitChars_toDigits (by decide) (by decide)

theorem isDigit_of_mem_digitsOf {n : Nat} {c : Char} (h : c ∈ digitsOf n) : c.isDigit = true :=
  Nat.isDigit_of_mem_toDigits (by decide) (by decide) h

theorem isDigit_of_mem_zeros (n : Nat) : ∀ c ∈ List.replicate n '0', c.isDigit = true := by
  intro c hc
  rw [List.eq_of_mem_replicate hc]
  rfl

theorem digitsOf_ne_nil (n : Nat) : digitsOf n ≠ [] := Nat.toDigits_ne_nil

/-- A number other than zero is not written with a zero in front. -/
theorem head?_digitsOf_ne {n : Nat} (h : n ≠ 0) : (digitsOf n).head? ≠ some '0' := by
  induction n using Nat.strongRecOn with
  | _ n ih =>
      by_cases hn : n < 10
      · rw [digitsOf, Nat.toDigits_of_lt_base hn]
        have hdigit : ∀ m < 10, m ≠ 0 → Nat.digitChar m ≠ '0' := by decide
        simpa using hdigit n hn h
      · have hdiv : n / 10 ≠ 0 := by omega
        have hhead := ih (n / 10) (by omega) hdiv
        rw [digitsOf, Nat.toDigits_of_base_le (by decide) (by omega), ← digitsOf]
        rwa [List.head?_append_of_ne_nil _ (digitsOf_ne_nil (n / 10))]

/-- Digits and the zeros they end in. -/
theorem exists_dropFinalZeros (ds : List Char) :
    ∃ n, ds = dropFinalZeros ds ++ List.replicate n '0' := by
  refine ⟨(ds.reverse.takeWhile (fun c => c == '0')).length, ?_⟩
  have hzeros : (ds.reverse.takeWhile (fun c => c == '0')) =
      List.replicate (ds.reverse.takeWhile (fun c => c == '0')).length '0' := by
    rw [List.eq_replicate_iff]
    exact ⟨rfl, fun c hc => by simpa using List.mem_takeWhile_imp hc⟩
  have hsplit := List.takeWhile_append_dropWhile (p := fun c => c == '0') (l := ds.reverse)
  rw [dropFinalZeros, ← List.reverse_replicate, ← hzeros, ← List.reverse_append, hsplit,
    List.reverse_reverse]

/-! ### Numerals in parts -/

/-- A numeral without a sign, in parts. -/
structure Parts where
  /-- The digits before the point. -/
  whole : List Char
  /-- The digits behind the point; there is no point without them. -/
  fraction : List Char
  /-- The power of ten that ends the numeral. -/
  power? : Option Int

namespace Parts

/-- The power of ten, written out. -/
def ending (p : Parts) : List Char :=
  match p.power? with
  | none => []
  | some n => power n

/-- What follows the digits before the point. -/
def tail (p : Parts) : List Char :=
  (if p.fraction = [] then [] else '.' :: p.fraction) ++ p.ending

/-- The numeral written out. -/
def text (p : Parts) : List Char := p.whole ++ p.tail

/-- The decimal that the numeral writes, with the given sign. -/
def decimal (negative : Bool) (p : Parts) : Decimal :=
  ⟨negative, digitsValue (p.whole ++ p.fraction), p.power?.getD 0 - p.fraction.length⟩

/-- The parts are digits, at least one before the point, and zero does not stand before others. -/
structure IsPlain (p : Parts) : Prop where
  whole_ne_nil : p.whole ≠ []
  whole_digits : ∀ c ∈ p.whole, c.isDigit = true
  fraction_digits : ∀ c ∈ p.fraction, c.isDigit = true
  no_zero : p.whole = ['0'] ∨ p.whole.head? ≠ some '0'

/-- A natural number, which is written with digits alone. -/
def ofNat (n : Nat) : Parts := ⟨digitsOf n, [], none⟩

theorem isPlain_ofNat (n : Nat) : (ofNat n).IsPlain where
  whole_ne_nil := digitsOf_ne_nil n
  whole_digits _ := isDigit_of_mem_digitsOf
  fraction_digits := by simp [ofNat]
  no_zero := by
    by_cases hzero : n = 0
    · exact .inl (by rw [hzero]; rfl)
    · exact .inr (head?_digitsOf_ne hzero)

theorem text_ofNat (n : Nat) : (ofNat n).text = digitsOf n := by
  simp [ofNat, text, tail, ending]

theorem decimal_ofNat (negative : Bool) (n : Nat) :
    (ofNat n).decimal negative = ⟨negative, n, 0⟩ := by
  simp [ofNat, decimal, digitsValue_digitsOf]

end Parts

/-- A text that a numeral does not go on with. -/
def Ends (rest : List Char) : Prop :=
  ∀ c ∈ rest.head?, c.isDigit = false ∧ c ≠ '.' ∧ c ≠ 'e' ∧ c ≠ 'E'

theorem Ends.not_digit {rest : List Char} (h : Ends rest) :
    ∀ c ∈ rest.head?, c.isDigit = false := fun c hc => (h c hc).1

theorem ends_nil : Ends [] := by simp [Ends]

/-- The digits of a power of ten, at least two. -/
def powerDigits (place : Int) : List Char :=
  List.replicate (2 - (digitsOf place.natAbs).length) '0' ++ digitsOf place.natAbs

theorem power_eq (place : Int) :
    power place = 'e' :: (if place < 0 then '-' else '+') :: powerDigits place := rfl

theorem powerDigits_ne_nil (place : Int) : powerDigits place ≠ [] := by
  simp [powerDigits, digitsOf_ne_nil]

theorem isDigit_of_mem_powerDigits {place : Int} {c : Char} (h : c ∈ powerDigits place) :
    c.isDigit = true := by
  rcases List.mem_append.1 h with h | h
  · exact isDigit_of_mem_zeros _ c h
  · exact isDigit_of_mem_digitsOf h

theorem digitsValue_powerDigits (place : Int) : digitsValue (powerDigits place) = place.natAbs := by
  rw [powerDigits, Text.digitsValue_zeros_append, digitsValue_digitsOf]

theorem digits?_powerDigits (place : Int) {rest : List Char}
    (h : ∀ c ∈ rest.head?, c.isDigit = false) :
    Text.digits? (powerDigits place ++ rest) = some (powerDigits place, rest) :=
  Text.digits?_append (powerDigits_ne_nil place) (fun _ => isDigit_of_mem_powerDigits) h

/-- A power of ten is read back. -/
theorem readPower?_power (place : Int) : Decimal.readPower? (power place) = some place := by
  have hnil : ∀ c ∈ ([] : List Char).head?, c.isDigit = false := by simp
  have hdigits := digits?_powerDigits place hnil
  rw [List.append_nil] at hdigits
  by_cases hneg : place < 0
  · simp only [power_eq, if_pos hneg, Decimal.readPower?, Decimal.readSign, hdigits,
      digitsValue_powerDigits]
    simp only [true_or, if_true, Option.some.injEq]
    omega
  · simp only [power_eq, if_neg hneg, Decimal.readPower?, Decimal.readSign, hdigits,
      digitsValue_powerDigits]
    simp only [true_or, if_true, Bool.false_eq_true, if_false, Option.some.injEq]
    omega

/-- A power of ten is scanned whole. -/
theorem scanPower_power (place : Int) {rest : List Char}
    (h : ∀ c ∈ rest.head?, c.isDigit = false) :
    Json.scanPower (power place ++ rest) = (power place, rest) := by
  have hdigits := digits?_powerDigits place h
  by_cases hneg : place < 0
  · simp [power_eq, if_pos hneg, Json.scanPower, Json.scanPowerSign, hdigits]
  · simp [power_eq, if_neg hneg, Json.scanPower, Json.scanPowerSign, hdigits]

namespace Parts

variable {p : Parts}

/-- What ends a numeral is no digit and no point. -/
theorem head?_ending (p : Parts) {rest : List Char} (h : Ends rest) :
    ∀ c ∈ (p.ending ++ rest).head?, c.isDigit = false ∧ c ≠ '.' := by
  intro c hc
  cases hpower : p.power? with
  | none =>
      simp only [ending, hpower, List.nil_append] at hc
      exact ⟨(h c hc).1, (h c hc).2.1⟩
  | some n =>
      simp only [ending, hpower, power_eq, List.cons_append, List.head?_cons, Option.mem_def,
        Option.some.injEq] at hc
      subst hc
      exact ⟨by decide, by decide⟩

theorem head?_tail (p : Parts) {rest : List Char} (h : Ends rest) :
    ∀ c ∈ (p.tail ++ rest).head?, c.isDigit = false := by
  intro c hc
  rw [tail] at hc
  split at hc
  · exact (p.head?_ending h c (by simpa using hc)).1
  · simp only [List.cons_append, List.head?_cons, Option.mem_def, Option.some.injEq] at hc
    subst hc
    decide

/-- The fraction and the power of ten, in the two forms in which they are read. -/
theorem readFraction_tail (hp : p.IsPlain) :
    Decimal.readFraction p.tail = (p.fraction, p.ending) := by
  have hending := p.head?_ending ends_nil
  rw [List.append_nil] at hending
  rw [tail]
  split
  · rename_i hnil
    rw [List.nil_append, hnil, Decimal.readFraction]
    intro rest hrest
    have := hending '.' (by rw [hrest]; rfl)
    exact this.2 rfl
  · obtain ⟨htake, hdrop⟩ := Text.cut_append hp.fraction_digits fun c hc => (hending c hc).1
    rw [List.cons_append, Decimal.readFraction, htake, hdrop]

theorem scanFraction_tail (hp : p.IsPlain) {rest : List Char} (h : Ends rest) :
    Json.scanFraction (p.tail ++ rest) =
      (if p.fraction = [] then [] else '.' :: p.fraction, p.ending ++ rest) := by
  have hending := p.head?_ending h
  rw [tail]
  split
  · rw [List.nil_append, Json.scanFraction]
    intro rest' hrest
    have := hending '.' (by rw [hrest]; rfl)
    exact this.2 rfl
  · rename_i hne
    have hdigits := Text.digits?_append hne hp.fraction_digits fun c hc => (hending c hc).1
    rw [List.cons_append, List.cons_append, List.append_assoc, Json.scanFraction, hdigits]

theorem readPower?_ending (p : Parts) : Decimal.readPower? p.ending = some (p.power?.getD 0) := by
  cases hpower : p.power? with
  | none => simp [ending, hpower, Decimal.readPower?]
  | some n => simp [ending, hpower, readPower?_power]

theorem scanPower_ending (p : Parts) {rest : List Char} (h : Ends rest) :
    Json.scanPower (p.ending ++ rest) = (p.ending, rest) := by
  cases hpower : p.power? with
  | none =>
      simp only [ending, hpower, List.nil_append]
      cases rest with
      | nil => rfl
      | cons c rest =>
          obtain ⟨-, -, he, hE⟩ := h c rfl
          simp [Json.scanPower, he, hE]
  | some n =>
      simp only [ending, hpower]
      exact scanPower_power n h.not_digit

/-- A numeral starts with a digit. -/
theorem IsPlain.exists_text (hp : p.IsPlain) :
    ∃ c cs, p.text = c :: cs ∧ c.isDigit = true := by
  cases hwhole : p.whole with
  | nil => exact absurd hwhole hp.whole_ne_nil
  | cons c cs =>
      refine ⟨c, cs ++ p.tail, by rw [text, hwhole]; rfl, hp.whole_digits c (by simp [hwhole])⟩

/-- The decimal of a numeral, behind its sign. -/
theorem IsPlain.read?_unsigned (hp : p.IsPlain) {cs : List Char} {negative : Bool}
    (h : Decimal.readSign cs = (negative, p.text)) :
    Decimal.read? cs = some (p.decimal negative) := by
  have htail := p.head?_tail ends_nil
  rw [List.append_nil] at htail
  obtain ⟨htake, hdrop⟩ := Text.cut_append hp.whole_digits htail
  simp only [Decimal.read?, h, text, htake, hdrop, readFraction_tail hp, readPower?_ending]
  split
  · rename_i hnil
    simp only [List.append_eq_nil_iff] at hnil
    exact absurd hnil.1 hp.whole_ne_nil
  · rfl

/-- **A numeral in parts is read as its decimal.** -/
theorem IsPlain.read?_text (hp : p.IsPlain) : Decimal.read? p.text = some (p.decimal false) := by
  apply hp.read?_unsigned
  obtain ⟨c, cs, htext, hc⟩ := hp.exists_text
  rw [htext, Decimal.readSign]
  · rintro rest ⟨⟩
    simp at hc
  · rintro rest ⟨⟩
    simp at hc

theorem IsPlain.read?_negative (hp : p.IsPlain) :
    Decimal.read? ('-' :: p.text) = some (p.decimal true) :=
  hp.read?_unsigned rfl

/-- **A numeral in parts is scanned whole.** -/
theorem IsPlain.scanUnsigned? (hp : p.IsPlain) (negative : Bool) {rest : List Char}
    (h : Ends rest) :
    Json.scanUnsigned? negative (p.text ++ rest) = some (⟨negative, p.whole, p.tail⟩, rest) := by
  have hwhole : Json.scanWhole? (p.text ++ rest) = some (p.whole, p.tail ++ rest) := by
    rw [text, List.append_assoc]
    rcases hp.no_zero with hzero | hhead
    · rw [hzero]
      rfl
    · rw [Json.scanWhole?]
      · exact Text.digits?_append hp.whole_ne_nil hp.whole_digits (p.head?_tail h)
      · intro rest' hrest
        rw [List.append_eq_cons_iff] at hrest
        rcases hrest with ⟨hnil, -⟩ | ⟨more, hmore, -⟩
        · exact hp.whole_ne_nil hnil
        · exact hhead (by rw [hmore]; rfl)
  simp only [Json.scanUnsigned?, hwhole, scanFraction_tail hp h, scanPower_ending p h]
  rfl

end Parts

/-! ### Numerals that are written -/

open Decimal (valueOf)

/-- The number that a numeral in parts denotes. -/
def Parts.value (p : Parts) : ℚ := valueOf (p.decimal false).digits (p.decimal false).exponent

/-- Zeros at the end of the digits are a power of ten. -/
theorem valueOf_mul_pow (digits n : Nat) (exponent : Int) :
    valueOf (digits * 10 ^ n) exponent = valueOf digits (exponent + n) := by
  rw [valueOf, valueOf, zpow_add₀ (by norm_num), zpow_natCast]
  push_cast
  ring

section Layout

variable {ds : List Char} (hne : ds ≠ []) (hds : ∀ c ∈ ds, c.isDigit = true)
  (hhead : ds.head? ≠ some '0')

include hne hds

/-- Digits behind a point and zeros. -/
theorem exists_parts_positional_neg {place : Int} (hplace : place < 0) :
    ∃ p : Parts, p.IsPlain ∧ p.tail ≠ [] ∧ p.text = positional ds place ∧
      p.value = valueOf (digitsValue ds) (place + 1 - ds.length) := by
  have hfraction : List.replicate (-place - 1).toNat '0' ++ ds ≠ [] := by simp [hne]
  refine ⟨⟨['0'], List.replicate (-place - 1).toNat '0' ++ ds, none⟩, ?_, ?_, ?_, ?_⟩
  · refine ⟨by simp, isDigit_of_mem_zeros 1, ?_, .inl rfl⟩
    intro c hc
    rcases List.mem_append.1 hc with hc | hc
    · exact isDigit_of_mem_zeros _ c hc
    · exact hds c hc
  · simp [Parts.tail, hne]
  · simp only [Parts.text, Parts.tail, if_neg hfraction, Parts.ending, positional, if_pos hplace]
    simp
  · have hvalue : digitsValue (['0'] ++ (List.replicate (-place - 1).toNat '0' ++ ds)) =
        digitsValue ds := by
      have hzero : digitsValue ['0'] = 0 := rfl
      rw [Text.digitsValue_append, Text.digitsValue_zeros_append, hzero, Nat.zero_mul, Nat.zero_add]
    have hexponent : (0 : Int) - (List.replicate (-place - 1).toNat '0' ++ ds).length =
        place + 1 - ds.length := by
      rw [List.length_append, List.length_replicate]
      omega
    simp only [Parts.value, Parts.decimal, hvalue, Option.getD_none, hexponent]

include hhead

/-- Digits with a point among them or behind them. -/
theorem exists_parts_positional {place : Int} (hplace : ¬ place < 0) :
    ∃ p : Parts, p.IsPlain ∧ p.tail ≠ [] ∧ p.text = positional ds place ∧
      p.value = valueOf (digitsValue ds) (place + 1 - ds.length) := by
  by_cases hlong : ds.length ≤ place.toNat + 1
  · -- all digits stand before the point, filled up with zeros
    refine ⟨⟨ds ++ List.replicate (place.toNat + 1 - ds.length) '0', ['0'], none⟩, ?_, ?_, ?_, ?_⟩
    · refine ⟨by simp [hne], ?_, isDigit_of_mem_zeros 1, .inr ?_⟩
      · intro c hc
        rcases List.mem_append.1 hc with hc | hc
        · exact hds c hc
        · exact isDigit_of_mem_zeros _ c hc
      · rw [List.head?_append_of_ne_nil _ hne]
        exact hhead
    · simp [Parts.tail]
    · simp [Parts.text, Parts.tail, Parts.ending, positional, if_neg hplace,
        List.take_of_length_le hlong, List.drop_of_length_le hlong]
    · have hvalue : digitsValue (ds ++ List.replicate (place.toNat + 1 - ds.length) '0' ++ ['0']) =
          digitsValue ds * 10 ^ (place.toNat + 1 - ds.length + 1) := by
        rw [List.append_assoc, ← List.replicate_succ', Text.digitsValue_append_zeros]
      have hexponent : (0 : Int) - (['0'] : List Char).length +
          ((place.toNat + 1 - ds.length + 1 : Nat) : Int) = place + 1 - ds.length := by
        simp only [List.length_singleton]
        omega
      simp only [Parts.value, Parts.decimal, hvalue, Option.getD_none, valueOf_mul_pow, hexponent]
  · have hfraction : ds.drop (place.toNat + 1) ≠ [] := by
      rw [Ne, List.drop_eq_nil_iff]
      omega
    refine ⟨⟨ds.take (place.toNat + 1), ds.drop (place.toNat + 1), none⟩, ?_, ?_, ?_, ?_⟩
    · refine ⟨by simp [hne], fun c hc => hds c (List.mem_of_mem_take hc),
        fun c hc => hds c (List.mem_of_mem_drop hc), .inr ?_⟩
      rw [List.head?_take, if_neg (by omega)]
      exact hhead
    · simp only [Parts.tail, if_neg hfraction]
      simp
    · have hlength : place.toNat + 1 - (ds.take (place.toNat + 1)).length = 0 := by
        rw [List.length_take]
        omega
      simp only [Parts.text, Parts.tail, if_neg hfraction, Parts.ending, positional, if_neg hplace,
        hlength, List.isEmpty_iff]
      simp
    · have hexponent : (0 : Int) - (ds.drop (place.toNat + 1)).length = place + 1 - ds.length := by
        rw [List.length_drop]
        omega
      simp only [Parts.value, Parts.decimal, List.take_append_drop, Option.getD_none, hexponent]

/-- Digits with a power of ten. -/
theorem exists_parts_scientific (place : Int) :
    ∃ p : Parts, p.IsPlain ∧ p.tail ≠ [] ∧ p.text = scientific ds place ∧
      p.value = valueOf (digitsValue ds) (place + 1 - ds.length) := by
  cases ds with
  | nil => exact absurd rfl hne
  | cons d rest =>
      have hpower : power place ≠ [] := List.cons_ne_nil _ _
      refine ⟨⟨[d], rest, some place⟩, ?_, ?_, ?_, ?_⟩
      · obtain ⟨hd, hrest⟩ := List.forall_mem_cons.1 hds
        exact ⟨by simp, List.forall_mem_singleton.2 hd, hrest, .inr (by simpa using hhead)⟩
      · simp [Parts.tail, Parts.ending, hpower]
      · cases rest with
        | nil => rfl
        | cons e rest => rfl
      · have hexponent : place - rest.length = place + 1 - (d :: rest).length := by
          rw [List.length_cons]
          omega
        simp only [Parts.value, Parts.decimal, List.singleton_append, Option.getD_some, hexponent]

/-- **Digits that are written out are a numeral in parts.** -/
theorem exists_parts_layout (place : Int) :
    ∃ p : Parts, p.IsPlain ∧ p.tail ≠ [] ∧ p.text = layout ds place ∧
      p.value = valueOf (digitsValue ds) (place + 1 - ds.length) := by
  rw [layout]
  split
  · by_cases hplace : place < 0
    · exact exists_parts_positional_neg hne hds hplace
    · exact exists_parts_positional hne hds hhead hplace
  · exact exists_parts_scientific hne hds hhead place

end Layout

/-- **A number that is written out is a numeral in parts.** -/
theorem exists_parts_ofScaled {n : Nat} (hn : n ≠ 0) (exponent : Int) :
    ∃ p : Parts, p.IsPlain ∧ p.tail ≠ [] ∧ p.text = ofScaled n exponent ∧
      p.value = valueOf n exponent := by
  obtain ⟨k, hk⟩ := exists_dropFinalZeros (digitsOf n)
  have hvalue : digitsValue (dropFinalZeros (digitsOf n)) * 10 ^ k = n := by
    rw [← Text.digitsValue_append_zeros, ← hk, digitsValue_digitsOf]
  have hne : dropFinalZeros (digitsOf n) ≠ [] := by
    intro hnil
    rw [hnil] at hvalue
    exact hn (by rw [← hvalue]; exact Nat.zero_mul _)
  have hdigits : ∀ c ∈ dropFinalZeros (digitsOf n), c.isDigit = true := by
    intro c hc
    apply isDigit_of_mem_digitsOf (n := n)
    rw [hk]
    exact List.mem_append_left _ hc
  have hhead : (dropFinalZeros (digitsOf n)).head? ≠ some '0' := by
    have hfirst := head?_digitsOf_ne hn
    rwa [hk, List.head?_append_of_ne_nil _ hne] at hfirst
  obtain ⟨p, hp, htail, htext, hpvalue⟩ :=
    exists_parts_layout hne hdigits hhead (exponent + (digitsOf n).length - 1)
  refine ⟨p, hp, htail, htext, ?_⟩
  have hlength := congrArg List.length hk
  rw [List.length_append, List.length_replicate] at hlength
  have hexponent : exponent + (digitsOf n).length - 1 + 1 -
      (dropFinalZeros (digitsOf n)).length = exponent + k := by
    omega
  rw [hpvalue, hexponent, ← valueOf_mul_pow, hvalue]

/-- A text of zeros and points is read as zero, if it is read at all. -/
theorem digits_eq_zero_of_read? {cs : List Char} (hcs : ∀ c ∈ cs, c = '0' ∨ c = '.')
    {d : Decimal} (h : Decimal.read? cs = some d) : d.digits = 0 := by
  have hzero : ∀ c ∈ cs, c.isDigit = true → c = '0' := by
    intro c hc hdigit
    rcases hcs c hc with rfl | rfl
    · rfl
    · simp at hdigit
  have hsign : Decimal.readSign cs = (false, cs) := by
    rw [Decimal.readSign]
    · rintro rest rfl
      simpa using hcs '-' List.mem_cons_self
    · rintro rest rfl
      simpa using hcs '+' List.mem_cons_self
  have hwhole : ∀ c ∈ cs.takeWhile Char.isDigit, c = '0' := fun c hc =>
    hzero c (List.takeWhile_subset _ hc) (List.mem_takeWhile_imp hc)
  have hfraction : ∀ c ∈ (Decimal.readFraction (cs.dropWhile Char.isDigit)).1, c = '0' := by
    intro c hc
    unfold Decimal.readFraction at hc
    split at hc
    · rename_i rest hrest
      have hmem : c ∈ cs.dropWhile Char.isDigit := by
        rw [hrest]
        exact List.mem_cons_of_mem _ (List.takeWhile_subset _ hc)
      exact hzero c (List.dropWhile_subset _ hmem) (List.mem_takeWhile_imp hc)
    · simp at hc
  have hdigits : digitsValue (cs.takeWhile Char.isDigit ++
      (Decimal.readFraction (cs.dropWhile Char.isDigit)).1) = 0 := by
    have hall := List.eq_replicate_of_mem (List.forall_mem_append.2 ⟨hwhole, hfraction⟩)
    have hvalue := Text.digitsValue_zeros_append (List.length (cs.takeWhile Char.isDigit ++
      (Decimal.readFraction (cs.dropWhile Char.isDigit)).1)) []
    rw [List.append_nil, ← hall] at hvalue
    exact hvalue
  simp only [Decimal.read?, hsign] at h
  split at h
  · simp at h
  · split at h
    · simp at h
    · simp only [Option.some.injEq] at h
      rw [← h]
      exact hdigits

/-- Zero written out is read as zero, if it is read at all. -/
theorem digits_eq_zero_of_read?_ofScaled {exponent : Int} {d : Decimal}
    (h : Decimal.read? (ofScaled 0 exponent) = some d) : d.digits = 0 := by
  refine digits_eq_zero_of_read? (fun c hc => ?_) h
  have htext : ofScaled 0 exponent = layout [] (exponent + 1 - 1) := rfl
  rw [htext, layout] at hc
  split at hc
  · rw [positional] at hc
    split at hc
    · simp only [List.append_nil, List.mem_cons, List.mem_replicate] at hc
      tauto
    · simp at hc
      tauto
  · simp [scientific] at hc

end Numeral

/-! ### The text of a double -/

namespace Double

open Magnitude Numeral

/-- A numeral that denotes a magnitude exactly is read as it. -/
theorem toDouble_of_exact {p : Parts} {m : Magnitude} (hrank : m.rank ≠ 0)
    (hfinite : m.isInfinite = false) (h : p.value * Magnitude.one = m.units) :
    (p.decimal false).toDouble = .signed false m := by
  have hlt : m.rank < top := by
    have hne : m.rank ≠ top := by simpa [isInfinite] using hfinite
    exact Nat.lt_of_le_of_ne m.rank_le hne
  have hpos : 0 < m.units := unitsOf_strictMono (Nat.pos_of_ne_zero hrank)
  have hdigits : (p.decimal false).digits ≠ 0 := by
    intro hzero
    rw [Parts.value, hzero, Decimal.valueOf] at h
    simp only [Nat.cast_zero, zero_mul] at h
    have : m.units = 0 := by exact_mod_cast h.symm
    omega
  have hmagnitude := Decimal.magnitude_of_exact hdigits hlt h
  rw [ofRank_rank] at hmagnitude
  rw [Decimal.toDouble, hmagnitude]
  rfl

/-- The exact expansion of a magnitude denotes it. -/
theorem expansion_exact (units : Nat) :
    Decimal.valueOf (units * Nat.pow 5 1074) (-1074) * Magnitude.one = units := by
  rw [Decimal.valueOf_eq_iff_of_neg (by decide)]
  have hpow : Nat.pow 5 1074 * Magnitude.one = 10 ^ (-(-1074 : Int)).toNat := by decide +kernel
  rw [Nat.mul_assoc, hpow]

/-- The neighbours of a value are numbers written out. -/
theorem exists_ofScaled_of_mem {units count : Nat} {text : List Char}
    (h : text ∈ neighbours units count) : ∃ n exponent, text = ofScaled n exponent := by
  delta neighbours at h
  simp only at h
  split at h
  · rcases List.mem_pair.1 h with h | h
    · exact ⟨_, _, h⟩
    · exact ⟨_, _, h⟩
  · rcases List.mem_pair.1 h with h | h
    · exact ⟨_, _, h⟩
    · exact ⟨_, _, h⟩

theorem shortest_cases (m : Magnitude) :
    (∃ n exponent, shortest m = ofScaled n exponent ∧
      read? (shortest m) = some (.signed false m)) ∨ shortest m = expansion m.units := by
  delta shortest
  generalize hfound : (List.range 17).findSome?
    (fun n => (neighbours m.units (n + 1)).find? (readsAs m)) = found
  cases found with
  | none => exact .inr rfl
  | some text =>
      obtain ⟨k, -, hk⟩ := List.exists_of_findSome?_eq_some hfound
      obtain ⟨n, exponent, htext⟩ := exists_ofScaled_of_mem (List.mem_of_find?_eq_some hk)
      exact .inl ⟨n, exponent, htext, read?_of_findSome? hfound⟩

/-- **The text of a finite magnitude is a numeral that is read as it.** -/
theorem exists_parts_shortest {m : Magnitude} (hrank : m.rank ≠ 0)
    (hfinite : m.isInfinite = false) :
    ∃ p : Parts, p.IsPlain ∧ p.tail ≠ [] ∧ shortest m = p.text ∧
      (p.decimal false).toDouble = .signed false m := by
  rcases shortest_cases m with ⟨n, exponent, hshort, hread⟩ | hshort
  · rw [hshort] at hread
    have hn : n ≠ 0 := by
      rintro rfl
      obtain ⟨d, hd, hdouble⟩ := Option.map_eq_some_iff.1 hread
      rw [Decimal.toDouble, digits_eq_zero_of_read?_ofScaled hd, Decimal.magnitude, if_pos rfl,
        Double.signed.injEq] at hdouble
      exact hrank (by rw [← hdouble.2]; rfl)
    obtain ⟨p, hp, htail, htext, -⟩ := exists_parts_ofScaled hn exponent
    refine ⟨p, hp, htail, by rw [hshort, htext], ?_⟩
    rw [← htext, read?, hp.read?_text, Option.map_some, Option.some.injEq] at hread
    exact hread
  · have hpos : 0 < m.units := unitsOf_strictMono (Nat.pos_of_ne_zero hrank)
    have hfive : 0 < Nat.pow 5 1074 := by decide +kernel
    have hn : m.units * Nat.pow 5 1074 ≠ 0 := Nat.mul_ne_zero hpos.ne' hfive.ne'
    obtain ⟨p, hp, htail, htext, hvalue⟩ := exists_parts_ofScaled hn (-1074)
    refine ⟨p, hp, htail, by rw [hshort, htext, expansion], toDouble_of_exact hrank hfinite ?_⟩
    rw [hvalue]
    exact expansion_exact m.units

theorem magnitudeText_of_rank {m : Magnitude} (h : m.rank = 0) :
    magnitudeText m = "0.0".toList := if_pos h

theorem magnitudeText_of_finite {m : Magnitude} (h : m.rank ≠ 0) (hfinite : m.isInfinite = false) :
    magnitudeText m = shortest m := by
  delta magnitudeText
  rw [if_neg h, hfinite, if_neg Bool.false_ne_true]

theorem exists_parts_magnitudeText {m : Magnitude} (hfinite : m.isInfinite = false) :
    ∃ p : Parts, p.IsPlain ∧ p.tail ≠ [] ∧ magnitudeText m = p.text ∧
      (p.decimal false).toDouble = .signed false m := by
  by_cases hrank : m.rank = 0
  · refine ⟨⟨['0'], ['0'], none⟩, ⟨by decide, by decide, by decide, .inl rfl⟩, by decide, ?_, ?_⟩
    · rw [magnitudeText_of_rank hrank]
      rfl
    · have hm : m = Magnitude.zero := Magnitude.ext hrank
      rw [hm]
      rfl
  · rw [magnitudeText_of_finite hrank hfinite]
    exact exists_parts_shortest hrank hfinite

end Double

end Waymark
