/-
**A number and its text stand for the same number.**

The comparisons `>` and `<` see the numbers that their sides stand for, and a text stands for the
number that it writes.  A number becomes a text in two ways: it is put in quotes in a program, or it is
shown and the text is kept.  This module says that neither changes the number, so that no comparison
tells a number from its text.

Numbers are written in three forms, and read by a reader that knows more forms than programs do.  A
numeral of a program is read by the same rules in either place.  The digits of a whole number in range
are read as the double that is nearest to it, which is what the number itself stands for, so it is
rounded once on either way.  A double that is whole is written without a point, and its digits are met
exactly by the double that they were written for; only the sign of zero is lost.  Any other double is
written so that it is read back.

Main definitions:

* `Value.IsNumber` — whole numbers in range and doubles;
* `Value.AsText` — the texts that a number is written with.

Main results:

* `Double.read?_integer` — the double that the digits of a whole number are read as;
* `Value.number?_numberOfText_doubleText` — **the text of a double stands for the same number**;
* `Run.compare_congr` — comparisons do not tell apart what stands for the same number;
* `Value.numbers_survive_as_text` — **a number in quotes, or kept as the text that is shown for it,
  stands for the same number and compares alike**.
-/
import Waymark.Proofs.NumberText
import Waymark.Proofs.WrittenExpr

set_option relaxedAutoImplicit false
set_option autoImplicit false

namespace Waymark

/-! ### The digits of whole numbers -/

/-- A decimal without a power of ten is rounded as a whole number. -/
theorem Decimal.magnitude_zero (n : Nat) : magnitude n 0 = Magnitude.ofRatio n 1 := by
  rw [magnitude]
  split
  · rename_i hn
    rw [hn]
    decide +kernel
  · rw [if_neg (by decide), if_neg (by omega), if_pos (Int.le_refl 0)]
    exact congrArg (Magnitude.ofRatio · 1) (Nat.mul_one n)

namespace Double

/-- **The digits of a whole number are read as the double that is nearest to it.** -/
theorem read?_integer (n : Int) :
    read? (Numeral.integer n) =
      some (.signed (decide (n < 0)) (Magnitude.ofRatio n.natAbs 1)) := by
  have hplain := Numeral.Parts.isPlain_ofNat n.natAbs
  have hunsigned := hplain.read?_text
  have hnegative := hplain.read?_negative
  rw [Numeral.Parts.text_ofNat, Numeral.Parts.decimal_ofNat] at hunsigned hnegative
  rw [read?, Numeral.integer]
  split
  · rename_i hn
    rw [hnegative, Option.map_some, Decimal.toDouble, Decimal.magnitude_zero, decide_eq_true hn]
  · rename_i hn
    rw [hunsigned, Option.map_some, Decimal.toDouble, Decimal.magnitude_zero, decide_eq_false hn]

/-- The digits of a double that is a whole number are read as a double that is the same one. -/
theorem exists_read?_of_toInt? {x : Double} {n : Int} (h : x.toInt? = some n) :
    ∃ y, read? (Numeral.integer n) = some y ∧ y.toInt? = some n := by
  refine ⟨_, read?_integer n, ?_⟩
  cases x with
  | nan => simp [toInt?] at h
  | signed negative m =>
      rw [toInt?] at h
      cases hnat : m.toNat? with
      | none => simp [hnat] at h
      | some k =>
          simp only [hnat, Option.some.injEq] at h
          have habs : n.natAbs = k := by split at h <;> omega
          rw [habs, Magnitude.ofRatio_of_toNat? hnat, toInt?]
          simp only [hnat, Option.some.injEq, decide_eq_true_eq]
          split <;> omega

/-- Doubles that stand for the same number, or for none, have the same place among all of them. -/
theorem place?_congr {x y : Double} (h : x.number? = y.number?) : x.place? = y.place? := by
  cases hx : x.number? with
  | some q => exact place?_eq_of_number? hx (h ▸ hx)
  | none =>
      have hnan : ∀ z : Double, z.number? = none → z = .nan := by
        intro z hz
        by_contra hne
        obtain ⟨q, hq⟩ := exists_number? hne
        rw [hz] at hq
        cases hq
      rw [hnan x hx, hnan y (h ▸ hx)]

end Double

/-! ### The number that a text stands for -/

namespace Numeral

/-- Numerals are written without blanks. -/
theorem strip_eq {cs : List Char}
    (h : ∀ c ∈ cs, c.isDigit = true ∨ c ∈ ['.', 'e', '+', '-']) : Text.strip cs = cs := by
  apply Text.strip_eq_of_no_blank
  intro c hc
  rcases h c hc with hdigit | hmark
  · have hcode : 48 ≤ c.toNat ∧ c.toNat ≤ 57 := Char.isDigit_iff_toNat.1 hdigit
    exact Text.isBlank_eq_false (by omega) (by omega)
  · have hmarks : ∀ c ∈ ['.', 'e', '+', '-'], Text.isBlank c = false := by decide
    exact hmarks c hmark

end Numeral

namespace Value

/-- A text stands for the number that is read from it, blanks around it being passed over. -/
theorem numberOfText_of_read? {cs : List Char} {x : Double}
    (h : Double.read? (Text.strip cs) = some x) : numberOfText cs = x := by
  -- neither nothing nor the name of an infinity is a numeral
  have hname : ∀ name ∈ [[], "Infinity".toList, "+Infinity".toList, "-Infinity".toList],
      Text.strip cs ≠ name := by
    have hnone : ∀ name ∈ [[], "Infinity".toList, "+Infinity".toList, "-Infinity".toList],
        Double.read? name = none := by
      decide
    intro name hname heq
    rw [heq, hnone name hname] at h
    cases h
  rw [numberOfText, if_neg (hname _ (by simp)), if_neg, if_neg (hname _ (by simp)), h]
  rintro (heq | heq)
  · exact hname _ (by simp) heq
  · exact hname _ (by simp) heq

theorem numberOfText_integer {n : Int} {x : Double}
    (h : Double.read? (Numeral.integer n) = some x) : numberOfText (Numeral.integer n) = x := by
  apply numberOfText_of_read?
  rwa [Numeral.strip_eq]
  intro c hc
  exact (Numeral.mem_integer hc).imp_right (by rintro rfl; decide)

/-- **The text of a double stands for the same number**, or for none if the double is NaN. -/
theorem number?_numberOfText_doubleText (x : Double) :
    (numberOfText (doubleText x)).number? = x.number? := by
  cases x with
  | nan => rfl
  | signed negative m =>
      rw [doubleText]
      split
      · -- infinity is written by its name
        rename_i hinfinite
        obtain rfl : m = Magnitude.infinity := Magnitude.ext (beq_iff_eq.1 hinfinite)
        cases negative <;> rfl
      · rename_i hfinite
        rw [Bool.not_eq_true] at hfinite
        split
        · rename_i n hn
          obtain ⟨y, hread, hy⟩ := Double.exists_read?_of_toInt? hn
          rw [numberOfText_integer hread, Double.toInt?_eq_some_iff.1 hy,
            Double.toInt?_eq_some_iff.1 hn]
        · rw [numberOfText_of_read?]
          rw [Numeral.strip_eq fun c => Double.char_of_mem_text hfinite]
          exact Double.read?_text hfinite

end Value

namespace Parse

/-- An atom that is a number is read as a numeral, without the blanks around it. -/
theorem read?_of_readAtom {cs : List Char} {x : Double} (h : readAtom cs = .ok (.number x)) :
    Double.read? (Text.strip cs) = some x := by
  rw [readAtom] at h
  cases hatom : atom? (Text.strip cs) with
  | none => simp [hatom] at h
  | some e =>
      simp only [hatom, Except.ok.injEq] at h
      subst h
      rw [atom?] at hatom
      split at hatom
      · simp at hatom
      · split at hatom
        · simp at hatom
        · split at hatom
          · rename_i y hnumber
            simp only [Option.some.injEq, Expr.number.injEq] at hatom
            subst hatom
            rw [number?] at hnumber
            split at hnumber
            · exact hnumber
            · simp at hnumber
          · split at hatom
            · simp at hatom
            · split at hatom <;> simp at hatom

/-- Any text is an atom if it is put in quotes. -/
theorem readAtom_quoted {s : String} {cs : List Char} (h : Render.Quoted s cs) :
    readAtom cs = .ok (.text s) := by
  obtain ⟨hstart, hend⟩ := h.solid
  rw [readAtom, hstart.strip_eq hend, Render.atom?_quoted h]

end Parse

/-! ### Numbers as texts -/

namespace Value

/-- The values that are numbers: whole numbers below the limit, and doubles with NaN. -/
def IsNumber (value : Value) : Prop :=
  match value with
  | .int n => n.natAbs < 2 ^ 1024 - 2 ^ 970
  | .float _ => True
  | _ => False

/-- `AsText a s`: the number `a` is written as the text `s`, either in a program, where there may be
blanks around it, or where it is shown. -/
inductive AsText : Value → String → Prop
  | written {s : String} {x : Double} :
      Parse.readAtom s.toList = .ok (.number x) → AsText (.float x) s
  | shown {a : Value} {cs : List Char} :
      a.IsNumber → a.toText? = some cs → AsText a (String.ofList cs)

theorem toNumber?_text (s : String) : (text s).toNumber? = some (numberOfText s.toList) := rfl

/-- **What is shown for a number stands for the same number.** -/
theorem IsNumber.exists_toText? {a : Value} (h : a.IsNumber) :
    ∃ cs x, a.toText? = some cs ∧ a.toNumber? = some x ∧
      (numberOfText cs).number? = x.number? := by
  cases a with
  | int n =>
      obtain ⟨x, hx⟩ := Option.isSome_iff_exists.1 (Double.ofInt?_isSome h)
      refine ⟨_, x, intText?_eq hx, hx, ?_⟩
      have hread := Double.read?_integer n
      rw [Double.ofInt?] at hx
      split at hx
      · simp at hx
      · rw [hx] at hread
        rw [numberOfText_integer hread]
  | float x => exact ⟨_, x, rfl, rfl, number?_numberOfText_doubleText x⟩
  | _ => exact h.elim

/-- A number and its text stand for the same number. -/
theorem AsText.exists_number? {a : Value} {s : String} (h : AsText a s) :
    ∃ x, a.toNumber? = some x ∧ (numberOfText s.toList).number? = x.number? := by
  cases h with
  | @written s x hread =>
      exact ⟨x, rfl, by rw [numberOfText_of_read? (Parse.read?_of_readAtom hread)]⟩
  | @shown a cs ha htext =>
      obtain ⟨cs', x, htext', hx, hnumber⟩ := ha.exists_toText?
      obtain rfl := Option.some.inj (htext.symm.trans htext')
      exact ⟨x, hx, by rwa [String.toList_ofList]⟩

end Value

/-- **Comparisons of size do not tell apart what stands for the same number.** -/
theorem Run.compare_congr {a a' : Value} {x x' : Double} (ha : a.toNumber? = some x)
    (ha' : a'.toNumber? = some x') (h : x.number? = x'.number?) (now : Clock) {op : Operator}
    (hop : op ∈ [Operator.greater, .less]) (b : Value) :
    compare now op a b = compare now op a' b ∧ compare now op b a = compare now op b a' := by
  have hplace := Double.place?_congr h
  have hleft : ∀ y, x.lt y = x'.lt y := fun y => by rw [Double.lt, Double.lt, hplace]
  have hright : ∀ y : Double, y.lt x = y.lt x' := fun y => by rw [Double.lt, Double.lt, hplace]
  rcases List.mem_pair.1 hop with rfl | rfl
  · simp only [compare, compareBy, ha, ha', hleft, hright, and_self]
  · simp only [compare, compareBy, ha, ha', hleft, hright, and_self]

namespace Value

/-- **Numbers survive being text.**  A text that is read as a number in a program stands for this
number, and is the text that it gives in quotes.  What is shown for a whole number in range or for a
double stands for the number that the value itself stands for, infinities included, and for none if it
is NaN.  So a number in quotes, or kept as the text that is shown for it, is greater and less than the
same values, and the same values are greater and less than it. -/
theorem numbers_survive_as_text :
    (∀ (s : String) (x : Double), Parse.readAtom s.toList = .ok (.number x) →
      (text s).toNumber? = some x ∧
      ∀ mark ∈ ['"', '\x27'], Parse.readAtom (mark :: (s.toList ++ [mark])) = .ok (.text s)) ∧
    (∀ a : Value, a.IsNumber →
      ∃ cs x y, a.toText? = some cs ∧ a.toNumber? = some x ∧
        (text (String.ofList cs)).toNumber? = some y ∧ y.number? = x.number?) ∧
    ∀ (a : Value) (s : String), AsText a s → ∀ (now : Clock),
      ∀ op ∈ [Operator.greater, .less], ∀ b : Value,
        Run.compare now op (text s) b = Run.compare now op a b ∧
        Run.compare now op b (text s) = Run.compare now op b a := by
  refine ⟨?_, ?_, ?_⟩
  · intro s x hread
    refine ⟨?_, fun mark hmark => Parse.readAtom_quoted ⟨mark, hmark, rfl⟩⟩
    rw [toNumber?_text, numberOfText_of_read? (Parse.read?_of_readAtom hread)]
  · intro a ha
    obtain ⟨cs, x, htext, hx, hnumber⟩ := ha.exists_toText?
    refine ⟨cs, x, _, htext, hx, toNumber?_text _, ?_⟩
    rwa [String.toList_ofList]
  · intro a s h now op hop b
    obtain ⟨x, hx, hnumber⟩ := h.exists_number?
    exact Run.compare_congr (toNumber?_text s) hx hnumber now hop b

/-- A number is read with zeros and blanks around it; negative zero is shown without its sign; and a
whole number that is no double compares like its digits. -/
theorem numbers_survive_as_text_padded :
    (text " 007.50 ").toNumber? = some (.signed false (.ofRatio 15 2)) ∧
    (∃ y, (text "0").toNumber? = some y ∧ y.number? = (Double.signed true .zero).number?) ∧
    ∀ b, Run.compare .midnight .greater (text "9007199254740993") b =
      Run.compare .midnight .greater (.int (2 ^ 53 + 1)) b := by
  obtain ⟨hwritten, hshown, hcompare⟩ := numbers_survive_as_text
  refine ⟨?_, ?_, ?_⟩
  · have hread : Parse.readAtom " 007.50 ".toList =
        .ok (.number (.signed false (.ofRatio 15 2))) := by decide +kernel
    exact (hwritten _ _ hread).1
  · obtain ⟨cs, x, y, htext, hx, hy, hnumber⟩ := hshown (.float (.signed true .zero)) trivial
    have hzero : (float (.signed true .zero)).toText? = some "0".toList := by decide +kernel
    obtain rfl := Option.some.inj (htext.symm.trans hzero)
    obtain rfl := Option.some.inj hx
    exact ⟨y, hy, hnumber⟩
  · intro b
    have hrange : (2 ^ 53 + 1 : Int).natAbs < 2 ^ 1024 - 2 ^ 970 := by decide +kernel
    have hdigits : (int (2 ^ 53 + 1)).toText? = some "9007199254740993".toList := by
      decide +kernel
    have hshown : AsText (int (2 ^ 53 + 1)) "9007199254740993" := .shown hrange hdigits
    exact (hcompare _ _ hshown .midnight .greater (by decide) b).1

end Value

end Waymark
