/-
**Numbers with the same text are the same number.**

Whether two values are the same is decided by their texts.  For numbers this loses nothing: the
texts of the infinities, of whole numbers and of fractions are three disjoint sets, whole numbers
are written with all their digits, and the shortest text of a fraction is read back as the double it
was written for.  So two numbers have the same text exactly if they are the same number, whether
they are whole numbers of any size in range or doubles, and nothing is rounded on the way.

Main definitions:

* `Magnitude.number`, `Double.number?` — the extended real number that a double stands for;
* `Value.Denotes` — the values that are numbers, with the numbers that they are;
* `Numeral.Spells` — the number that a text spells, in one of three ways.

Main results:

* `Double.lt_iff` — the order of doubles is that of the numbers they stand for;
* `Double.mem_text`, `Double.text_inj` — a fraction is written with a point or a power of ten, and
  no two doubles are written alike;
* `Numeral.Spells.text_eq_iff` — **a text spells one number, and a number has one text**;
* `Run.compare_is_exact` — **numbers are the same for a comparison exactly if they are equal**, and
  of two doubles the first is the same, greater or less.
-/
import Mathlib.Data.EReal.Operations
import Waymark.Proofs.Numeral
import Waymark.Run.Eval

set_option relaxedAutoImplicit false
set_option autoImplicit false

namespace Waymark

/-! ### The number that a double stands for -/

namespace Magnitude

/-- The number that a magnitude stands for. -/
noncomputable def number (m : Magnitude) : EReal :=
  if m.isInfinite then ⊤ else ((m.units / one : ℝ) : EReal)

theorem one_pos : (0 : ℝ) < one := by
  have h : 0 < one := by decide +kernel
  exact_mod_cast h

theorem number_of_infinite {m : Magnitude} (h : m.isInfinite = true) : m.number = ⊤ := if_pos h

theorem number_of_finite {m : Magnitude} (h : m.isInfinite = false) :
    m.number = ((m.units / one : ℝ) : EReal) := by
  rw [number, h, if_neg Bool.false_ne_true]

theorem number_lt_of_rank_lt {m n : Magnitude} (h : m.rank < n.rank) : m.number < n.number := by
  have hm : m.isInfinite = false := by
    have hne : m.rank ≠ top := Nat.ne_of_lt (h.trans_le n.rank_le)
    simpa [isInfinite] using hne
  rw [number_of_finite hm]
  cases hn : n.isInfinite with
  | true =>
      rw [number_of_infinite hn]
      exact EReal.coe_lt_top _
  | false =>
      rw [number_of_finite hn, EReal.coe_lt_coe_iff]
      have hunits : (m.units : ℝ) < n.units := by exact_mod_cast unitsOf_strictMono h
      exact div_lt_div_of_pos_right hunits one_pos

/-- Magnitudes are numbered in the order of the numbers they stand for. -/
theorem number_lt_iff {m n : Magnitude} : m.number < n.number ↔ m.rank < n.rank := by
  refine ⟨fun h => ?_, number_lt_of_rank_lt⟩
  by_contra hle
  rcases Nat.lt_or_eq_of_le (Nat.not_lt.1 hle) with hlt | heq
  · exact lt_asymm h (number_lt_of_rank_lt hlt)
  · rw [ext heq] at h
    exact lt_irrefl _ h

theorem number_zero : zero.number = 0 := by
  have hunits : zero.units = 0 := rfl
  rw [number_of_finite rfl, hunits, Nat.cast_zero, zero_div, EReal.coe_zero]

theorem number_nonneg (m : Magnitude) : 0 ≤ m.number := by
  rw [← number_zero, ← not_lt, number_lt_iff]
  exact Nat.not_lt_zero _

theorem number_pos_iff {m : Magnitude} : 0 < m.number ↔ 0 < m.rank := by
  rw [← number_zero, number_lt_iff]
  rfl

end Magnitude

namespace Double

/-- The number that a double stands for, unless it is NaN. -/
noncomputable def number? (x : Double) : Option EReal :=
  match x with
  | .nan => none
  | .signed negative m => some (if negative then -m.number else m.number)

theorem number?_signed (negative : Bool) (m : Magnitude) :
    (Double.signed negative m).number? = some (if negative then -m.number else m.number) := rfl

theorem exists_number? {x : Double} (h : x ≠ .nan) : ∃ q, x.number? = some q := by
  cases x with
  | nan => exact absurd rfl h
  | signed negative m => exact ⟨_, rfl⟩

/-- A number that is not positive lies below one that is not negative unless both are zero. -/
theorem neg_lt_iff {a b : EReal} (ha : 0 ≤ a) (hb : 0 ≤ b) : -a < b ↔ 0 < a ∨ 0 < b := by
  have hneg : -a ≤ 0 := EReal.neg_le_zero.2 ha
  constructor
  · intro h
    by_contra hnot
    obtain ⟨ha', hb'⟩ := not_or.1 hnot
    obtain rfl : 0 = a := ha.eq_of_not_lt ha'
    obtain rfl : 0 = b := hb.eq_of_not_lt hb'
    simp at h
  · rintro (h | h)
    · exact (EReal.neg_lt_zero.2 h).trans_le hb
    · exact hneg.trans_lt h

/-- **The order of doubles is that of the numbers they stand for.** -/
theorem lt_iff {x y : Double} {p q : EReal} (hx : x.number? = some p) (hy : y.number? = some q) :
    x.lt y = true ↔ p < q := by
  cases x with
  | nan => simp [number?] at hx
  | signed negative m =>
      cases y with
      | nan => simp [number?] at hy
      | signed negative' n =>
          obtain rfl := Option.some.inj hx
          obtain rfl := Option.some.inj hy
          have hm := m.number_nonneg
          have hn := n.number_nonneg
          cases negative with
          | false =>
              cases negative' with
              | false => simp [lt, place?, Magnitude.number_lt_iff]
              | true =>
                  have hle : -n.number ≤ m.number := (EReal.neg_le_zero.2 hn).trans hm
                  refine iff_of_false ?_ hle.not_gt
                  simp only [lt, place?, decide_eq_true_eq, if_true, Bool.false_eq_true, if_false]
                  omega
          | true =>
              cases negative' with
              | false =>
                  simp only [lt, place?, decide_eq_true_eq, if_true, Bool.false_eq_true, if_false,
                    neg_lt_iff hm hn, Magnitude.number_pos_iff]
                  omega
              | true => simp [lt, place?, Magnitude.number_lt_iff]

/-- Doubles that stand for the same number have the same place among all of them. -/
theorem place?_eq_of_number? {x y : Double} {q : EReal} (hx : x.number? = some q)
    (hy : y.number? = some q) : x.place? = y.place? := by
  have hxy : ¬ x.lt y = true := fun h => lt_irrefl q ((lt_iff hx hy).1 h)
  have hyx : ¬ y.lt x = true := fun h => lt_irrefl q ((lt_iff hy hx).1 h)
  cases x with
  | nan => simp [number?] at hx
  | signed negative m =>
      cases y with
      | nan => simp [number?] at hy
      | signed negative' n =>
          simp only [lt, place?, decide_eq_true_eq] at hxy hyx
          simp only [place?, Option.some.injEq]
          omega

/-- Only the two zeros stand for the same number. -/
theorem eq_of_number? {negative negative' : Bool} {m n : Magnitude} {q : EReal}
    (hx : (Double.signed negative m).number? = some q)
    (hy : (Double.signed negative' n).number? = some q) (hq : q ≠ 0) :
    Double.signed negative m = .signed negative' n := by
  have hplace := place?_eq_of_number? hx hy
  have hrank : m.rank ≠ 0 := by
    intro hzero
    obtain rfl : m = Magnitude.zero := Magnitude.ext hzero
    obtain rfl := Option.some.inj hx
    simp [Magnitude.number_zero] at hq
  simp only [place?, Option.some.injEq] at hplace
  cases negative with
  | false =>
      cases negative' with
      | false =>
          have hmn : m = n := Magnitude.ext (by simpa using hplace)
          rw [hmn]
      | true =>
          simp only [Bool.false_eq_true, if_false, if_true] at hplace
          omega
  | true =>
      cases negative' with
      | false =>
          simp only [Bool.false_eq_true, if_false, if_true] at hplace
          omega
      | true =>
          have hmn : m = n := Magnitude.ext (by simpa using hplace)
          rw [hmn]

end Double

/-! ### Whole numbers among doubles -/

/-- The natural number that a magnitude is, if it is one. -/
theorem Magnitude.toNat?_eq_some_iff {m : Magnitude} {n : Nat} :
    m.toNat? = some n ↔ m.number = ((n : ℝ) : EReal) := by
  have hone : 0 < one := by exact_mod_cast one_pos
  cases hm : m.isInfinite with
  | true =>
      rw [number_of_infinite hm]
      exact iff_of_false (by simp [toNat?, hm]) (EReal.coe_ne_top _).symm
  | false =>
      have hunits : (m.units / one : ℝ) = n ↔ m.units = n * one := by
        rw [div_eq_iff one_pos.ne']
        exact_mod_cast Iff.rfl
      rw [number_of_finite hm, EReal.coe_eq_coe_iff, hunits]
      simp only [toNat?, hm, Bool.false_eq_true, if_false]
      split
      · rename_i hmod
        rw [Option.some.injEq, Nat.div_eq_iff_eq_mul_left hone (Nat.dvd_of_mod_eq_zero hmod)]
      · rename_i hmod
        refine iff_of_false (by simp) fun h => hmod ?_
        rw [h, Nat.mul_mod_left]

/-- The whole number that a double is, if it is one. -/
theorem Double.toInt?_eq_some_iff {x : Double} {n : Int} :
    x.toInt? = some n ↔ x.number? = some ((n : ℝ) : EReal) := by
  cases x with
  | nan => simp [toInt?, number?]
  | signed negative m =>
      rw [number?_signed, Option.some.injEq]
      constructor
      · intro h
        rw [toInt?] at h
        cases hnat : m.toNat? with
        | none => simp [hnat] at h
        | some k =>
            have hk := Magnitude.toNat?_eq_some_iff.1 hnat
            simp only [hnat, Option.some.injEq] at h
            subst h
            cases negative with
            | false => simpa using hk
            | true => simp [hk]
      · intro h
        have hwhole : ∀ k : Int, m.number = ((k : ℝ) : EReal) →
            m.toNat? = some k.toNat ∧ 0 ≤ k := by
          intro k hk
          have hnonneg := m.number_nonneg
          rw [hk, EReal.coe_nonneg] at hnonneg
          obtain ⟨j, rfl⟩ := Int.eq_ofNat_of_zero_le (by exact_mod_cast hnonneg : 0 ≤ k)
          exact ⟨Magnitude.toNat?_eq_some_iff.2 (by simpa using hk), by omega⟩
        rw [toInt?]
        cases negative with
        | false =>
            obtain ⟨hnat, hle⟩ := hwhole n (by simpa using h)
            simp [hnat, hle]
        | true =>
            have hneg : m.number = (((-n : Int) : ℝ) : EReal) := by
              rw [if_pos rfl, neg_eq_iff_eq_neg] at h
              rw [h]
              simp
            obtain ⟨hnat, hle⟩ := hwhole (-n) hneg
            simp only [hnat, if_true, Int.toNat_of_nonneg hle, neg_neg]

/-! ### Texts -/

namespace Numeral

theorem integer_inj {m n : Int} (h : integer m = integer n) : m = n := by
  have hdigits : ∀ k l : Nat, digitsOf k = digitsOf l → k = l := by
    intro k l hkl
    rw [← digitsValue_digitsOf k, hkl, digitsValue_digitsOf]
  -- a minus sign is no digit, so both numbers have one or none has
  have hsign : ∀ (k l : Nat), '-' :: digitsOf k ≠ digitsOf l := by
    intro k l hkl
    have hdigit : '-'.isDigit = true := isDigit_of_mem_digitsOf (by rw [← hkl]; exact .head _)
    exact absurd hdigit (by decide)
  rw [integer, integer] at h
  split at h
  · split at h
    · have := hdigits _ _ (List.cons.inj h).2
      omega
    · exact absurd h (hsign _ _)
  · split at h
    · exact absurd h.symm (hsign _ _)
    · have := hdigits _ _ h
      omega

/-- A whole number is written with digits and a minus sign only. -/
theorem mem_integer {n : Int} {c : Char} (h : c ∈ integer n) : c.isDigit = true ∨ c = '-' := by
  rw [integer] at h
  split at h
  · rcases List.mem_cons.1 h with rfl | h
    · exact .inr rfl
    · exact .inl (isDigit_of_mem_digitsOf h)
  · exact .inl (isDigit_of_mem_digitsOf h)

/-- What follows the digits before the point has a point or starts a power of ten. -/
theorem Parts.mem_tail {p : Parts} (h : p.tail ≠ []) : '.' ∈ p.tail ∨ 'e' ∈ p.tail := by
  rw [tail] at h ⊢
  split
  · rename_i hnil
    rw [if_pos hnil, List.nil_append, ending] at h
    rw [List.nil_append, ending]
    cases hpower : p.power? with
    | none => simp [hpower] at h
    | some n => exact .inr (by simp [power_eq])
  · exact .inl (by simp)

/-- The characters of a numeral in parts. -/
theorem Parts.IsPlain.mem_text {p : Parts} (hp : p.IsPlain) {c : Char} (h : c ∈ p.text) :
    c.isDigit = true ∨ c ∈ ['.', 'e', '+', '-'] := by
  have hending : ∀ c ∈ p.ending, c.isDigit = true ∨ c ∈ ['.', 'e', '+', '-'] := by
    intro c hc
    rw [ending] at hc
    split at hc
    · simp at hc
    · rw [power_eq] at hc
      rcases List.mem_cons.1 hc with rfl | hc
      · exact .inr (by decide)
      rcases List.mem_cons.1 hc with rfl | hc
      · split <;> exact .inr (by decide)
      · exact .inl (isDigit_of_mem_powerDigits hc)
  rw [text, tail] at h
  rcases List.mem_append.1 h with h | h
  · exact .inl (hp.whole_digits c h)
  rcases List.mem_append.1 h with h | h
  · split at h
    · simp at h
    · rcases List.mem_cons.1 h with rfl | h
      · exact .inr (by decide)
      · exact .inl (hp.fraction_digits c h)
  · exact hending c h

end Numeral

namespace Double

open Numeral

/-- The characters with which a finite double is written. -/
theorem char_of_mem_text {negative : Bool} {m : Magnitude} (h : m.isInfinite = false) {c : Char}
    (hc : c ∈ text (.signed negative m)) : c.isDigit = true ∨ c ∈ ['.', 'e', '+', '-'] := by
  obtain ⟨p, hp, -, htext, -⟩ := exists_parts_magnitudeText h
  cases negative with
  | false =>
      rw [text, htext] at hc
      exact hp.mem_text hc
  | true =>
      rw [text, htext] at hc
      rcases List.mem_cons.1 hc with rfl | hc
      · exact .inr (by decide)
      · exact hp.mem_text hc

/-- **A finite double is written with a point or a power of ten.** -/
theorem mem_text {negative : Bool} {m : Magnitude} (h : m.isInfinite = false) :
    '.' ∈ text (.signed negative m) ∨ 'e' ∈ text (.signed negative m) := by
  obtain ⟨p, -, htail, htext, -⟩ := exists_parts_magnitudeText h
  have hmagnitude : '.' ∈ magnitudeText m ∨ 'e' ∈ magnitudeText m := by
    rw [htext, Parts.text]
    exact (Parts.mem_tail htail).imp (List.mem_append_right _) (List.mem_append_right _)
  cases negative with
  | false => exact hmagnitude
  | true => exact hmagnitude.imp (List.mem_cons_of_mem _) (List.mem_cons_of_mem _)

/-- The text of a finite double is read back. -/
theorem read?_text {negative : Bool} {m : Magnitude} (h : m.isInfinite = false) :
    read? (text (.signed negative m)) = some (.signed negative m) := by
  obtain ⟨p, hp, -, htext, hdouble⟩ := exists_parts_magnitudeText h
  have hmagnitude : Decimal.magnitude (p.decimal false).digits (p.decimal false).exponent = m :=
    (Double.signed.inj hdouble).2
  cases negative with
  | false => rw [text, htext, read?, hp.read?_text, Option.map_some, hdouble]
  | true =>
      rw [text, htext, read?, hp.read?_negative, Option.map_some, Decimal.toDouble]
      exact congrArg (fun m => some (Double.signed true m)) hmagnitude

/-- **No two finite doubles are written alike.** -/
theorem text_inj {negative negative' : Bool} {m n : Magnitude} (hm : m.isInfinite = false)
    (hn : n.isInfinite = false) (h : text (.signed negative m) = text (.signed negative' n)) :
    Double.signed negative m = .signed negative' n := by
  have hread : read? (text (.signed negative m)) = some (.signed negative m) := read?_text hm
  rw [h, read?_text hn] at hread
  exact (Option.some.inj hread).symm

end Double

/-! ### Numbers and their texts -/

namespace Numeral

/-- The number that a text spells: infinity by its name, a whole number by its digits, and any other
number as the double that stands for it. -/
inductive Spells : EReal → List Char → Prop
  | infinity (negative : Bool) :
      Spells (if negative then ⊥ else ⊤) (if negative then "-Infinity" else "Infinity").toList
  | whole (n : Int) : Spells ((n : ℝ) : EReal) (integer n)
  | fraction {negative : Bool} {m : Magnitude} {q : EReal} : m.isInfinite = false →
      (Double.signed negative m).number? = some q → (∀ n : Int, q ≠ ((n : ℝ) : EReal)) →
      Spells q (Double.text (.signed negative m))

section Apart

variable (negative : Bool) (n : Int)

theorem infinity_ne_integer :
    (if negative then "-Infinity" else "Infinity").toList ≠ integer n := by
  intro h
  have hI : 'I' ∈ integer n := by
    rw [← h]
    cases negative <;> decide
  exact absurd (mem_integer hI) (by decide)

variable {negative' : Bool} {m : Magnitude} (hm : m.isInfinite = false)
include hm

theorem infinity_ne_text :
    (if negative then "-Infinity" else "Infinity").toList ≠ Double.text (.signed negative' m) := by
  intro h
  have hmark : '.' ∈ (if negative then "-Infinity" else "Infinity").toList ∨
      'e' ∈ (if negative then "-Infinity" else "Infinity").toList := by
    rw [h]
    exact Double.mem_text hm
  cases negative <;> exact absurd hmark (by decide)

theorem integer_ne_text : integer n ≠ Double.text (.signed negative' m) := by
  intro h
  rcases Double.mem_text hm with hmark | hmark
  · rw [← h] at hmark
    exact absurd (mem_integer hmark) (by decide)
  · rw [← h] at hmark
    exact absurd (mem_integer hmark) (by decide)

/-- A finite double does not stand for infinity. -/
theorem infinity_ne_number {q : EReal} (hq : (Double.signed negative' m).number? = some q) :
    (if negative then ⊥ else ⊤) ≠ q := by
  obtain rfl := Option.some.inj hq
  rw [Magnitude.number_of_finite hm]
  generalize (m.units / Magnitude.one : ℝ) = r
  cases negative <;> cases negative' <;> simp [← EReal.coe_neg]

end Apart

/-- **A text spells one number, and a number has one text.** -/
theorem Spells.text_eq_iff {p q : EReal} {s t : List Char} (hp : Spells p s) (hq : Spells q t) :
    s = t ↔ p = q := by
  cases hp with
  | infinity negative =>
      cases hq with
      | infinity negative' => cases negative <;> cases negative' <;> simp
      | whole n =>
          refine iff_of_false (infinity_ne_integer negative n) ?_
          cases negative <;> simp
      | fraction hm hq _ =>
          exact iff_of_false (infinity_ne_text negative hm) (infinity_ne_number negative hm hq)
  | whole n =>
      cases hq with
      | infinity negative =>
          refine iff_of_false (infinity_ne_integer negative n).symm ?_
          cases negative <;> simp
      | whole n' =>
          refine ⟨fun h => by rw [integer_inj h], fun h => ?_⟩
          have heq : n = n' := by exact_mod_cast h
          rw [heq]
      | fraction hm _ hwhole => exact iff_of_false (integer_ne_text n hm) (hwhole n).symm
  | @fraction negative m p hm hp hwhole =>
      cases hq with
      | infinity negative' =>
          exact iff_of_false (infinity_ne_text negative' hm).symm
            (infinity_ne_number negative' hm hp).symm
      | whole n => exact iff_of_false (integer_ne_text n hm).symm (hwhole n)
      | @fraction negative' m' q hm' hq _ =>
          constructor
          · intro h
            rw [Double.text_inj hm hm' h, hq] at hp
            exact (Option.some.inj hp).symm
          · rintro rfl
            have hzero : p ≠ 0 := by simpa using hwhole 0
            rw [Double.eq_of_number? hp hq hzero]

end Numeral

namespace Value

/-- The values that are numbers in range, with the numbers that they are: whole numbers below the
limit, and doubles other than NaN. -/
inductive Denotes : Value → EReal → Prop
  | int {n : Int} : n.natAbs < 2 ^ 1024 - 2 ^ 970 → Denotes (.int n) ((n : ℝ) : EReal)
  | float {x : Double} {q : EReal} : x.number? = some q → Denotes (.float x) q

/-- The text of a number spells it. -/
theorem Denotes.exists_spells {a : Value} {q : EReal} (h : a.Denotes q) :
    ∃ t, a.toText? = some t ∧ Numeral.Spells q t := by
  cases h with
  | @int n hn =>
      obtain ⟨x, hx⟩ := Option.isSome_iff_exists.1 (Double.ofInt?_isSome hn)
      exact ⟨_, intText?_eq hx, .whole n⟩
  | @float x q hq =>
      refine ⟨_, rfl, ?_⟩
      cases x with
      | nan => simp [Double.number?] at hq
      | signed negative m =>
          rw [doubleText]
          split
          · rename_i hinfinite
            obtain rfl := Option.some.inj hq
            rw [Magnitude.number_of_infinite hinfinite, EReal.neg_top]
            exact .infinity negative
          · rename_i hfinite
            split
            · rename_i n hn
              rw [Double.toInt?_eq_some_iff, hq, Option.some.injEq] at hn
              rw [hn]
              exact .whole n
            · rename_i hnone
              refine .fraction (by simpa using hfinite) hq fun n hn => ?_
              rw [hn, ← Double.toInt?_eq_some_iff, hnone] at hq
              cases hq

end Value

namespace Run

/-! ### Comparisons -/

section Comparisons

variable (now : Clock)

/-- Numbers are the same if they are equal, and only then. -/
theorem exists_compare_is {a b : Value} {p q : EReal} (ha : a.Denotes p) (hb : b.Denotes q) :
    ∃ holds, compare now .is a b = .ok holds ∧ (holds = true ↔ p = q) := by
  obtain ⟨s, hs, hps⟩ := ha.exists_spells
  obtain ⟨t, ht, hqt⟩ := hb.exists_spells
  refine ⟨s == t, ?_, ?_⟩
  · simp only [compare, compareBy, hs, ht]
  · rw [beq_iff_eq, hps.text_eq_iff hqt]

variable {x y : Double} {p q : EReal} (hx : x.number? = some p) (hy : y.number? = some q)
include hx hy

theorem compare_is_iff : compare now .is (.float x) (.float y) = .ok true ↔ p = q := by
  obtain ⟨holds, hcompare, hiff⟩ := exists_compare_is now (.float hx) (.float hy)
  rw [hcompare, Except.ok.injEq, hiff]

theorem compare_greater_iff : compare now .greater (.float x) (.float y) = .ok true ↔ q < p := by
  have hcompare : compare now .greater (.float x) (.float y) = .ok (y.lt x) := rfl
  rw [hcompare, Except.ok.injEq, Double.lt_iff hy hx]

theorem compare_less_iff : compare now .less (.float x) (.float y) = .ok true ↔ p < q := by
  have hcompare : compare now .less (.float x) (.float y) = .ok (x.lt y) := rfl
  rw [hcompare, Except.ok.injEq, Double.lt_iff hx hy]

end Comparisons

/-- **Numbers are the same for a comparison exactly if they are equal.**  Whole numbers in range and
doubles other than NaN are the same exactly if they are the same number or the same infinity, with
no rounding, and the two zeros are one number.  Of two such doubles the first is the same as the
second, greater or less, and only one of the three. -/
theorem compare_is_exact (now : Clock) :
    (∀ (a b : Value) (p q : EReal), a.Denotes p → b.Denotes q →
      ∃ holds, compare now .is a b = .ok holds ∧ (holds = true ↔ p = q)) ∧
    ∀ x y : Double, x ≠ .nan → y ≠ .nan →
      ∃! op, op ∈ [Operator.is, .greater, .less] ∧
        compare now op (.float x) (.float y) = .ok true := by
  refine ⟨fun a b p q => exists_compare_is now, fun x y hx hy => ?_⟩
  obtain ⟨p, hp⟩ := Double.exists_number? hx
  obtain ⟨q, hq⟩ := Double.exists_number? hy
  -- what holds of the three is told by the order of the two numbers
  have hmem : ∀ op : Operator, op ∈ [Operator.is, .greater, .less] ∧
      compare now op (.float x) (.float y) = .ok true ↔
        op = .is ∧ p = q ∨ op = .greater ∧ q < p ∨ op = .less ∧ p < q := by
    intro op
    cases op <;> simp [compare_is_iff now hp hq, compare_greater_iff now hp hq,
      compare_less_iff now hp hq]
  simp only [hmem]
  rcases lt_trichotomy p q with h | h | h
  · exact ⟨.less, by simp [h], by simp [h.ne, h.not_gt]⟩
  · exact ⟨.is, by simp [h], by simp [h]⟩
  · exact ⟨.greater, by simp [h], by simp [h.ne', h.not_gt]⟩

/-- Negative zero is the whole number zero; the double `2 ^ 53` is not the next whole number, to
which it is the nearest double; and exactly one comparison holds of the two infinities. -/
theorem compare_is_exact_zeros :
    compare .midnight .is (.float (.signed true .zero)) (.int 0) = .ok true ∧
    compare .midnight .is (.float (.ofNat (2 ^ 53))) (.int (2 ^ 53 + 1)) = .ok false ∧
    ∃! op, op ∈ [Operator.is, .greater, .less] ∧
      compare .midnight op (.float (.infinity true)) (.float (.infinity false)) = .ok true := by
  obtain ⟨hsame, hone⟩ := compare_is_exact .midnight
  have hzero : (Double.signed true .zero).toInt? = some 0 := by decide +kernel
  have hpower : (Double.ofNat (2 ^ 53)).toInt? = some (2 ^ 53) := by decide +kernel
  refine ⟨?_, ?_, hone _ _ (by rintro ⟨⟩) (by rintro ⟨⟩)⟩
  · obtain ⟨holds, hcompare, hiff⟩ := hsame _ (.int 0) _ _
      (.float (Double.toInt?_eq_some_iff.1 hzero)) (.int (by decide +kernel))
    rw [hcompare, hiff.2 rfl]
  · obtain ⟨holds, hcompare, hiff⟩ := hsame _ (.int (2 ^ 53 + 1)) _ _
      (.float (Double.toInt?_eq_some_iff.1 hpower)) (.int (by decide +kernel))
    have hne : ¬ holds = true := by
      rw [hiff]
      norm_cast
    rw [hcompare, Bool.eq_false_iff.2 hne]

end Run

end Waymark
