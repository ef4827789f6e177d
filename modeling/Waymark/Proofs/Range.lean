/-
**Whole numbers in the range of doubles.**

A whole number has a double near to it unless the nearest one would be infinite.  The greatest finite
double is `2 ^ 1024 - 2 ^ 971`, and what lies less than half a step above it is still rounded down to
it; this module shows that every whole number of magnitude below `2 ^ 1024 - 2 ^ 970` has a double,
and hence a text, a number, a clock time and a truth.

Main definitions:

* `Value.InRange` — the values that programs work on without a fault.

Main results:

* `Magnitude.nearestRank_lt` — a number is rounded down if it lies less than half way to the next
  octave;
* `Magnitude.nearestRank_lt_top` — **a number below the limit is rounded to a finite magnitude**;
* `Value.InRange.toText?`, `Value.InRange.toNumber?`, `Value.InRange.toMinutes?`,
  `Value.InRange.isTrue?` — values in range have all coercions.
-/
import Mathlib.Tactic.Ring
import Waymark.Value.Coerce

set_option relaxedAutoImplicit false
set_option autoImplicit false

namespace Waymark

namespace Magnitude

/-! ### Ranks below infinity -/

theorem octave_pos : 0 < octave := by
  rw [octave]
  exact Nat.pow_pos (by decide)

/-- The leading 53 binary digits of a number. -/
theorem div_lt_two_octaves (t : Nat) : t / Nat.pow 2 (t.log2 - 52) < 2 * octave := by
  have hlog : t < 2 ^ (t.log2 + 1) := Nat.lt_log2_self
  have hoctave : 2 * octave = 2 ^ 53 := rfl
  refine Nat.div_lt_of_lt_mul ?_
  change t < 2 ^ (t.log2 - 52) * (2 * octave)
  rw [hoctave, ← Nat.pow_add]
  refine hlog.trans_le (Nat.pow_le_pow_right (by decide) ?_)
  omega

/-- Fewer than `2 ^ (e + 53)` units lie below the rank where the octave `e + 2` starts. -/
theorem floorRank_lt {t e : Nat} (h : t < 2 ^ (e + 53)) : floorRank t < (e + 2) * octave := by
  -- a rank is an exponent, in octaves, and the leading digits
  have hdigits := div_lt_two_octaves t
  have hlog : t.log2 - 52 ≤ e := by
    by_cases ht : t = 0
    · subst ht
      simp
    · have := (Nat.log2_lt ht).2 h
      omega
  have hk : (t.log2 - 52) * octave ≤ e * octave := Nat.mul_le_mul_right octave hlog
  have hsum : (e + 2) * octave = e * octave + 2 * octave := Nat.add_mul e 2 octave
  rw [floorRank]
  omega

/-- The values of the two ranks on both sides of that start. -/
theorem unitsOf_add_unitsOf (e : Nat) :
    unitsOf ((e + 2) * octave - 1) + unitsOf ((e + 2) * octave) = (4 * octave - 1) * 2 ^ e := by
  -- the rank before the start has all digits set, and the start only the leading one
  have hpos := octave_pos
  have hlast : (e + 2) * octave - 1 = octave - 1 + octave * (e + 1) := by
    have : (e + 2) * octave = octave * (e + 1) + octave := by ring
    omega
  have hlow : unitsOf ((e + 2) * octave - 1) = (2 * octave - 1) * 2 ^ e := by
    rw [hlast, unitsOf, if_neg, Nat.add_mul_mod_self_left, Nat.add_mul_div_left _ _ hpos,
      Nat.mod_eq_of_lt (by omega), Nat.div_eq_of_lt (by omega)]
    · have hexp : 0 + (e + 1) - 1 = e := by omega
      have hdigits : octave + (octave - 1) = 2 * octave - 1 := by omega
      rw [hexp, hdigits]
      rfl
    · have : octave ≤ octave * (e + 1) := Nat.le_mul_of_pos_right octave (by omega)
      omega
  have hhigh : unitsOf ((e + 2) * octave) = octave * 2 ^ (e + 1) := by
    rw [unitsOf, if_neg, Nat.mul_mod_left, Nat.mul_div_cancel _ hpos]
    · rfl
    · have : octave ≤ (e + 2) * octave := Nat.le_mul_of_pos_left octave (by omega)
      omega
  rw [hlow, hhigh, Nat.pow_succ]
  have hsum : 4 * octave - 1 = (2 * octave - 1) + octave * 2 := by omega
  rw [hsum, Nat.add_mul]
  ring

/-- A number is rounded down before that start if it lies less than half way to it. -/
theorem nearestRank_lt {num : Nat} (e : Nat) (h : 2 * (num * one) < (4 * octave - 1) * 2 ^ e) :
    nearestRank num 1 < (e + 2) * octave := by
  have hunits : num * one < 2 ^ (e + 53) := by
    have hpow : 2 ^ (e + 53) = 2 * octave * 2 ^ e := by
      rw [Nat.pow_add, Nat.mul_comm]
      rfl
    have hle : (4 * octave - 1) * 2 ^ e ≤ 4 * octave * 2 ^ e :=
      Nat.mul_le_mul_right _ (Nat.sub_le _ _)
    have hdouble : 4 * octave * 2 ^ e = 2 * (2 * octave * 2 ^ e) := by ring
    omega
  have hlow := floorRank_lt hunits
  rw [nearestRank, Nat.div_one]
  by_cases hnext : floorRank (num * one) + 1 < (e + 2) * octave
  · split
    · omega
    split
    · omega
    split
    · omega
    · omega
  · -- the next rank is the start itself, and the number lies below the middle
    have hlast : floorRank (num * one) = (e + 2) * octave - 1 := by omega
    have hsucc : (e + 2) * octave - 1 + 1 = (e + 2) * octave := by omega
    rw [hlast, hsucc, Nat.one_mul, unitsOf_add_unitsOf, if_pos h]
    omega

/-- **A number below the limit is rounded to a finite magnitude.** -/
theorem nearestRank_lt_top {num : Nat} (h : num < 2 ^ 1024 - 2 ^ 970) :
    nearestRank num 1 < top := by
  -- the limit is half way between the greatest finite magnitude and the next power of two
  have hlimit : 2 * ((2 ^ 1024 - 2 ^ 970) * one) = (4 * octave - 1) * 2 ^ 2045 := by
    decide +kernel
  have hone : 0 < one := by decide +kernel
  refine nearestRank_lt 2045 ?_
  rw [← hlimit]
  exact Nat.mul_lt_mul_of_pos_left (Nat.mul_lt_mul_of_pos_right h hone) (by decide)

end Magnitude

/-- A whole number below the limit has a double near to it. -/
theorem Double.ofInt?_isSome {n : Int} (h : n.natAbs < 2 ^ 1024 - 2 ^ 970) :
    (Double.ofInt? n).isSome = true := by
  have hrank := Magnitude.nearestRank_lt_top h
  have hfinite : (Magnitude.ofRatio n.natAbs 1).isInfinite = false := by
    rw [Magnitude.isInfinite, Magnitude.ofRatio, Magnitude.rank_ofRank (Nat.le_of_lt hrank)]
    simpa using Nat.ne_of_lt hrank
  rw [Double.ofInt?, hfinite]
  rfl

/-! ### Values in range -/

namespace Value

/-- The values that programs work on without a fault: absence, truth values, texts, doubles, and
whole numbers below the limit. -/
def InRange (value : Value) : Prop :=
  match value with
  | .null => True
  | .bool _ => True
  | .text _ => True
  | .float _ => True
  | .int n => n.natAbs < 2 ^ 1024 - 2 ^ 970
  | _ => False

-- stated of the function itself, since on an argument the two sides are compared by computing a double
theorem intText?_def : intText? = fun n =>
    match Double.ofInt? n with
    | none => none
    | some _ => some (Numeral.integer n) := rfl

theorem intText?_eq {n : Int} {x : Double} (h : Double.ofInt? n = some x) :
    intText? n = some (Numeral.integer n) := by
  rw [intText?_def]
  simp only [h]

theorem InRange.toText? {value : Value} (h : value.InRange) : ∃ text, value.toText? = some text := by
  cases value with
  | null => exact ⟨_, rfl⟩
  | bool b => cases b <;> exact ⟨_, rfl⟩
  | int n =>
      obtain ⟨x, hx⟩ := Option.isSome_iff_exists.1 (Double.ofInt?_isSome h)
      exact ⟨Numeral.integer n, intText?_eq hx⟩
  | float x => exact ⟨_, rfl⟩
  | text s => exact ⟨_, rfl⟩
  | _ => exact h.elim

theorem InRange.toNumber? {value : Value} (h : value.InRange) :
    ∃ number, value.toNumber? = some number := by
  cases value with
  | null => exact ⟨_, rfl⟩
  | bool b => cases b <;> exact ⟨_, rfl⟩
  | int n => exact Option.isSome_iff_exists.1 (Double.ofInt?_isSome h)
  | float x => exact ⟨_, rfl⟩
  | text s => exact ⟨_, rfl⟩
  | _ => exact h.elim

theorem InRange.toMinutes? {value : Value} (h : value.InRange) (now : Clock) :
    ∃ minutes, value.toMinutes? now = some minutes := by
  obtain ⟨text, htext⟩ := h.toText?
  exact ⟨_, by rw [Value.toMinutes?, htext]⟩

theorem InRange.isTrue? {value : Value} (h : value.InRange) :
    ∃ holds, value.isTrue? = some holds := by
  cases value with
  | null => exact ⟨_, rfl⟩
  | bool b => exact ⟨_, rfl⟩
  | int n =>
      obtain ⟨x, hx⟩ := Option.isSome_iff_exists.1 (Double.ofInt?_isSome h)
      rw [Value.isTrue?, hx]
      split
      · exact ⟨_, rfl⟩
      · exact ⟨_, rfl⟩
  | float x => exact ⟨_, rfl⟩
  | text s => exact ⟨_, rfl⟩
  | _ => exact h.elim

end Value

end Waymark
