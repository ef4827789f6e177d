/-
**Values that are met exactly are not rounded.**

Magnitudes are numbered by rank, and the value of a rank is a whole number of units.  This module
shows that going from a rank to its value and back gives the rank, that values grow with ranks, and
hence that a fraction which is the value of a rank is rounded to that rank and to no neighbour.  A
decimal is such a fraction; the two shortcuts for very large and very small powers of ten are not
taken for a decimal that is the value of a finite magnitude.

Main definitions:

* `Decimal.valueOf` — the number that digits and a power of ten denote.

Main results:

* `Magnitude.floorRank_unitsOf` — the value of a rank has that rank;
* `Magnitude.nearestRank_of_exact` — **a value that is met exactly is not rounded**;
* `Double.toInt?_ofNat` — whole numbers of at most 53 binary digits are doubles;
* `Decimal.magnitude_of_exact` — a decimal that is a magnitude exactly stands for it.
-/
import Mathlib.Algebra.Order.Field.Rat
import Mathlib.Tactic.Ring
import Waymark.Number.Decimal
import Waymark.Proofs.Range

set_option relaxedAutoImplicit false
set_option autoImplicit false

namespace Waymark

namespace Magnitude

/-! ### Ranks and values -/

/-- A rank beyond the first octave: its octave, and its place in it. -/
theorem unitsOf_eq (q : Nat) {s : Nat} (hs : s < octave) :
    unitsOf ((q + 1) * octave + s) = (octave + s) * 2 ^ q := by
  have hpos := octave_pos
  have hle : octave ≤ (q + 1) * octave := Nat.le_mul_of_pos_left octave (by omega)
  rw [unitsOf, if_neg (by omega), Nat.add_comm ((q + 1) * octave) s, Nat.add_mul_mod_self_right,
    Nat.add_mul_div_right _ _ hpos, Nat.mod_eq_of_lt hs, Nat.div_eq_of_lt hs, Nat.zero_add,
    Nat.add_sub_cancel]
  rfl

/-- A rank lies in the first octave or in a later one. -/
theorem rank_cases (r : Nat) :
    r < octave ∨ ∃ q s, s < octave ∧ r = (q + 1) * octave + s := by
  by_cases hr : r < octave
  · exact .inl hr
  · have hdiv : 0 < r / octave := Nat.div_pos (by omega) octave_pos
    refine .inr ⟨r / octave - 1, r % octave, Nat.mod_lt r octave_pos, ?_⟩
    rw [Nat.sub_add_cancel hdiv, Nat.mul_comm]
    exact (Nat.div_add_mod r octave).symm

/-- **The value of a rank has that rank.** -/
theorem floorRank_unitsOf (r : Nat) : floorRank (unitsOf r) = r := by
  have hoctave : octave = 2 ^ 52 := rfl
  rcases rank_cases r with hr | ⟨q, s, hs, rfl⟩
  · have hlog : r.log2 - 52 = 0 := by
      by_cases hzero : r = 0
      · subst hzero
        rfl
      · have := (Nat.log2_lt hzero).2 (hoctave ▸ hr)
        omega
    rw [unitsOf, if_pos hr, floorRank, hlog]
    simp
  · -- the leading digit of the value is that of the octave
    have hlog : ((octave + s) * 2 ^ q).log2 = q + 52 := by
      have hunits : (octave + s) * 2 ^ q ≠ 0 :=
        Nat.ne_of_gt (Nat.mul_pos (Nat.add_pos_left octave_pos s) (Nat.pow_pos (by decide)))
      rw [Nat.log2_eq_iff hunits]
      constructor
      · rw [Nat.pow_add, Nat.mul_comm, ← hoctave]
        exact Nat.mul_le_mul_right _ (Nat.le_add_right _ _)
      · calc (octave + s) * 2 ^ q < 2 * octave * 2 ^ q :=
              Nat.mul_lt_mul_of_pos_right (by omega) (Nat.pow_pos (by decide))
          _ = 2 ^ (q + 52 + 1) := by rw [hoctave]; ring
    rw [unitsOf_eq q hs, floorRank, hlog, Nat.add_sub_cancel]
    change q * octave + (octave + s) * 2 ^ q / 2 ^ q = _
    rw [Nat.mul_div_cancel _ (Nat.pow_pos (by decide))]
    ring

/-- Values grow with ranks. -/
theorem unitsOf_lt_succ (r : Nat) : unitsOf r < unitsOf (r + 1) := by
  have hpos := octave_pos
  rcases rank_cases r with hr | ⟨q, s, hs, rfl⟩
  · rw [unitsOf, if_pos hr]
    by_cases hnext : r + 1 < octave
    · rw [unitsOf, if_pos hnext]
      omega
    · have hlast : r + 1 = (0 + 1) * octave + 0 := by omega
      rw [hlast, unitsOf_eq 0 hpos]
      omega
  · have hpow : 0 < 2 ^ q := Nat.pow_pos (by decide)
    rw [unitsOf_eq q hs]
    by_cases hnext : s + 1 < octave
    · rw [Nat.add_assoc, unitsOf_eq q hnext]
      exact Nat.mul_lt_mul_of_pos_right (by omega) hpow
    · have hlast : (q + 1) * octave + s + 1 = (q + 1 + 1) * octave + 0 := by
        have : (q + 1 + 1) * octave = (q + 1) * octave + octave := Nat.succ_mul _ _
        omega
      rw [hlast, unitsOf_eq (q + 1) hpos]
      calc (octave + s) * 2 ^ q < 2 * octave * 2 ^ q :=
            Nat.mul_lt_mul_of_pos_right (by omega) hpow
        _ = (octave + 0) * 2 ^ (q + 1) := by ring

theorem unitsOf_strictMono : StrictMono unitsOf := strictMono_nat_of_lt_succ unitsOf_lt_succ

/-- **A value that is met exactly is not rounded.** -/
theorem nearestRank_of_exact {num den r : Nat} (hden : 0 < den)
    (h : num * one = unitsOf r * den) : nearestRank num den = r := by
  have hdiv : num * one / den = unitsOf r := by
    rw [h, Nat.mul_div_cancel _ hden]
  have hmiddle : 2 * (num * one) < den * (unitsOf r + unitsOf (r + 1)) := by
    rw [h, Nat.mul_add, two_mul, Nat.mul_comm (unitsOf r) den]
    exact Nat.add_lt_add_left (Nat.mul_lt_mul_of_pos_left (unitsOf_lt_succ r) hden) _
  simp only [nearestRank, hdiv, floorRank_unitsOf, if_pos hmiddle]

/-- A magnitude that is a natural number is the one nearest to it. -/
theorem ofRatio_of_toNat? {m : Magnitude} {n : Nat} (h : m.toNat? = some n) : ofRatio n 1 = m := by
  have hunits : n * one = unitsOf m.rank * 1 := by
    rw [toNat?] at h
    split at h
    · simp at h
    · split at h
      · rename_i hmod
        rw [← Option.some.inj h, Nat.div_mul_cancel (Nat.dvd_of_mod_eq_zero hmod), Nat.mul_one]
        rfl
      · simp at h
  rw [ofRatio, nearestRank_of_exact Nat.one_pos hunits, ofRank_rank]

/-- **Whole numbers of at most 53 binary digits are values of ranks.** -/
theorem exists_unitsOf_eq {n : Nat} (h : n < 2 * octave) : ∃ r, r < top ∧ unitsOf r = n * one := by
  have hpos := octave_pos
  have htop : top = 2047 * octave := rfl
  by_cases hn : n = 0
  · subst hn
    refine ⟨0, by omega, ?_⟩
    rw [Nat.zero_mul]
    rfl
  have hoctave : octave = 2 ^ 52 := rfl
  have hlog : n.log2 ≤ 52 := by
    have hpow : n < 2 ^ 53 := by omega
    have := (Nat.log2_lt hn).2 hpow
    omega
  -- the digits of the number, moved up to the leading place of an octave
  have hlow : octave ≤ n * 2 ^ (52 - n.log2) := by
    calc octave = 2 ^ n.log2 * 2 ^ (52 - n.log2) := by
          rw [hoctave, ← Nat.pow_add, Nat.add_sub_cancel' hlog]
      _ ≤ n * 2 ^ (52 - n.log2) := Nat.mul_le_mul_right _ (Nat.log2_self_le hn)
  have hhigh : n * 2 ^ (52 - n.log2) < 2 * octave := by
    calc n * 2 ^ (52 - n.log2) < 2 ^ (n.log2 + 1) * 2 ^ (52 - n.log2) :=
          Nat.mul_lt_mul_of_pos_right Nat.lt_log2_self (Nat.pow_pos (by decide))
      _ = 2 ^ 53 := by
          rw [← Nat.pow_add]
          congr 1
          omega
      _ = 2 * octave := rfl
  have hplace : n * 2 ^ (52 - n.log2) - octave < octave := by omega
  refine ⟨(n.log2 + 1022 + 1) * octave + (n * 2 ^ (52 - n.log2) - octave), ?_, ?_⟩
  · have hle : (n.log2 + 1022 + 1) * octave ≤ 1075 * octave :=
      Nat.mul_le_mul_right octave (by omega)
    omega
  · rw [unitsOf_eq _ hplace, Nat.add_sub_cancel' hlow, Nat.mul_assoc, ← Nat.pow_add]
    have hone : ∀ e, e = 1074 → 2 ^ e = one := by
      rintro e rfl
      decide +kernel
    rw [hone _ (by omega)]

end Magnitude

/-- Such a number is a double. -/
theorem Double.toInt?_ofNat {n : Nat} (h : n < 2 * Magnitude.octave) :
    (Double.ofNat n).toInt? = some (n : Int) := by
  obtain ⟨r, hr, hunits⟩ := Magnitude.exists_unitsOf_eq h
  have hrank : (Magnitude.ofRank r).rank = r := Magnitude.rank_ofRank (Nat.le_of_lt hr)
  have hfinite : (Magnitude.ofRank r).isInfinite = false := by
    rw [Magnitude.isInfinite, hrank]
    simpa using Nat.ne_of_lt hr
  have hone : 0 < Magnitude.one := by decide +kernel
  have hnat : (Magnitude.ofRank r).toNat? = some n := by
    rw [Magnitude.toNat?, hfinite, Magnitude.units, hrank, hunits, Nat.mul_mod_left,
      Nat.mul_div_cancel _ hone]
    rfl
  rw [Double.ofNat, Double.toInt?, Magnitude.ofRatio_of_toNat? hnat, hnat]
  rfl

/-! ### Decimals -/

namespace Decimal

open Magnitude

/-- The number that digits and a power of ten denote. -/
def valueOf (digits : Nat) (exponent : Int) : ℚ := digits * 10 ^ exponent

theorem valueOf_eq_iff_of_nonneg {digits units : Nat} {exponent : Int} (h : 0 ≤ exponent) :
    valueOf digits exponent * one = units ↔ digits * 10 ^ exponent.toNat * one = units := by
  obtain ⟨n, rfl⟩ := Int.eq_ofNat_of_zero_le h
  rw [valueOf, Int.toNat_natCast, zpow_natCast]
  exact_mod_cast Iff.rfl

theorem valueOf_eq_iff_of_neg {digits units : Nat} {exponent : Int} (h : exponent < 0) :
    valueOf digits exponent * one = units ↔ digits * one = units * 10 ^ (-exponent).toNat := by
  obtain ⟨n, hn⟩ := Int.eq_ofNat_of_zero_le (by omega : 0 ≤ -exponent)
  obtain rfl : exponent = -(n : Int) := by omega
  rw [valueOf, neg_neg, Int.toNat_natCast, zpow_neg, zpow_natCast]
  have hten : (10 : ℚ) ^ n ≠ 0 := pow_ne_zero n (by norm_num)
  rw [mul_right_comm, mul_inv_eq_iff_eq_mul₀ hten]
  exact_mod_cast Iff.rfl

theorem pow_mul_le {digits k e : Nat} (hdigits : 0 < digits) (h : k ≤ e) (units : Nat) :
    10 ^ k * units ≤ digits * 10 ^ e * units :=
  Nat.mul_le_mul_right units
    ((Nat.pow_le_pow_right (by decide) h).trans (Nat.le_mul_of_pos_left _ hdigits))

/-- **A decimal that is a magnitude exactly stands for it.** -/
theorem magnitude_of_exact {digits r : Nat} {exponent : Int} (hdigits : digits ≠ 0)
    (hr : r < top) (h : valueOf digits exponent * one = unitsOf r) :
    magnitude digits exponent = ofRank r := by
  have hone : 0 < one := by decide +kernel
  have hpos : 0 < digits := Nat.pos_of_ne_zero hdigits
  by_cases hsign : 0 ≤ exponent
  · rw [valueOf_eq_iff_of_nonneg hsign] at h
    have hsmall : ¬ 400 < exponent := by
      intro hlarge
      have hbound : unitsOf r < 10 ^ 401 * one := by
        have htop : unitsOf top ≤ 10 ^ 401 * one := by decide +kernel
        exact (unitsOf_strictMono hr).trans_le htop
      have hexponent : 401 ≤ exponent.toNat := by omega
      have hge := pow_mul_le hpos hexponent one
      rw [h] at hge
      exact absurd hbound (Nat.not_lt.2 hge)
    rw [magnitude, if_neg hdigits, if_neg hsmall, if_neg (by omega), if_pos hsign, ofRatio,
      nearestRank_of_exact Nat.one_pos (by rw [Nat.mul_one]; exact h)]
  · rw [valueOf_eq_iff_of_neg (by omega)] at h
    have hunits : 0 < unitsOf r := by
      by_contra hzero
      have : unitsOf r = 0 := by omega
      rw [this, Nat.zero_mul] at h
      have := Nat.mul_pos hpos hone
      omega
    have hlarge : ¬ exponent < -(400 + (digits.log2 : Int)) := by
      intro hsmall
      have hlog : digits < 10 ^ (digits.log2 + 1) :=
        Nat.lt_log2_self.trans_le (Nat.pow_le_pow_left (by decide) _)
      have hpow : 10 ^ (digits.log2 + 1) * 10 ^ 400 ≤ 10 ^ (-exponent).toNat := by
        rw [← Nat.pow_add]
        exact Nat.pow_le_pow_right (by decide) (by omega)
      have hlimit : one ≤ 10 ^ 400 := by decide +kernel
      have hlt : digits * one < 10 ^ (digits.log2 + 1) * 10 ^ 400 :=
        Nat.mul_lt_mul_of_lt_of_le hlog hlimit (hone.trans_le hlimit)
      have hle : 10 ^ (-exponent).toNat ≤ unitsOf r * 10 ^ (-exponent).toNat :=
        Nat.le_mul_of_pos_left _ hunits
      exact absurd h (Nat.ne_of_lt (hlt.trans_le (hpow.trans hle)))
    have hden : 0 < Nat.pow 10 (-exponent).toNat := Nat.pow_pos (by decide)
    rw [magnitude, if_neg hdigits, if_neg (by omega), if_neg hlarge, if_neg hsign, ofRatio,
      nearestRank_of_exact hden h]

end Decimal

end Waymark
