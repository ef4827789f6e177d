/-
**The magnitudes of binary floating-point numbers, numbered in increasing order.**

A double-precision number other than NaN is a sign and a magnitude.  The magnitudes, zero and
infinity included, are finitely many and totally ordered, so they are represented by their *rank*:
zero has rank `0`, the least positive magnitude has rank `1`, and infinity has the top rank.  The
order of magnitudes is then the order of natural numbers, and the neighbour above is the successor.

Every finite magnitude is a whole number of *units* of `2 ^ (-1074)`, so exact values are natural
numbers and rounding needs no rational arithmetic.

Main definitions:

* `Magnitude` — a rank up to the top one;
* `Magnitude.octave` — the number of ranks from one power of two to the next;
* `Magnitude.unitsOf` — the value of a rank, in units;
* `Magnitude.floorRank` — the greatest rank whose value does not exceed a number of units;
* `Magnitude.ofRatio` — the magnitude nearest to a fraction, a tie going to the even rank.
-/

set_option relaxedAutoImplicit false
set_option autoImplicit false

namespace Waymark

/-- The number of ranks from one power of two to the next. -/
def Magnitude.octave : Nat := Nat.pow 2 52

/-- The rank of infinity. -/
def Magnitude.top : Nat := 2047 * Magnitude.octave

/-- A magnitude of a floating-point number, given by its rank among all of them. -/
structure Magnitude where
  /-- The number of smaller magnitudes. -/
  rank : Nat
  /-- Infinity is the greatest magnitude. -/
  rank_le : rank ≤ Magnitude.top
deriving DecidableEq

namespace Magnitude

/-- The number of units in one. -/
def one : Nat := Nat.pow 2 1074

/-- The value of a rank in units.  The ranks of the first octave are the subnormal numbers, one unit
apart, and so are those of the second; from then on the ranks of every octave lie twice as far apart
as those of the octave before. -/
def unitsOf (rank : Nat) : Nat :=
  if rank < octave then rank
  else (octave + rank % octave) * Nat.pow 2 (rank / octave - 1)

/-- The value of a finite magnitude in units. -/
def units (m : Magnitude) : Nat := unitsOf m.rank

/-- The greatest rank whose value does not exceed `t` units: the leading 53 binary digits of `t`,
counted on from the ranks of the shorter numbers. -/
def floorRank (t : Nat) : Nat :=
  let k := t.log2 - 52
  k * octave + t / Nat.pow 2 k

/-- The rank nearest to `num / den`, a tie going to the even rank.  Ranks beyond the top one stand
for values that no finite magnitude is near to. -/
def nearestRank (num den : Nat) : Nat :=
  let scaled := num * one
  let low := floorRank (scaled / den)
  let middle := den * (unitsOf low + unitsOf (low + 1))
  if 2 * scaled < middle then low
  else if middle < 2 * scaled then low + 1
  else if low % 2 = 0 then low
  else low + 1

/-- A magnitude of the given rank, or infinity if there is none. -/
def ofRank (rank : Nat) : Magnitude := ⟨min rank top, Nat.min_le_right rank top⟩

/-- The magnitude nearest to `num / den`, a tie going to the even rank. -/
def ofRatio (num den : Nat) : Magnitude := ofRank (nearestRank num den)

/-- The magnitude nothing is smaller than. -/
def zero : Magnitude := ofRank 0

/-- The magnitude nothing is greater than. -/
def infinity : Magnitude := ofRank top

/-- Whether a magnitude is infinity. -/
def isInfinite (m : Magnitude) : Bool := m.rank == top

/-- The natural number that a finite magnitude is, if it is one. -/
def toNat? (m : Magnitude) : Option Nat :=
  if m.isInfinite then none
  else if m.units % one = 0 then some (m.units / one)
  else none

/-! ### Ranks -/

@[ext] theorem ext {m n : Magnitude} (h : m.rank = n.rank) : m = n := by
  cases m; cases n; simp_all

theorem rank_ofRank {rank : Nat} (h : rank ≤ top) : (ofRank rank).rank = rank := by
  simp [ofRank, Nat.min_eq_left h]

@[simp] theorem ofRank_rank (m : Magnitude) : ofRank m.rank = m :=
  ext (rank_ofRank m.rank_le)

end Magnitude

end Waymark
