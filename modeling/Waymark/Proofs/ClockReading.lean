/-
**Which values are times of the day.**

The comparisons `after` and `before` see the minutes since midnight that their sides stand for, and
only the text of a value decides about them.  The word `time` tells the time of the clock.  A clock
reading tells its own time, though it need not be one that a clock can show.  Every other text tells
none, and a comparison with it is false whatever stands on the other side.  The values that are no
texts themselves have texts without a colon, so that none of them is a time of the day.

Clock readings are meant to be strict, five characters and no more.  They are, but for one thing: a
line break behind the last digit is passed over, as it would be at the end of a line.  A text from
outside can have one there, so this is said in full, and where it does not occur reading is strict.

Main definitions:

* `Value.Tells` — the time that a text tells;
* `Value.TellsBeforeBreak` — the same of a clock reading with a line break behind it.

Main results:

* `Value.exists_text_of_colon_mem` — only a text has a text with a colon;
* `Value.minutesOfText_eq_nan` — a text that tells no time gives NaN;
* `Value.minutes_are_told` — **a value stands for the time that its text tells, strictly unless a line
  break follows, and comparisons with any other value are false**.
-/
import Waymark.Proofs.Noninterference
import Waymark.Proofs.NumberText
import Waymark.Proofs.WellFormed

set_option relaxedAutoImplicit false
set_option autoImplicit false

namespace Waymark

/-! ### Texts without a colon -/

namespace Value

theorem colon_not_mem_integer (n : Int) : ':' ∉ Numeral.integer n := by
  intro hcolon
  exact absurd (Numeral.mem_integer hcolon) (by decide)

theorem colon_not_mem_doubleText (x : Double) : ':' ∉ doubleText x := by
  cases x with
  | nan => decide
  | signed negative m =>
      rw [doubleText]
      split
      · cases negative <;> decide
      · rename_i hfinite
        split
        · exact colon_not_mem_integer _
        · intro hcolon
          exact absurd (Double.char_of_mem_text (by simpa using hfinite) hcolon) (by decide)

/-- **Only a text has a text with a colon**, among the values that programs work on. -/
theorem exists_text_of_colon_mem {value : Value} (h : value.InRange) {cs : List Char}
    (htext : value.toText? = some cs) (hcolon : ':' ∈ cs) : ∃ s, value = .text s := by
  cases value with
  | null =>
      obtain rfl := Option.some.inj htext
      exact absurd hcolon (by decide)
  | bool b => cases b <;> (obtain rfl := Option.some.inj htext; exact absurd hcolon (by decide))
  | int n =>
      obtain ⟨x, hx⟩ := Option.isSome_iff_exists.1 (Double.ofInt?_isSome h)
      rw [toText?, intText?_eq hx] at htext
      obtain rfl := Option.some.inj htext
      exact absurd hcolon (colon_not_mem_integer n)
  | float x =>
      obtain rfl := Option.some.inj htext
      exact absurd hcolon (colon_not_mem_doubleText x)
  | text s => exact ⟨s, rfl⟩
  | _ => exact h.elim

/-! ### The time that a text tells -/

/-- `Tells now cs minutes`: at the clock `now` the text `cs` tells the time so many minutes after
midnight.  The word `time` tells the time of the clock, and two digits, a colon and two digits tell
their own. -/
inductive Tells (now : Clock) : List Char → Nat → Prop
  | word : Tells now "time".toList (60 * now.hour.val + now.minute.val)
  | reading {a b c d : Char} : (∀ x ∈ [a, b, c, d], x.isDigit = true) →
      Tells now [a, b, ':', c, d]
        (60 * (10 * (a.toNat - 48) + (b.toNat - 48)) + (10 * (c.toNat - 48) + (d.toNat - 48)))

/-- A clock reading, and the time that it tells, with one line break behind it. -/
def TellsBeforeBreak (now : Clock) (cs : List Char) (minutes : Nat) : Prop :=
  ∃ clock, Text.IsClock clock ∧ cs = clock ++ ['\n'] ∧ Tells now clock minutes

section Minutes

variable {now : Clock} {cs : List Char} {minutes : Nat}

/-- The hundred minutes of a hundred hours are few enough to be doubles. -/
theorem Tells.lt (h : Tells now cs minutes) : minutes < 2 * Magnitude.octave := by
  have hoctave : 6040 ≤ 2 * Magnitude.octave := by decide +kernel
  have hdigit : ∀ x : Char, x.isDigit = true → x.toNat ≤ 57 :=
    fun x hx => (Char.isDigit_iff_toNat.1 hx).2
  cases h with
  | word => omega
  | @reading a b c d hdigits =>
      have ha := hdigit a (hdigits a (by simp))
      have hb := hdigit b (hdigits b (by simp))
      have hc := hdigit c (hdigits c (by simp))
      have hd := hdigit d (hdigits d (by simp))
      omega

/-- The minutes of a clock reading, at the end of a text or before one last line break. -/
theorem minutesOfText_reading {a b c d : Char} (hdigits : ∀ x ∈ [a, b, c, d], x.isDigit = true)
    {rest : List Char} (hrest : Text.atEnd rest = true) :
    minutesOfText now (a :: b :: ':' :: c :: d :: rest) = Double.ofNat
      (60 * (10 * (a.toNat - 48) + (b.toNat - 48)) + (10 * (c.toNat - 48) + (d.toNat - 48))) := by
  have hall : a.isDigit = true ∧ b.isDigit = true ∧ c.isDigit = true ∧ d.isDigit = true := by
    simpa using hdigits
  have hword : a :: b :: ':' :: c :: d :: rest ≠ currentTime.toList := by
    intro heq
    exact absurd (List.cons.inj (List.cons.inj (List.cons.inj heq).2).2).1 (by decide)
  have hminutes : Clock.twoDigits a b * 60 + Clock.twoDigits c d =
      60 * (10 * (a.toNat - 48) + (b.toNat - 48)) + (10 * (c.toNat - 48) + (d.toNat - 48)) := by
    simp only [Clock.twoDigits, Text.digitsValue, List.foldl_cons, List.foldl_nil]
    omega
  rw [minutesOfText, if_neg hword]
  simp only [Text.clock?, hall, Bool.and_self, if_true, hrest, hminutes]

theorem Tells.minutesOfText_eq (h : Tells now cs minutes) :
    minutesOfText now cs = Double.ofNat minutes := by
  cases h with
  | word =>
      have hword : "time".toList = currentTime.toList := rfl
      rw [minutesOfText, if_pos hword, Clock.minutes, Nat.mul_comm]
  | reading hdigits => exact minutesOfText_reading hdigits rfl

theorem TellsBeforeBreak.lt (h : TellsBeforeBreak now cs minutes) :
    minutes < 2 * Magnitude.octave := by
  obtain ⟨clock, -, -, htells⟩ := h
  exact htells.lt

theorem TellsBeforeBreak.minutesOfText_eq (h : TellsBeforeBreak now cs minutes) :
    minutesOfText now cs = Double.ofNat minutes := by
  obtain ⟨clock, ⟨a, b, c, d, rfl, hdigits⟩, rfl, htells⟩ := h
  cases htells with
  | reading _ => exact minutesOfText_reading hdigits rfl

/-- **A text that tells no time gives NaN.** -/
theorem minutesOfText_eq_nan
    (h : ∀ n, ¬ (Tells now cs n ∨ TellsBeforeBreak now cs n)) : minutesOfText now cs = .nan := by
  have hword : cs ≠ currentTime.toList := by
    rintro rfl
    exact h _ (.inl .word)
  rw [minutesOfText, if_neg hword]
  split
  · rename_i a b c d rest hclock
    obtain ⟨rfl, hdigits⟩ := Text.clock?_eq_some hclock
    split
    · rename_i hend
      rcases Text.atEnd_iff.1 hend with rfl | rfl
      · exact absurd (.inl (.reading hdigits)) (h _)
      · exact absurd (.inr ⟨_, ⟨a, b, c, d, rfl, hdigits⟩, rfl, .reading hdigits⟩) (h _)
    · rfl
  · rfl

/-- The minutes of a text are exactly those of the time that it tells. -/
theorem toInt?_minutesOfText_iff :
    (minutesOfText now cs).toInt? = some (minutes : Int) ↔
      Tells now cs minutes ∨ TellsBeforeBreak now cs minutes := by
  have hexact : ∀ n, Tells now cs n ∨ TellsBeforeBreak now cs n →
      (minutesOfText now cs).toInt? = some (n : Int) := by
    rintro n (h | h)
    · rw [h.minutesOfText_eq, Double.toInt?_ofNat h.lt]
    · rw [h.minutesOfText_eq, Double.toInt?_ofNat h.lt]
  refine ⟨fun h => ?_, hexact minutes⟩
  by_contra hnot
  -- no other time is told either, or its minutes would be these
  have hnone : ∀ n, ¬ (Tells now cs n ∨ TellsBeforeBreak now cs n) := by
    intro n hn
    have hsame := hexact n hn
    rw [h, Option.some.injEq, Nat.cast_inj] at hsame
    exact hnot (hsame ▸ hn)
  rw [minutesOfText_eq_nan hnone] at h
  simp [Double.toInt?] at h

theorem minutesOfText_eq_nan_iff :
    minutesOfText now cs = .nan ↔ ∀ n, ¬ (Tells now cs n ∨ TellsBeforeBreak now cs n) := by
  refine ⟨fun h n hn => ?_, minutesOfText_eq_nan⟩
  have hminutes := toInt?_minutesOfText_iff.2 hn
  rw [h] at hminutes
  simp [Double.toInt?] at hminutes

/-- A text that tells a time has no line break behind it. -/
theorem Tells.not_tellsBeforeBreak (h : Tells now cs minutes) (n : Nat) :
    ¬ TellsBeforeBreak now cs n := by
  rintro ⟨clock, ⟨a, b, c, d, rfl, hdigits⟩, hcs, -⟩
  cases h with
  | word => simp at hcs
  | reading _ => simp at hcs

/-- Among the values that programs work on, only a text has a text that tells a time. -/
theorem exists_text_of_tells {value : Value} (h : value.InRange) (htext : value.toText? = some cs)
    (htells : Tells now cs minutes ∨ TellsBeforeBreak now cs minutes) :
    ∃ s, value = .text s := by
  rcases htells with htells | ⟨clock, ⟨a, b, c, d, rfl, hdigits⟩, rfl, -⟩
  · cases htells with
    | word => exact ⟨_, toText?_eq_currentTime_iff.1 htext⟩
    | reading _ => exact exists_text_of_colon_mem h htext (by simp)
  · exact exists_text_of_colon_mem h htext (by simp)

end Minutes

/-! ### Comparisons of times -/

/-- A comparison of times with a value that is none is false. -/
theorem compare_of_nan {now : Clock} {value other : Value} (h : value.toMinutes? now = some .nan)
    (hother : other.InRange) {op : Operator} (hop : op ∈ [Operator.after, .before]) :
    Run.compare now op value other = .ok false ∧ Run.compare now op other value = .ok false := by
  obtain ⟨y, hy⟩ := hother.toMinutes? now
  have hleft : Double.lt .nan y = false := rfl
  have hright : y.lt .nan = false := by
    rw [Double.lt]
    cases y <;> rfl
  rcases List.mem_pair.1 hop with rfl | rfl
  · simp only [Run.compare, Run.compareBy, h, hy, hleft, hright, and_self]
  · simp only [Run.compare, Run.compareBy, h, hy, hleft, hright, and_self]

/-- **A value stands for the time that its text tells.**  For every value in range and at every clock
there is a number of minutes, NaN included.  It is a time exactly if the text of the value is the word
`time` or a clock reading, a line break behind a reading being passed over; so it is what a strict
reading gives exactly if there is no such line break.  Only texts are times, and a comparison with any
other value is false on either side of it. -/
theorem minutes_are_told (now : Clock) (value : Value) (h : value.InRange) :
    ∃ cs x, value.toText? = some cs ∧ value.toMinutes? now = some x ∧
      (∀ n : Nat, x.toInt? = some (n : Int) ↔ Tells now cs n ∨ TellsBeforeBreak now cs n) ∧
      (x = .nan ↔ ∀ n, ¬ (Tells now cs n ∨ TellsBeforeBreak now cs n)) ∧
      ((∀ n : Nat, x.toInt? = some (n : Int) ↔ Tells now cs n) ↔
        ∀ n, ¬ TellsBeforeBreak now cs n) ∧
      (x ≠ .nan → ∃ s, value = .text s) ∧
      (x = .nan → ∀ other : Value, other.InRange → ∀ op ∈ [Operator.after, .before],
        Run.compare now op value other = .ok false ∧
          Run.compare now op other value = .ok false) := by
  obtain ⟨cs, htext⟩ := h.toText?
  have hminutes : value.toMinutes? now = some (minutesOfText now cs) := by
    rw [toMinutes?, htext]
  refine ⟨cs, minutesOfText now cs, htext, hminutes, fun n => toInt?_minutesOfText_iff,
    minutesOfText_eq_nan_iff, ?_, ?_, ?_⟩
  · simp only [toInt?_minutesOfText_iff]
    constructor
    · intro hstrict n hn
      exact ((hstrict n).1 (.inr hn)).not_tellsBeforeBreak n hn
    · intro hnone n
      exact or_iff_left (hnone n)
  · intro hne
    rw [ne_eq, minutesOfText_eq_nan_iff, not_forall_not] at hne
    obtain ⟨n, hn⟩ := hne
    exact exists_text_of_tells h htext hn
  · intro hnan other hother op hop
    exact compare_of_nan (hnan ▸ hminutes) hother hop

/-- Half past seven is read with a line break behind it, though such a text is no time in the strict
sense; and a whole number is not after the time of the clock, since it is no time at all. -/
theorem minutes_are_told_trailing :
    (∃ x, (Value.text "07:30\n").toMinutes? .midnight = some x ∧ x.toInt? = some 450 ∧
      ∀ n, ¬ Tells .midnight "07:30\n".toList n) ∧
    Run.compare .midnight .after (.int 730) (.text "time") = .ok false := by
  constructor
  · obtain ⟨cs, x, htext, hminutes, hexact, -⟩ :=
      minutes_are_told .midnight (.text "07:30\n") trivial
    obtain rfl := Option.some.inj htext
    have hread : TellsBeforeBreak .midnight "07:30\n".toList 450 :=
      ⟨"07:30".toList, ⟨'0', '7', '3', '0', rfl, by decide⟩, rfl, .reading (by decide)⟩
    refine ⟨x, hminutes, (hexact 450).2 (.inr hread), ?_⟩
    intro n hn
    exact hn.not_tellsBeforeBreak 450 hread
  · have hrange : (730 : Int).natAbs < 2 ^ 1024 - 2 ^ 970 := by decide +kernel
    obtain ⟨cs, x, -, -, -, -, -, honly, hfalse⟩ :=
      minutes_are_told .midnight (.int 730) hrange
    have hnan : x = .nan := by
      by_contra hne
      obtain ⟨s, hs⟩ := honly hne
      cases hs
    exact (hfalse hnan (.text "time") trivial .after (by decide)).1

end Value

end Waymark
