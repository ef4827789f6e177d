/-
**Clock times.**

A clock time is an hour and a minute of a day.

Main definitions:

* `Clock` — an hour and a minute;
* `Clock.minutes` — the minutes since midnight;
* `Clock.ofText?` — the clock time that a text of the form `HH:MM` names.
-/
import Waymark.Text.Pattern

set_option relaxedAutoImplicit false
set_option autoImplicit false

namespace Waymark

/-- An hour and a minute of a day. -/
structure Clock where
  hour : Fin 24
  minute : Fin 60
deriving DecidableEq

namespace Clock

/-- The start of the day. -/
def midnight : Clock := ⟨0, 0⟩

/-- The minutes since midnight. -/
def minutes (c : Clock) : Nat := c.hour.val * 60 + c.minute.val

/-- The number that two digits write. -/
def twoDigits (a b : Char) : Nat := Text.digitsValue [a, b]

/-- The hour and the minute of a text of the form `HH:MM`, which need not be those of a clock. -/
def fields? (cs : List Char) : Option (Nat × Nat) :=
  match Text.clock? cs with
  | some ((a, b, c, d), []) => some (twoDigits a b, twoDigits c d)
  | _ => none

/-- The clock time with the given hour and minute, if there is one. -/
def ofFields? (hour minute : Nat) : Option Clock :=
  if h : hour < 24 then
    if m : minute < 60 then some ⟨⟨hour, h⟩, ⟨minute, m⟩⟩ else none
  else none

/-- The clock time that a text of the form `HH:MM` names. -/
def ofText? (cs : List Char) : Option Clock :=
  match fields? cs with
  | some (hour, minute) => ofFields? hour minute
  | none => none

/-- A number below one hundred as two digits. -/
def pad (n : Nat) : List Char := [Nat.digitChar (n / 10 % 10), Nat.digitChar (n % 10)]

/-- A clock time as a text of the form `HH:MM`. -/
def text (c : Clock) : List Char := pad c.hour.val ++ ':' :: pad c.minute.val

/-- The two digits of a number below one hundred write that number. -/
theorem twoDigits_pad : ∀ n : Fin 100,
    twoDigits (Nat.digitChar (n.val / 10 % 10)) (Nat.digitChar (n.val % 10)) = n.val := by
  decide +kernel

theorem isDigit_digitChar : ∀ d : Fin 10, (Nat.digitChar d.val).isDigit = true := by
  decide

/-- A clock time is read back from its text. -/
theorem ofText?_text (c : Clock) : ofText? c.text = some c := by
  obtain ⟨h, m⟩ := c
  have digit : ∀ n : Nat, (Nat.digitChar (n % 10)).isDigit = true :=
    fun n => isDigit_digitChar ⟨n % 10, Nat.mod_lt n (by decide)⟩
  have hour := twoDigits_pad ⟨h.val, by omega⟩
  have minute := twoDigits_pad ⟨m.val, by omega⟩
  simp only at hour minute
  simp only [ofText?, fields?, text, pad, List.cons_append, List.nil_append, Text.clock?, digit,
    Bool.and_self, if_true, hour, minute, ofFields?, h.isLt, m.isLt, dif_pos]

end Clock

end Waymark
