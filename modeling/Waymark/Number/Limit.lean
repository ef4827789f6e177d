/-
**The limit on the length of whole numbers.**

A whole number is read only up to a fixed number of digits, leading zeros counted.

Main definitions:

* `Numeral.maxDigits` — the greatest number of digits that is read;
* `Numeral.tooManyDigits` — what is said about a longer number.
-/

set_option relaxedAutoImplicit false
set_option autoImplicit false

namespace Waymark

namespace Numeral

/-- The greatest number of digits of a whole number that is read. -/
def maxDigits : Nat := 4300

/-- What is said about a whole number with more digits than are read. -/
def tooManyDigits (count : Nat) : String :=
  "Exceeds the limit (" ++ toString maxDigits
    ++ " digits) for integer string conversion: value has " ++ toString count
    ++ " digits; use sys.set_int_max_str_digits() to increase the limit"

end Numeral

end Waymark
