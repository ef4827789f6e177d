/-
**Reading JSON texts.**

A JSON text is one value with blanks around it.  The reader goes through the text once, from left
to right, and stops at the first fault.  It is generous in two points: the names `NaN`, `Infinity`
and `-Infinity` are numbers, and a key may be given twice, the later value counting.  It is strict
about the rest: no raw control character in a text, no superfluous comma, no leading zero.

Each step gives the text that is left, together with the fact that it is shorter; the recursion of
the reader rests on that.

Main definitions:

* `Json.Fault` — why a text is refused;
* `Json.scanText?`, `Json.scanNumber?` — the two kinds of tokens that are more than a symbol;
* `Json.read` — the value that a text writes.
-/
import Waymark.Json.Basic
import Waymark.Number.Limit

set_option relaxedAutoImplicit false
set_option autoImplicit false

namespace Waymark

namespace Json

/-- Why a JSON text is refused. -/
inductive Fault where
  /-- The text is not of the form of a JSON value. -/
  | malformed
  /-- A whole number has more digits than are read. -/
  | tooManyDigits (count : Nat)
deriving DecidableEq

/-- A blank of JSON. -/
def isSpace (c : Char) : Bool :=
  c == ' ' || c == '\t' || c == '\n' || c == '\r'

/-- A text without the blanks at its start. -/
def skipSpace (cs : List Char) : List Char := cs.dropWhile isSpace

theorem length_skipSpace_le (cs : List Char) : (skipSpace cs).length ≤ cs.length :=
  (List.dropWhile_suffix _).length_le

/-! ### Texts -/

/-- The value of a hexadecimal digit. -/
def hexValue? (c : Char) : Option Nat :=
  if c.isDigit then some (c.toNat - 48)
  else if 'a' ≤ c ∧ c ≤ 'f' then some (c.toNat - 87)
  else if 'A' ≤ c ∧ c ≤ 'F' then some (c.toNat - 55)
  else none

/-- The value of four hexadecimal digits. -/
def hexValue4? (a b c d : Char) : Option Nat :=
  match hexValue? a, hexValue? b, hexValue? c, hexValue? d with
  | some a, some b, some c, some d => some (((a * 16 + b) * 16 + c) * 16 + d)
  | _, _, _, _ => none

/-- The character that a short escape stands for. -/
def shortEscape? (c : Char) : Option Char :=
  match c with
  | '"' => some '"'
  | '\\' => some '\\'
  | '/' => some '/'
  | 'b' => some '\x08'
  | 'f' => some '\x0c'
  | 'n' => some '\n'
  | 'r' => some '\r'
  | 't' => some '\t'
  | _ => none

/-- The codes of a text up to its closing quote, and what follows the quote.  Characters outside
the basic plane may be given as two escapes; each of them counts as a code here. -/
def scanText? (cs : List Char) : Option (List Nat × List Char) :=
  match cs with
  | [] => none
  | '"' :: rest => some ([], rest)
  | '\\' :: 'u' :: a :: b :: c :: d :: rest =>
    match hexValue4? a b c d, scanText? rest with
    | some code, some (codes, rest) => some (code :: codes, rest)
    | _, _ => none
  | '\\' :: c :: rest =>
    match shortEscape? c, scanText? rest with
    | some c, some (codes, rest) => some (c.toNat :: codes, rest)
    | _, _ => none
  | c :: rest =>
    if c = '\\' ∨ c.toNat < 0x20 then none
    else
      match scanText? rest with
      | some (codes, rest) => some (c.toNat :: codes, rest)
      | none => none

/-- The first half of a pair of codes. -/
def isHighHalf (n : Nat) : Bool := 0xD800 ≤ n && n ≤ 0xDBFF

/-- The second half of a pair of codes. -/
def isLowHalf (n : Nat) : Bool := 0xDC00 ≤ n && n ≤ 0xDFFF

/-- The character of a code; a half without its other half stands for the replacement character. -/
def charOf (n : Nat) : Char :=
  if isHighHalf n || isLowHalf n then '\ufffd' else Char.ofNat n

/-- The characters that codes stand for, two matching halves being one character. -/
def joinHalves (codes : List Nat) : List Char :=
  match codes with
  | [] => []
  | [n] => [charOf n]
  | high :: low :: rest =>
    if isHighHalf high && isLowHalf low then
      Char.ofNat (0x10000 + (high - 0xD800) * 0x400 + (low - 0xDC00)) :: joinHalves rest
    else charOf high :: joinHalves (low :: rest)

theorem length_lt_of_scanText? {cs rest : List Char} {codes : List Nat}
    (h : scanText? cs = some (codes, rest)) : rest.length < cs.length := by
  fun_induction scanText? cs generalizing codes rest <;> simp_all <;> grind

/-! ### Numbers -/

/-- The whole part of a number: zero, or digits that do not start with zero. -/
def scanWhole? (cs : List Char) : Option (List Char × List Char) :=
  match cs with
  | '0' :: rest => some (['0'], rest)
  | _ => Text.digits? cs

/-- The point and the digits behind it, if they are there. -/
def scanFraction (cs : List Char) : List Char × List Char :=
  match cs with
  | '.' :: rest =>
    match Text.digits? rest with
    | some (ds, rest) => ('.' :: ds, rest)
    | none => ([], cs)
  | _ => ([], cs)

/-- The sign of a power of ten, if it is there. -/
def scanPowerSign (cs : List Char) : List Char × List Char :=
  match cs with
  | '+' :: rest => (['+'], rest)
  | '-' :: rest => (['-'], rest)
  | _ => ([], cs)

/-- The power of ten that ends a number, if it is there. -/
def scanPower (cs : List Char) : List Char × List Char :=
  match cs with
  | [] => ([], [])
  | e :: rest =>
    if e = 'e' ∨ e = 'E' then
      let (sign, rest) := scanPowerSign rest
      match Text.digits? rest with
      | some (ds, rest) => (e :: (sign ++ ds), rest)
      | none => ([], cs)
    else ([], cs)

/-- The parts of a number: its sign, the digits of its whole part, and the rest of its text. -/
structure NumberToken where
  negative : Bool
  whole : List Char
  tail : List Char

/-- The number after its sign, and what follows it. -/
def scanUnsigned? (negative : Bool) (cs : List Char) : Option (NumberToken × List Char) :=
  match scanWhole? cs with
  | none => none
  | some (whole, rest) =>
    let (fraction, rest) := scanFraction rest
    let (power, rest) := scanPower rest
    some (⟨negative, whole, fraction ++ power⟩, rest)

/-- The number at the start of a text, and what follows it. -/
def scanNumber? (cs : List Char) : Option (NumberToken × List Char) :=
  match cs with
  | '-' :: rest => scanUnsigned? true rest
  | _ => scanUnsigned? false cs

/-- The value of a number: whole if nothing follows its whole part. -/
def NumberToken.value (t : NumberToken) : Except Fault Json :=
  match t.tail with
  | [] =>
    if Numeral.maxDigits < t.whole.length then .error (.tooManyDigits t.whole.length)
    else
      let n : Int := Text.digitsValue t.whole
      .ok (.int (if t.negative then -n else n))
  | tail =>
    match Double.read? ((if t.negative then ['-'] else []) ++ t.whole ++ tail) with
    | some x => .ok (.float x)
    | none => .error .malformed

theorem length_lt_of_digits? {cs ds rest : List Char} (h : Text.digits? cs = some (ds, rest)) :
    rest.length < cs.length := by
  unfold Text.digits? at h
  split at h
  · simp at h
  · rename_i ds' hne
    simp only [Option.some.injEq, Prod.mk.injEq] at h
    have hlen :=
      congrArg List.length (List.takeWhile_append_dropWhile (p := Char.isDigit) (l := cs))
    rw [List.length_append] at hlen
    have : 0 < (cs.takeWhile Char.isDigit).length :=
      List.length_pos_iff.2 (fun e => hne (by simpa using e))
    rw [← h.2]
    omega

theorem length_lt_of_scanWhole? {cs ds rest : List Char} (h : scanWhole? cs = some (ds, rest)) :
    rest.length < cs.length := by
  unfold scanWhole? at h
  split at h
  · simp only [Option.some.injEq, Prod.mk.injEq] at h
    simp [← h.2]
  · exact length_lt_of_digits? h

theorem length_scanFraction_le (cs : List Char) : (scanFraction cs).2.length ≤ cs.length := by
  unfold scanFraction
  split
  · split
    · rename_i h
      have := length_lt_of_digits? h
      simp only [List.length_cons]
      omega
    · simp
  · simp

theorem length_scanPowerSign_le (cs : List Char) : (scanPowerSign cs).2.length ≤ cs.length := by
  unfold scanPowerSign
  split <;> simp

theorem length_scanPower_le (cs : List Char) : (scanPower cs).2.length ≤ cs.length := by
  unfold scanPower
  split
  · simp
  · rename_i e rest
    split
    · have hs := length_scanPowerSign_le rest
      simp only
      split
      · rename_i h
        have := length_lt_of_digits? h
        simp only [List.length_cons]
        omega
      · simp
    · simp

theorem length_lt_of_scanUnsigned? {negative : Bool} {cs rest : List Char} {t : NumberToken}
    (h : scanUnsigned? negative cs = some (t, rest)) : rest.length < cs.length := by
  unfold scanUnsigned? at h
  split at h
  · simp at h
  · rename_i whole rest' hw
    simp only [Option.some.injEq, Prod.mk.injEq] at h
    have h1 := length_lt_of_scanWhole? hw
    have h2 := length_scanFraction_le rest'
    have h3 := length_scanPower_le (scanFraction rest').2
    rw [← h.2]
    omega

theorem length_lt_of_scanNumber? {cs rest : List Char} {t : NumberToken}
    (h : scanNumber? cs = some (t, rest)) : rest.length < cs.length := by
  unfold scanNumber? at h
  split at h
  · have := length_lt_of_scanUnsigned? h
    simp only [List.length_cons]
    omega
  · exact length_lt_of_scanUnsigned? h

/-! ### Values -/

/-- The text after a fixed spelling. -/
def dropExact? (spelling : List Char) (cs : List Char) : Option (List Char) :=
  match spelling, cs with
  | [], cs => some cs
  | _ :: _, [] => none
  | s :: spelling, c :: cs => if s = c then dropExact? spelling cs else none

theorem length_of_dropExact? {spelling cs rest : List Char}
    (h : dropExact? spelling cs = some rest) : rest.length + spelling.length = cs.length := by
  fun_induction dropExact? spelling cs with
  | case1 => simp_all
  | case2 => simp at h
  | case3 spelling c cs ih =>
    have := ih h
    simp only [List.length_cons]
    omega
  | case4 => simp at h

/-- What a value may be spelled as, if it is no text, number, array or object. -/
def names : List (String × Json) :=
  [("null", .null), ("true", .bool true), ("false", .bool false), ("NaN", .float .nan),
    ("Infinity", .float (Double.infinity false)), ("-Infinity", .float (Double.infinity true))]

/-- The named value at the start of a text, and what follows it. -/
def scanName? (cs : List Char) : Option (Json × List Char) :=
  names.findSome? (fun (name, value) => (dropExact? name.toList cs).map (value, ·))

theorem length_lt_of_scanName? {cs rest : List Char} {value : Json}
    (h : scanName? cs = some (value, rest)) : rest.length < cs.length := by
  obtain ⟨⟨name, v⟩, hmem, hname⟩ := List.exists_of_findSome?_eq_some h
  obtain ⟨r, hr, heq⟩ := Option.map_eq_some_iff.1 hname
  have hlen := length_of_dropExact? hr
  have hpos : 0 < name.toList.length := by
    simp only [names, List.mem_cons, Prod.mk.injEq, List.not_mem_nil, or_false] at hmem
    rcases hmem with ⟨rfl, _⟩ | ⟨rfl, _⟩ | ⟨rfl, _⟩ | ⟨rfl, _⟩ | ⟨rfl, _⟩ | ⟨rfl, _⟩ <;> decide
  simp only [Prod.mk.injEq] at heq
  rw [← heq.2]
  omega

/-- The text that is left after a step of reading `cs`. -/
abbrev Left (cs : List Char) : Type := { rest : List Char // rest.length < cs.length }

mutual

/-- The value at the start of a text, and what follows it. -/
def readValue (cs : List Char) : Except Fault (Json × Left cs) :=
  match hs : cs with
  | [] => .error .malformed
  | '"' :: rest =>
    match h : scanText? rest with
    | none => .error .malformed
    | some (codes, rest') =>
      .ok (.text (String.ofList (joinHalves codes)), ⟨rest', by
        have := length_lt_of_scanText? h
        simp only [List.length_cons]; omega⟩)
  | '[' :: rest =>
    match h : skipSpace rest with
    | ']' :: rest' =>
      .ok (.array [], ⟨rest', by
        have := length_skipSpace_le rest
        simp only [h, List.length_cons] at this ⊢; omega⟩)
    | _ =>
      match readItems (skipSpace rest) with
      | .error f => .error f
      | .ok (items, ⟨rest', hr⟩) =>
        .ok (.array items, ⟨rest', by
          have := length_skipSpace_le rest
          simp only [List.length_cons]; omega⟩)
  | '\x7b' :: rest =>
    match h : skipSpace rest with
    | '\x7d' :: rest' =>
      .ok (.object [], ⟨rest', by
        have := length_skipSpace_le rest
        simp only [h, List.length_cons] at this ⊢; omega⟩)
    | _ =>
      match readMembers [] (skipSpace rest) with
      | .error f => .error f
      | .ok (members, ⟨rest', hr⟩) =>
        .ok (.object members, ⟨rest', by
          have := length_skipSpace_le rest
          simp only [List.length_cons]; omega⟩)
  | c :: rest =>
    match h : scanName? (c :: rest) with
    | some (value, rest') => .ok (value, ⟨rest', length_lt_of_scanName? h⟩)
    | none =>
      match h : scanNumber? (c :: rest) with
      | none => .error .malformed
      | some (token, rest') =>
        match token.value with
        | .error f => .error f
        | .ok value => .ok (value, ⟨rest', length_lt_of_scanNumber? h⟩)
termination_by 2 * cs.length
decreasing_by
  all_goals
    have := length_skipSpace_le rest
    simp only [List.length_cons]
    omega

/-- The items of an array up to its closing bracket, and what follows it. -/
def readItems (cs : List Char) : Except Fault (List Json × Left cs) :=
  match readValue cs with
  | .error f => .error f
  | .ok (item, ⟨rest, hr⟩) =>
    match h : skipSpace rest with
    | ']' :: rest' =>
      .ok ([item], ⟨rest', by
        have := length_skipSpace_le rest
        simp only [h, List.length_cons] at this; omega⟩)
    | ',' :: rest' =>
      match readItems (skipSpace rest') with
      | .error f => .error f
      | .ok (items, ⟨rest'', hr'⟩) =>
        .ok (item :: items, ⟨rest'', by
          have h1 := length_skipSpace_le rest
          have h2 := length_skipSpace_le rest'
          simp only [h, List.length_cons] at h1; omega⟩)
    | _ => .error .malformed
termination_by 2 * cs.length + 1
decreasing_by
  · omega
  · have h1 := length_skipSpace_le rest
    have h2 := length_skipSpace_le rest'
    simp only [h, List.length_cons] at h1
    omega

/-- The members of an object up to its closing brace, added to those read before, and what follows
it. -/
def readMembers (before : List (String × Json)) (cs : List Char) :
    Except Fault (List (String × Json) × Left cs) :=
  match hs : cs with
  | '"' :: rest =>
    match ht : scanText? rest with
    | none => .error .malformed
    | some (codes, rest₁) =>
      match hc : skipSpace rest₁ with
      | ':' :: rest₂ =>
        match readValue (skipSpace rest₂) with
        | .error f => .error f
        | .ok (value, ⟨rest₃, hr⟩) =>
          let members := insertMember (String.ofList (joinHalves codes)) value before
          match he : skipSpace rest₃ with
          | '\x7d' :: rest₄ =>
            .ok (members, ⟨rest₄, by
              have h0 := length_lt_of_scanText? ht
              have h1 := length_skipSpace_le rest₁
              have h2 := length_skipSpace_le rest₂
              have h3 := length_skipSpace_le rest₃
              simp only [hc, he, List.length_cons] at h1 h3 ⊢; omega⟩)
          | ',' :: rest₄ =>
            match readMembers members (skipSpace rest₄) with
            | .error f => .error f
            | .ok (members, ⟨rest₅, hr'⟩) =>
              .ok (members, ⟨rest₅, by
                have h0 := length_lt_of_scanText? ht
                have h1 := length_skipSpace_le rest₁
                have h2 := length_skipSpace_le rest₂
                have h3 := length_skipSpace_le rest₃
                have h4 := length_skipSpace_le rest₄
                simp only [hc, he, List.length_cons] at h1 h3 ⊢; omega⟩)
          | _ => .error .malformed
      | _ => .error .malformed
  | _ => .error .malformed
termination_by 2 * cs.length + 1
decreasing_by
  · have h0 := length_lt_of_scanText? ht
    have h1 := length_skipSpace_le rest₁
    have h2 := length_skipSpace_le rest₂
    simp only [hc, List.length_cons] at h1
    simp only [List.length_cons]
    omega
  · have h0 := length_lt_of_scanText? ht
    have h1 := length_skipSpace_le rest₁
    have h2 := length_skipSpace_le rest₂
    have h3 := length_skipSpace_le rest₃
    have h4 := length_skipSpace_le rest₄
    simp only [hc, he, List.length_cons] at h1 h3
    simp only [List.length_cons]
    omega

end

/-- The value that a JSON text writes, with nothing but blanks around it. -/
def read (cs : List Char) : Except Fault Json :=
  match readValue (skipSpace cs) with
  | .error f => .error f
  | .ok (value, ⟨rest, _⟩) =>
    match skipSpace rest with
    | [] => .ok value
    | _ => .error .malformed

end Json

end Waymark
