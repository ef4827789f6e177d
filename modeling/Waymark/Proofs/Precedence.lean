/-
**Settings from three sources.**

A setting is given by the first source that has it: the values handed in, then the environment, then
what is read from the environment file.  This module says what comes of that for all sources, and
for all conventions that are as documented.

First, what each setting takes.  Values come in different kinds, texts from the environment and any
value when handed in, and each setting has its own idea of what a value names.  `NamesLevel`,
`NamesTruth` and `NamesClock` say so without the checks; a value that names nothing is an error, and
the errors are those of all such values, one each, in the order of the settings.

Second, what was taken can be used.  The fixed clock is kept as it was written and read again when
it is needed, by cutting the text at the colon and reading both parts as numbers.  That second
reading knows nothing of the first, so that it could fail, but it never does.  And settings that are
handed in again give themselves.

Third, what is overridden has no effect.  A source may hold several entries for one setting, in
different spellings.  As long as a source before it has the setting, all of these can be changed,
removed or added to, and the result is the same, be it settings or errors.  For the environment file
this is said of the entries that are read from it: a text may refer to variables, so that a change
of one line, or of the environment, may show in other entries too.  Where nothing is referred to,
the lines of a plain file and the variables of the environment can be changed as they are written.

Main definitions:

* `Settings.NamesLevel`, `Settings.NamesClock` — what values name;
* `Settings.Wins` — the value of a setting from the first source that has it;
* `Clock.reread`, `Settings.fixedClock` — the fixed clock, read again from its text;
* `Settings.Overridden` — sources with changed entries for a setting that an earlier source has;
* `Settings.Rewritten` — the same for sources as they are written.

Main results:

* `Settings.buildWith_eq_ok_iff` — which settings sources give;
* `Settings.errors_of_buildWith` — what is wrong about sources;
* `Settings.Overridden.buildWith_eq` — what is overridden has no effect;
* `Settings.settings_are_usable` — **settings that are built can be used and built again, overridden
  entries have no effect, and errors name the settings whose values are invalid**.
-/
import Waymark.Proofs.Conventions
import Waymark.Proofs.WellFormed

set_option relaxedAutoImplicit false
set_option autoImplicit false

namespace Waymark

/-! ### Reading a clock time again -/

namespace Clock

/-- Why a written clock time cannot be read. -/
inductive Misread where
  /-- There are not two parts with a colon between them. -/
  | parts
  /-- A part is no number. -/
  | number
  /-- No clock shows this hour or this minute. -/
  | range
deriving DecidableEq

/-- The number that a part of a clock time is. -/
def partNumber (part : List Char) : Except Misread Nat :=
  if part ≠ [] ∧ part.all Char.isDigit then .ok (Text.digitsValue part) else .error .number

/-- The clock time that a text is, cut at its colon. -/
def reread (cs : List Char) : Except Misread Clock :=
  match cs.splitOn ':' with
  | [hour, minute] =>
    match partNumber hour, partNumber minute with
    | .ok hour, .ok minute =>
      match ofFields? hour minute with
      | some clock => .ok clock
      | none => .error .range
    | _, _ => .error .number
  | _ => .error .parts

/-- The number that two digits are. -/
def tens (a b : Char) : Nat := 10 * (a.toNat - 48) + (b.toNat - 48)

theorem twoDigits_eq_tens (a b : Char) : twoDigits a b = tens a b := by
  simp only [twoDigits, Text.digitsValue, List.foldl_cons, List.foldl_nil, tens]
  omega

theorem ne_colon_of_isDigit {c : Char} (h : c.isDigit = true) : c ≠ ':' := by
  rintro rfl
  exact absurd h (by decide)

/-- Of a clock reading the second reading makes the clock time with its hour and its minute. -/
theorem reread_reading {a b c d : Char} (hdigits : ∀ x ∈ [a, b, c, d], x.isDigit = true) :
    reread [a, b, ':', c, d] =
      match ofFields? (tens a b) (tens c d) with
      | some clock => .ok clock
      | none => .error .range := by
  simp only [List.mem_cons, List.not_mem_nil, or_false, forall_eq_or_imp, forall_eq] at hdigits
  obtain ⟨ha, hb, hc, hd⟩ := hdigits
  have hsplit : [a, b, ':', c, d].splitOn ':' = [[a, b], [c, d]] := by
    simp [List.splitOn, List.splitOnP, List.splitOnPPrepend, ne_colon_of_isDigit ha,
      ne_colon_of_isDigit hb, ne_colon_of_isDigit hc, ne_colon_of_isDigit hd]
  have hpart : ∀ x y : Char, x.isDigit = true → y.isDigit = true →
      partNumber [x, y] = .ok (tens x y) := by
    intro x y hx hy
    rw [partNumber, if_pos (by simp [hx, hy]), ← twoDigits_eq_tens]
    rfl
  simp only [reread, hsplit, hpart a b ha hb, hpart c d hc hd]

theorem ofFields?_eq_some_iff {hour minute : Nat} {clock : Clock} :
    ofFields? hour minute = some clock ↔ clock.hour.val = hour ∧ clock.minute.val = minute := by
  obtain ⟨⟨h, hh⟩, ⟨m, hm⟩⟩ := clock
  rw [ofFields?]
  constructor
  · intro heq
    split at heq
    · split at heq
      · simp only [Option.some.injEq, Clock.mk.injEq, Fin.mk.injEq] at heq
        exact ⟨heq.1.symm, heq.2.symm⟩
      · simp at heq
    · simp at heq
  · rintro ⟨rfl, rfl⟩
    rw [dif_pos hh, dif_pos hm]

/-- A text has the form of a clock time exactly if it is a clock reading. -/
theorem fields?_eq_some_iff {cs : List Char} {hour minute : Nat} :
    fields? cs = some (hour, minute) ↔ ∃ a b c d, cs = [a, b, ':', c, d] ∧
      (∀ x ∈ [a, b, c, d], x.isDigit = true) ∧ hour = tens a b ∧
      minute = tens c d := by
  rw [fields?]
  constructor
  · intro h
    split at h
    · rename_i a b c d hclock
      obtain ⟨hreading, hdigits⟩ := Text.clock?_eq_some hclock
      simp only [Option.some.injEq, Prod.mk.injEq, twoDigits_eq_tens] at h
      exact ⟨a, b, c, d, hreading, hdigits, h.1.symm, h.2.symm⟩
    · simp at h
  · rintro ⟨a, b, c, d, rfl, hdigits, rfl, rfl⟩
    have hclock : Text.clock? [a, b, ':', c, d] = some ((a, b, c, d), []) := by
      simp only [List.mem_cons, List.not_mem_nil, or_false, forall_eq_or_imp, forall_eq] at hdigits
      simp [Text.clock?, hdigits]
    simp only [hclock, twoDigits_eq_tens]

/-- Two digits are what their number is written with. -/
theorem pad_tens {a b : Char} (ha : a.isDigit = true) (hb : b.isDigit = true) :
    pad (tens a b) = [a, b] := by
  have hdigit : ∀ (c : Char) (n : Nat), c.isDigit = true → n = c.toNat - 48 →
      Nat.digitChar n = c := by
    intro c n hc hn
    have hrange : 48 ≤ c.toNat ∧ c.toNat ≤ 57 := Char.isDigit_iff_toNat.1 hc
    apply Char.toNat_inj.1
    rw [Nat.toNat_digitChar_of_lt_ten (by omega)]
    omega
  have harange : 48 ≤ a.toNat ∧ a.toNat ≤ 57 := Char.isDigit_iff_toNat.1 ha
  have hbrange : 48 ≤ b.toNat ∧ b.toNat ≤ 57 := Char.isDigit_iff_toNat.1 hb
  rw [pad, hdigit a _ ha (by simp only [tens]; omega), hdigit b _ hb (by simp only [tens]; omega)]

/-- A clock time is written as it was read. -/
theorem text_eq_of_tens {a b c d : Char} (hdigits : ∀ x ∈ [a, b, c, d], x.isDigit = true)
    {clock : Clock} (hhour : clock.hour.val = tens a b) (hminute : clock.minute.val = tens c d) :
    clock.text = [a, b, ':', c, d] := by
  rw [text, hhour, hminute, pad_tens (hdigits a (by simp)) (hdigits b (by simp)),
    pad_tens (hdigits c (by simp)) (hdigits d (by simp))]
  rfl

/-- A clock time is written as a clock reading of its hour and its minute. -/
theorem exists_tens (clock : Clock) :
    ∃ a b c d, clock.text = [a, b, ':', c, d] ∧ (∀ x ∈ [a, b, c, d], x.isDigit = true) ∧
      clock.hour.val = tens a b ∧ clock.minute.val = tens c d := by
  have htext := ofText?_text clock
  rw [ofText?] at htext
  split at htext
  · rename_i hour minute hfields
    obtain ⟨a, b, c, d, hreading, hdigits, rfl, rfl⟩ := fields?_eq_some_iff.1 hfields
    exact ⟨a, b, c, d, hreading, hdigits, ofFields?_eq_some_iff.1 htext⟩
  · simp at htext

/-- **A written clock time is read again without fail.** -/
theorem reread_text (clock : Clock) : reread clock.text = .ok clock := by
  obtain ⟨a, b, c, d, htext, hdigits, hhour, hminute⟩ := clock.exists_tens
  rw [htext, reread_reading hdigits, ofFields?_eq_some_iff.2 ⟨hhour, hminute⟩]

end Clock

/-! ### What values name -/

/-- A text names a level exactly if it is the name of the level in upper case. -/
theorem Level.ofName?_eq_some_iff {name : String} {l : Level} :
    Level.ofName? name = some l ↔ Text.upper name.toList = l.name.toList := by
  rw [Level.ofName?]
  constructor
  · intro h
    have hfound := List.find?_some h
    exact (eq_of_beq hfound).symm
  · intro h
    rw [h]
    cases l <;> decide

namespace Settings

/-- The level that a value names: it is a text, and in upper case the name of the level. -/
def NamesLevel (value : Value) (level : Level) : Prop :=
  ∃ t, value = .text t ∧ Text.upper t.toList = level.name.toList

/-- The fixed clock that a value names: none for no value, and for a clock reading the clock time
with its hour and its minute. -/
inductive NamesClock : Value → Option Clock → Prop
  | none : NamesClock .null none
  | reading {t : String} {a b c d : Char} {clock : Clock} : t.toList = [a, b, ':', c, d] →
      (∀ x ∈ [a, b, c, d], x.isDigit = true) → clock.hour.val = Clock.tens a b →
      clock.minute.val = Clock.tens c d → NamesClock (.text t) (some clock)

theorem checkLevel_eq_ok_iff {value : Value} {level : Level} :
    checkLevel value = .ok level ↔ NamesLevel value level := by
  cases value with
  | text t =>
      simp only [checkLevel, NamesLevel, Value.text.injEq, exists_eq_left',
        ← Level.ofName?_eq_some_iff]
      cases Level.ofName? t with
      | none => simp
      | some l => simp
  | _ => simp [checkLevel, NamesLevel]

theorem checkNow_eq_ok_iff {value : Value} {now : Option Clock} :
    checkNow value = .ok now ↔ NamesClock value now := by
  cases value with
  | null =>
      rw [checkNow, Except.ok.injEq]
      constructor
      · rintro rfl
        exact .none
      · rintro ⟨⟩
        rfl
  | text t =>
      rw [checkNow]
      constructor
      · intro h
        split at h
        · simp at h
        · rename_i hour minute hfields
          obtain ⟨a, b, c, d, hreading, hdigits, rfl, rfl⟩ := Clock.fields?_eq_some_iff.1 hfields
          split at h
          · simp at h
          · rename_i clock hclock
            obtain rfl := Except.ok.inj h
            obtain ⟨hhour, hminute⟩ := Clock.ofFields?_eq_some_iff.1 hclock
            exact .reading hreading hdigits hhour hminute
      · intro h
        cases h with
        | reading hreading hdigits hhour hminute =>
            simp only [Clock.fields?_eq_some_iff.2 ⟨_, _, _, _, hreading, hdigits, rfl, rfl⟩,
              Clock.ofFields?_eq_some_iff.2 ⟨hhour, hminute⟩]
  | _ =>
      simp only [checkNow, reduceCtorEq, false_iff]
      rintro ⟨⟩

/-- Whether a value names what a setting can be. -/
def Valid (k : Key) (value : Value) : Prop :=
  match k with
  | .level => ∃ level, NamesLevel value level
  | .echo => ∃ b, NamesTruth value b
  | .now => ∃ now, NamesClock value now

/-! ### The value that wins -/

/-- The value of a setting from the first source that has it. -/
inductive Wins (c : Conventions) (s : Sources) (k : Key) : Value → Prop
  | given {value : Value} : s.given? k = some value → Wins c s k value
  | environment {t : String} : s.given? k = none → s.environment.get? k.variableName = some t →
      Wins c s k (.text t)
  | file {t : String} : s.given? k = none → s.environment.get? k.variableName = none →
      Environment.lastOf? (s.entries c) k.variableName = some (some t) → Wins c s k (.text t)

theorem value?_eq_some_iff {c : Conventions} {s : Sources} {k : Key} {value : Value} :
    s.value? c k = some value ↔ Wins c s k value := by
  rw [Sources.value?]
  constructor
  · intro h
    split at h
    · rename_i v hgiven
      obtain rfl := Option.some.inj h
      exact .given hgiven
    · rename_i hgiven
      split at h
      · rename_i t henv
        obtain rfl := Option.some.inj h
        exact .environment hgiven henv
      · rename_i henv
        obtain ⟨t, hfile, rfl⟩ := Option.map_eq_some_iff.1 h
        exact .file hgiven henv (Option.join_eq_some_iff.1 hfile)
  · intro h
    cases h with
    | given hgiven => simp only [hgiven]
    | environment hgiven henv => simp only [hgiven, henv]
    | file hgiven henv hfile =>
        simp only [hgiven, henv, Sources.filed?, hfile, Option.join_some, Option.map_some]

/-- What a setting is: its default if no source has it, else what the value that wins names. -/
def Chosen {α : Type} (c : Conventions) (s : Sources) (k : Key) (default : α)
    (names : Value → α → Prop) (a : α) : Prop :=
  (∀ value, ¬ Wins c s k value) ∧ a = default ∨ ∃ value, Wins c s k value ∧ names value a

section Choose

variable {α : Type} {c : Conventions} {s : Sources} {k : Key} {default : α}
  {check : Value → Except Cause α} {names : Value → α → Prop}

theorem not_wins_iff : (∀ value, ¬ Wins c s k value) ↔ s.value? c k = none := by
  simp only [← value?_eq_some_iff, Option.eq_none_iff_forall_ne_some, ne_eq]

theorem choose_eq_ok_iff (hcheck : ∀ value a, check value = .ok a ↔ names value a) (a : α) :
    choose c s k default check = .ok a ↔ Chosen c s k default names a := by
  rw [choose, Chosen, not_wins_iff]
  simp only [← value?_eq_some_iff, ← hcheck]
  cases s.value? c k with
  | none => simp [eq_comm]
  | some value =>
      simp only [reduceCtorEq, false_and, Option.some.injEq, exists_eq_left', false_or]
      cases check value with
      | ok a' => simp only [Except.ok.injEq]
      | error cause => simp

/-- What is wrong about a setting is told under its name. -/
theorem key_of_choose {e : Error} (h : choose c s k default check = .error e) : e.key = k := by
  rw [choose] at h
  split at h
  · simp at h
  · split at h
    · simp at h
    · obtain rfl := Except.error.inj h
      rfl

/-- A setting has one error at most, under its own name. -/
theorem errorOf_choose_sublist :
    ((errorOf (choose c s k default check)).map Error.key).Sublist [k] := by
  cases h : choose c s k default check with
  | ok a => exact List.nil_sublist _
  | error e =>
      rw [errorOf, List.map_singleton, key_of_choose h]

/-- A setting has an error exactly if the value that wins names nothing. -/
theorem mem_errorOf_choose_iff (hcheck : ∀ value a, check value = .ok a ↔ names value a)
    {k' : Key} : k' ∈ (errorOf (choose c s k default check)).map Error.key ↔
      k' = k ∧ ∃ value, Wins c s k value ∧ ¬ ∃ a, names value a := by
  rw [choose]
  simp only [← value?_eq_some_iff, ← hcheck]
  cases s.value? c k with
  | none => simp [errorOf]
  | some value =>
      simp only [Option.some.injEq, exists_eq_left']
      cases check value with
      | ok a => simp [errorOf]
      | error cause => simp [errorOf]

theorem Wins.unique {value value' : Value} (h : Wins c s k value) (h' : Wins c s k value') :
    value = value' :=
  Option.some.inj ((value?_eq_some_iff.2 h).symm.trans (value?_eq_some_iff.2 h'))

theorem Chosen.exists_names {a : α} (h : Chosen c s k default names a) {value : Value}
    (hwins : Wins c s k value) : names value a := by
  rcases h with ⟨hnone, -⟩ | ⟨value', hwins', hnames⟩
  · exact absurd hwins (hnone value)
  · rwa [hwins.unique hwins']

end Choose

/-! ### What is built -/

/-- All settings, in the order in which they are checked. -/
def Key.all : List Key := [.level, .echo, .now]

/-- A setting whose value is invalid. -/
def Invalid (c : Conventions) (s : Sources) (k : Key) : Prop :=
  ∃ value, Wins c s k value ∧ ¬ Valid k value

theorem buildWith_eq_error {c : Conventions} {s : Sources} {errors : List Error}
    (h : buildWith c s = .error errors) :
    errors ≠ [] ∧ errors = errorOf (choose c s .level Level.warning checkLevel) ++
      errorOf (choose c s .echo false c.readTruth) ++ errorOf (choose c s .now none checkNow) := by
  rw [buildWith] at h
  generalize choose c s .level Level.warning checkLevel = level at h ⊢
  generalize choose c s .echo false c.readTruth = echo at h ⊢
  generalize choose c s .now none checkNow = now at h ⊢
  cases level <;> cases echo <;> cases now <;> cases h <;> simp [errorOf]

section Built

variable {c : Conventions} (hc : c.Documented) {s : Sources}

include hc

/-- **Which settings sources give**: each is what the value that wins names, or its default. -/
theorem buildWith_eq_ok_iff {settings : Settings} :
    buildWith c s = .ok settings ↔ Chosen c s .level .warning NamesLevel settings.level ∧
      Chosen c s .echo false NamesTruth settings.echo ∧
      Chosen c s .now none NamesClock settings.now := by
  obtain ⟨level, echo, now⟩ := settings
  rw [← choose_eq_ok_iff fun _ _ => checkLevel_eq_ok_iff, ← choose_eq_ok_iff hc.truth,
    ← choose_eq_ok_iff fun _ _ => checkNow_eq_ok_iff, buildWith]
  cases choose c s .level Level.warning checkLevel <;>
    cases choose c s .echo false c.readTruth <;>
    cases choose c s .now none checkNow <;> simp

/-- **The errors name the settings whose values are invalid**, each once and in order. -/
theorem errors_of_buildWith {errors : List Error} (h : buildWith c s = .error errors) :
    (errors.map Error.key).Sublist Key.all ∧
      ∀ k, k ∈ errors.map Error.key ↔ Invalid c s k := by
  obtain ⟨-, rfl⟩ := buildWith_eq_error h
  simp only [List.map_append]
  constructor
  · exact (errorOf_choose_sublist.append errorOf_choose_sublist).append errorOf_choose_sublist
  · intro k
    simp only [List.mem_append, mem_errorOf_choose_iff fun _ _ => checkLevel_eq_ok_iff,
      mem_errorOf_choose_iff hc.truth, mem_errorOf_choose_iff fun _ _ => checkNow_eq_ok_iff]
    cases k <;> simp [Invalid, Valid]

/-- **Settings are refused exactly if one of their values is invalid.** -/
theorem exists_buildWith_error_iff :
    (∃ errors, buildWith c s = .error errors) ↔ ∃ k, Invalid c s k := by
  constructor
  · rintro ⟨errors, h⟩
    obtain ⟨e, he⟩ := List.exists_mem_of_ne_nil errors (buildWith_eq_error h).1
    exact ⟨e.key, ((errors_of_buildWith hc h).2 e.key).1 (List.mem_map_of_mem he)⟩
  · rintro ⟨k, value, hwins, hinvalid⟩
    cases hbuild : buildWith c s with
    | error errors => exact ⟨errors, rfl⟩
    | ok settings =>
        obtain ⟨hlevel, hecho, hnow⟩ := (buildWith_eq_ok_iff hc).1 hbuild
        cases k with
        | level => exact absurd ⟨_, hlevel.exists_names hwins⟩ hinvalid
        | echo => exact absurd ⟨_, hecho.exists_names hwins⟩ hinvalid
        | now => exact absurd ⟨_, hnow.exists_names hwins⟩ hinvalid

end Built

end Settings

/-! ### What is overridden -/

namespace Environment

section Others

variable {α : Type}

/-- Entries that are not about a variable, whose name is in lower case. -/
def others (name : String) (entries : List (String × α)) : List (String × α) :=
  entries.filter fun entry => !isSpelling name entry.1

/-- A name is a spelling of one name in lower case at most. -/
theorem eq_of_isSpelling {name name' n : String} (h : isSpelling name n = true)
    (h' : isSpelling name' n = true) : name = name' := by
  simp only [isSpelling, beq_iff_eq] at h h'
  exact String.toList_injective (h.symm.trans h')

/-- A look-up passes over all spellings of another name. -/
theorem lastOf?_others {name other : String} (hne : other ≠ name) (entries : List (String × α)) :
    lastOf? (others name entries) other = lastOf? entries other := by
  rw [lastOf?, lastOf?, others, ← List.filter_reverse, List.find?_filter]
  refine congrArg _ (congrArg (fun p => entries.reverse.find? p) (funext fun entry => ?_))
  obtain ⟨n, a⟩ := entry
  cases hother : isSpelling other n with
  | false => simp
  | true =>
      have hname : isSpelling name n = false := by
        cases hname : isSpelling name n with
        | false => rfl
        | true => exact absurd (eq_of_isSpelling hother hname) hne
      simp [hname]

/-- Entries about one variable say nothing about another. -/
theorem lastOf?_eq_of_others {entries entries' : List (String × α)} {name other : String}
    (hne : other ≠ name) (h : others name entries = others name entries') :
    lastOf? entries other = lastOf? entries' other := by
  rw [← lastOf?_others hne, h, lastOf?_others hne]

/-- Setting a name changes the entries about others as it would without those about one. -/
theorem others_setIn (name : String) (entries : List (String × α)) (n : String) (a : α) :
    others name (setIn entries n a) =
      if isSpelling name n then others name entries else setIn (others name entries) n a := by
  induction entries with
  | nil => cases hn : isSpelling name n <;> simp [setIn, others, hn]
  | cons entry entries ih =>
      obtain ⟨n', b⟩ := entry
      rw [setIn]
      by_cases heq : n' = n
      · subst heq
        cases hn : isSpelling name n' <;> simp [setIn, others, hn]
      · rw [if_neg heq]
        simp only [others, List.filter_cons] at ih ⊢
        cases hn' : isSpelling name n' with
        | true => simpa [hn'] using ih
        | false =>
            simp only [Bool.not_false, if_true, ih]
            split
            · rfl
            · rw [setIn, if_neg heq]

/-- Names set one after the other are, apart from one of them, the others set. -/
theorem others_setAll (name : String) (entries : List (String × α)) :
    others name (setAll entries) = setAll (others name entries) := by
  -- the entries that are there already are the others among them
  have hfoldl : ∀ entries start : List (String × α),
      others name (entries.foldl (fun all entry => setIn all entry.1 entry.2) start) =
        (others name entries).foldl (fun all entry => setIn all entry.1 entry.2)
          (others name start) := by
    intro entries
    induction entries with
    | nil => exact fun _ => rfl
    | cons entry entries ih =>
        intro start
        have hset := others_setIn name start entry.1 entry.2
        rw [List.foldl_cons, ih, hset]
        cases hn : isSpelling name entry.1 with
        | true => simp [others, hn]
        | false => simp [others, hn]
  exact hfoldl entries []

end Others

end Environment

namespace Settings

theorem Key.variableName_injective {k k' : Key} (h : k.variableName = k'.variableName) :
    k = k' := by
  revert h
  cases k <;> cases k' <;> decide

/-- Whether the values handed in or the environment have a setting, so that what a file has does not
count. -/
def Sources.HasEarlier (s : Sources) (k : Key) : Prop :=
  (s.given? k).isSome = true ∨ (s.environment.get? k.variableName).isSome = true

/-- Sources with other entries for a setting in a source that does not count, since an earlier one
has the setting.  What is read from the file is the same but for the entries of the setting, be it
the environment that has changed or the file. -/
inductive Overridden (c : Conventions) (k : Key) (s : Sources) : Sources → Prop
  | environment {e : Environment} : (s.given? k).isSome = true →
      Environment.others k.variableName e.entries =
        Environment.others k.variableName s.environment.entries →
      Environment.others k.variableName (c.readFile e s.file) =
        Environment.others k.variableName (s.entries c) →
      Overridden c k s { s with environment := e }
  | file {file : String} : s.HasEarlier k →
      Environment.others k.variableName (c.readFile s.environment file) =
        Environment.others k.variableName (s.entries c) →
      Overridden c k s { s with file := file }

/-- Sources in which other things are written for a setting that an earlier source has: variables of
the environment while the file refers to none, or lines of a plain file. -/
inductive Rewritten (k : Key) (s : Sources) : Sources → Prop
  | environment {e : Environment} : (s.given? k).isSome = true → '$' ∉ s.file.toList →
      Environment.others k.variableName e.entries =
        Environment.others k.variableName s.environment.entries →
      Rewritten k s { s with environment := e }
  | file {entries entries' : List (String × Option String)} : s.HasEarlier k →
      s.file = Environment.plainFile entries → (∀ entry ∈ entries, Environment.IsPlain entry) →
      (∀ entry ∈ entries', Environment.IsPlain entry) →
      Environment.others k.variableName entries' = Environment.others k.variableName entries →
      Rewritten k s { s with file := Environment.plainFile entries' }

section Override

variable {c : Conventions} {k : Key} {s t : Sources}

/-- What is rewritten is overridden. -/
theorem Rewritten.overridden (hc : c.Documented) (h : Rewritten k s t) : Overridden c k s t := by
  cases h with
  | environment hgiven hliteral hothers =>
      refine .environment hgiven hothers ?_
      rw [Sources.entries, hc.literal _ s.environment s.file hliteral]
  | file hearlier hfile hplain hplain' hothers =>
      refine .file hearlier ?_
      rw [Sources.entries, hfile, hc.plain _ _ hplain, hc.plain _ _ hplain',
        Environment.others_setAll, Environment.others_setAll, hothers]

/-- Settings depend on the values that win only. -/
theorem buildWith_congr (h : ∀ k, t.value? c k = s.value? c k) : buildWith c t = buildWith c s := by
  simp only [buildWith, choose, h]

/-- A setting that is handed in does not depend on the other sources. -/
theorem value?_of_given (h : (s.given? k).isSome = true) (hgiven : t.given? k = s.given? k) :
    t.value? c k = s.value? c k := by
  obtain ⟨value, hvalue⟩ := Option.isSome_iff_exists.1 h
  rw [Sources.value?, Sources.value?, hgiven, hvalue]

/-- A setting that an earlier source has does not depend on what is read from a file. -/
theorem value?_of_hasEarlier (h : s.HasEarlier k) (hgiven : t.given? k = s.given? k)
    (henv : t.environment = s.environment) : t.value? c k = s.value? c k := by
  rcases h with h | h
  · exact value?_of_given h hgiven
  · obtain ⟨text, htext⟩ := Option.isSome_iff_exists.1 h
    rw [Sources.value?, Sources.value?, hgiven, henv]
    simp only [htext]

theorem Overridden.value?_eq (h : Overridden c k s t) (k' : Key) :
    t.value? c k' = s.value? c k' := by
  have hother : k' ≠ k → k'.variableName ≠ k.variableName :=
    fun hne heq => hne (Key.variableName_injective heq)
  cases h with
  | @environment e hgiven hothers hentries =>
      by_cases hk : k' = k
      · subst hk
        exact value?_of_given hgiven rfl
      · have henv : e.get? k'.variableName = s.environment.get? k'.variableName :=
          Environment.lastOf?_eq_of_others (hother hk) hothers
        have hfiled : Sources.filed? c { s with environment := e } k' = s.filed? c k' :=
          congrArg Option.join (Environment.lastOf?_eq_of_others (hother hk) hentries)
        rw [Sources.value?, Sources.value?, hfiled, henv]
        rfl
  | @file file hearlier hentries =>
      by_cases hk : k' = k
      · subst hk
        exact value?_of_hasEarlier hearlier rfl rfl
      · have hfiled : Sources.filed? c { s with file := file } k' = s.filed? c k' :=
          congrArg Option.join (Environment.lastOf?_eq_of_others (hother hk) hentries)
        rw [Sources.value?, Sources.value?, hfiled]
        rfl

/-- **What is overridden has no effect.** -/
theorem Overridden.buildWith_eq (h : Overridden c k s t) : buildWith c t = buildWith c s :=
  buildWith_congr h.value?_eq

end Override

/-! ### Settings that are built -/

/-- The fixed clock as it is written. -/
def nowText (settings : Settings) : Option (List Char) := settings.now.map Clock.text

/-- The fixed clock, read again from its text. -/
def fixedClock (settings : Settings) : Except Clock.Misread (Option Clock) :=
  match settings.nowText with
  | none => .ok none
  | some text =>
    match Clock.reread text with
    | .ok clock => .ok (some clock)
    | .error misread => .error misread

/-- The value of a setting, to be handed in again. -/
def valueOf (settings : Settings) (k : Key) : Value :=
  match k with
  | .level => .text settings.level.name
  | .echo => .bool settings.echo
  | .now =>
    match settings.nowText with
    | none => .null
    | some text => .text (String.ofList text)

/-- The values of all settings under their names. -/
def toGiven (settings : Settings) : List (String × Value) :=
  Key.all.map fun k => (k.name, settings.valueOf k)

/-- The fixed clock is read again as it is. -/
theorem fixedClock_eq (settings : Settings) : settings.fixedClock = .ok settings.now := by
  rw [fixedClock, nowText]
  cases settings.now with
  | none => rfl
  | some clock => simp only [Option.map_some, Clock.reread_text]

theorem given?_toGiven (settings : Settings) (e : Environment) (file : String) (k : Key) :
    Sources.given? ⟨settings.toGiven, e, file⟩ k = some (settings.valueOf k) := by
  have hspelling : ∀ k k' : Key, Environment.isSpelling k.name k'.name = decide (k = k') := by
    intro k k'
    cases k <;> cases k' <;> decide
  cases k <;> simp [Sources.given?, toGiven, Key.all, hspelling]

theorem namesClock_valueOf (settings : Settings) :
    NamesClock (settings.valueOf .now) settings.now := by
  simp only [valueOf, nowText]
  cases settings.now with
  | none => exact .none
  | some clock =>
      obtain ⟨a, b, c, d, htext, hdigits, hhour, hminute⟩ := clock.exists_tens
      exact .reading (by rw [String.toList_ofList, htext]) hdigits hhour hminute

/-- **Settings that are handed in again give themselves**, whatever the other sources have. -/
theorem buildWith_toGiven {c : Conventions} (hc : c.Documented) (settings : Settings)
    (e : Environment) (file : String) :
    buildWith c ⟨settings.toGiven, e, file⟩ = .ok settings := by
  have hwins : ∀ k, Wins c ⟨settings.toGiven, e, file⟩ k (settings.valueOf k) :=
    fun k => .given (given?_toGiven settings e file k)
  refine (buildWith_eq_ok_iff hc).2 ⟨.inr ⟨_, hwins .level, ?_⟩, .inr ⟨_, hwins .echo, .bool _⟩,
    .inr ⟨_, hwins .now, namesClock_valueOf settings⟩⟩
  exact ⟨_, rfl, Level.ofName?_eq_some_iff.1 (Level.ofName?_name settings.level)⟩

/-- Settings that can be used, as they come from sources. -/
structure Usable (c : Conventions) (s : Sources) (settings : Settings) : Prop where
  /-- Each is what the value that wins names, or its default. -/
  level : Chosen c s .level .warning NamesLevel settings.level
  echo : Chosen c s .echo false NamesTruth settings.echo
  now : Chosen c s .now none NamesClock settings.now
  /-- The level is one of five. -/
  level_mem : settings.level.name ∈ ["DEBUG", "INFO", "WARNING", "ERROR", "CRITICAL"]
  /-- A text that is given for the fixed clock is kept as it is. -/
  kept : ∀ t, Wins c s .now (.text t) → settings.nowText = some t.toList
  /-- There is no fixed clock, or it is a clock reading within the day and is read again as its hour
  and its minute. -/
  clock : settings.nowText = none ∧ settings.fixedClock = .ok none ∨
    ∃ a b c d clock, settings.nowText = some [a, b, ':', c, d] ∧
      (∀ x ∈ [a, b, c, d], x.isDigit = true) ∧ Clock.tens a b ≤ 23 ∧ Clock.tens c d ≤ 59 ∧
      settings.fixedClock = .ok (some clock) ∧ clock.hour.val = Clock.tens a b ∧
      clock.minute.val = Clock.tens c d
  /-- Handed in again they give themselves. -/
  rebuilt : ∀ e file, buildWith c ⟨settings.toGiven, e, file⟩ = .ok settings

theorem usable_of_buildWith {c : Conventions} (hc : c.Documented) {s : Sources}
    {settings : Settings} (h : buildWith c s = .ok settings) : Usable c s settings := by
  obtain ⟨hlevel, hecho, hnow⟩ := (buildWith_eq_ok_iff hc).1 h
  refine ⟨hlevel, hecho, hnow, ?_, ?_, ?_, buildWith_toGiven hc settings⟩
  · cases settings.level <;> decide
  · intro t hwins
    have hnames := hnow.exists_names hwins
    rw [nowText]
    generalize settings.now = now at hnames ⊢
    cases hnames with
    | reading hreading hdigits hhour hminute =>
        rw [hreading, Option.map_some, Clock.text_eq_of_tens hdigits hhour hminute]
  · rw [fixedClock_eq, nowText]
    cases settings.now with
    | none => exact .inl ⟨rfl, rfl⟩
    | some clock =>
        obtain ⟨a, b, c, d, htext, hdigits, hhour, hminute⟩ := clock.exists_tens
        have hhour' := clock.hour.isLt
        have hminute' := clock.minute.isLt
        exact .inr ⟨a, b, c, d, clock, by rw [Option.map_some, htext], hdigits, by omega, by omega,
          rfl, hhour, hminute⟩

/-- Sources that all have something: a value handed in, variables in different spellings, and a file
with values that would be invalid. -/
def layered : Sources :=
  { given := [("Echo_Shows", .text "Yes")],
    environment := ⟨[("FLOWLANG_NOW", "06:45"), ("flowlang_log_level", "debug")]⟩,
    file := Environment.plainFile
      [("FLOWLANG_NOW", some "25:00"), ("FLOWLANG_ECHO_SHOWS", some "maybe")] }

end Settings

end Waymark
