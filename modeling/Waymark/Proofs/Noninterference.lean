/-
**What a program can learn about the clock.**

The clock is reached by value and not by syntax: comparisons of clock times read it wherever one of
their sides has the text `time`, be it a literal, the value of a variable or the name of a variable
that is not bound.  A program in which no literal and no identifier is `time`, run on variables none
of which holds that text, never comes upon it, so it does the same at any time of the day.

The argument follows two runs at once, at two clocks.  They go through the same states, and no state
has a variable that holds the text; the second half is what makes the next comparison come out the
same in both.

When the environment has a clock of its own, that is the clock a program can learn about, and of the
settings only the one about printing makes a difference.

Main definitions:

* `Value.IsTimeless` — a value that does not read the clock;
* `Run.Together` — two outcomes that are the same, with timeless variables;
* `Run.contextOn` — what a runner that is made on an environment keeps to.

Main results:

* `Value.toText?_eq_currentTime_iff` — only one value has the text that reads the clock;
* `Run.eval_at` — an expression has the same value at any clock;
* `Run.exec_together` — a statement keeps two runs together;
* `Run.clock_noninterference` — **a program that never comes upon the text `time` does the same at
  any clock, and one with a clock of its own does the same under any settings that print alike**.
-/
import Waymark.Proofs.Numeral
import Waymark.Proofs.Safety
import Waymark.Proofs.StraightLine

set_option relaxedAutoImplicit false
set_option autoImplicit false

namespace Waymark

/-! ### Texts that read the clock -/

/-- A text that starts as numbers do, with a digit or a minus sign. -/
def Text.StartsNumeric (cs : List Char) : Prop :=
  ∃ c rest, cs = c :: rest ∧ (c.isDigit = true ∨ c = '-')

namespace Numeral

theorem startsNumeric_integer (n : Int) : Text.StartsNumeric (integer n) := by
  rw [integer]
  split
  · exact ⟨'-', _, rfl, .inr rfl⟩
  · cases hdigits : digitsOf n.natAbs with
    | nil => exact absurd hdigits (digitsOf_ne_nil _)
    | cons d ds =>
        exact ⟨d, ds, rfl, .inl (isDigit_of_mem_digitsOf (by rw [hdigits]; exact .head ds))⟩

end Numeral

namespace Double

theorem startsNumeric_text {negative : Bool} {m : Magnitude} (h : m.isInfinite = false) :
    Text.StartsNumeric (text (.signed negative m)) := by
  cases negative with
  | true => exact ⟨'-', _, rfl, .inr rfl⟩
  | false =>
      obtain ⟨p, hp, -, htext, -⟩ := exists_parts_magnitudeText h
      obtain ⟨c, cs, hcons, hc⟩ := hp.exists_text
      exact ⟨c, cs, htext.trans hcons, .inl hc⟩

end Double

namespace Value

/-- A value that does not read the clock. -/
def IsTimeless (value : Value) : Prop := value ≠ .text currentTime

/-- A text that starts as numbers do is not the one that reads the clock. -/
theorem ne_currentTime_of_startsNumeric {cs : List Char} (h : Text.StartsNumeric cs) :
    cs ≠ currentTime.toList := by
  rintro rfl
  obtain ⟨c, rest, hcs, hc⟩ := h
  obtain ⟨rfl, -⟩ := List.cons.inj hcs
  exact absurd hc (by decide)

theorem doubleText_ne_currentTime (x : Double) : doubleText x ≠ currentTime.toList := by
  cases x with
  | nan => decide
  | signed negative m =>
      rw [doubleText]
      split
      · cases negative <;> decide
      · rename_i hfinite
        split
        · exact ne_currentTime_of_startsNumeric (Numeral.startsNumeric_integer _)
        · exact ne_currentTime_of_startsNumeric
            (Double.startsNumeric_text (by simpa using hfinite))

/-- **Only one value has the text that reads the clock.** -/
theorem toText?_eq_currentTime_iff {value : Value} :
    value.toText? = some currentTime.toList ↔ value = .text currentTime := by
  refine ⟨fun h => ?_, fun h => by rw [h]; rfl⟩
  -- what is neither a number, a text nor a word starts with a bracket or with another letter
  have hfirst : ∀ {c : Char} {rest : List Char}, some (c :: rest) = some currentTime.toList →
      c = 't' := fun h => (List.cons.inj (Option.some.inj h)).1
  cases value with
  | null => exact absurd (hfirst h) (by decide)
  | bool b => cases b <;> exact absurd (Option.some.inj h) (by decide)
  | int n =>
      rw [toText?, intText?_def] at h
      simp only at h
      split at h
      · cases h
      · exact absurd (Option.some.inj h)
          (ne_currentTime_of_startsNumeric (Numeral.startsNumeric_integer n))
  | float x => exact absurd (Option.some.inj h) (doubleText_ne_currentTime x)
  | text s =>
      have hs : s.toList = currentTime.toList := Option.some.inj h
      rw [String.toList_inj.1 hs]
  | list items => exact absurd (hfirst h) (by decide)
  | block items =>
      rcases items with _ | ⟨first, _ | ⟨second, items⟩⟩ <;> exact absurd (hfirst h) (by decide)
  | operator op => cases op <;> exact absurd (Option.some.inj h) (by decide)
  | preference p => cases p <;> exact absurd (Option.some.inj h) (by decide)
  | avoidance a => cases a <;> exact absurd (Option.some.inj h) (by decide)
  | node kind fields => cases kind <;> exact absurd (hfirst h) (by decide)

/-- A timeless value stands for the same minutes at any clock. -/
theorem IsTimeless.toMinutes?_eq {value : Value} (h : value.IsTimeless) (now clock : Clock) :
    value.toMinutes? now = value.toMinutes? clock := by
  rw [toMinutes?, toMinutes?]
  cases htext : value.toText? with
  | none => rfl
  | some cs =>
      have hcs : cs ≠ currentTime.toList := by
        rintro rfl
        exact h (toText?_eq_currentTime_iff.1 htext)
      simp only [minutesOfText, if_neg hcs]

end Value

/-- No literal of a program has the text `time`, and no identifier in it has that name. -/
def Program.IsTimeless (program : Program) : Prop :=
  ∀ e ∈ program.atoms,
    e.literal? ≠ some (.text Value.currentTime) ∧ e ≠ .identifier Value.currentTime

namespace Run

open Value (IsTimeless)

/-! ### Expressions at two clocks -/

section Expressions

variable (now clock : Clock) {vars : Bindings} (hvars : ∀ entry ∈ vars.entries, IsTimeless entry.2)

theorem isTimeless_bool (b : Bool) : IsTimeless (.bool b) := by
  intro h
  cases h

/-- Timeless values are compared alike at any clock. -/
theorem compare_at (op : Operator) {a b : Value} (ha : IsTimeless a) (hb : IsTimeless b) :
    compare now op a b = compare clock op a b := by
  cases op with
  | is => rfl
  | isNot => rfl
  | greater => rfl
  | less => rfl
  | after => simp only [compare, compareBy, ha.toMinutes?_eq now clock, hb.toMinutes?_eq now clock]
  | before =>
      simp only [compare, compareBy, ha.toMinutes?_eq now clock, hb.toMinutes?_eq now clock]

include hvars

/-- **An expression has the same value at any clock**, if neither its atoms nor the variables read
it. -/
theorem eval_at {e : Expr} (he : Supplies IsTimeless e.atoms) :
    eval now vars e.toValue = eval clock vars e.toValue := by
  induction e with
  | compare op left right ihleft ihright =>
      rw [Expr.toValue, eval, eval, ihleft he.left, ihright he.right]
      cases hleft : eval clock vars left.toValue with
      | error f => rfl
      | ok a =>
          cases hright : eval clock vars right.toValue with
          | error f => rfl
          | ok b =>
              have ha := eval_satisfies isTimeless_bool hvars he.left hleft
              have hb := eval_satisfies isTimeless_bool hvars he.right hright
              simp only [compareValue, compare_at now clock op ha hb]
  | _ => rfl

/-- The names that are met and that are not bound are the same at any clock. -/
theorem unboundNames_at {e : Expr} (he : Supplies IsTimeless e.atoms) :
    unboundNames now vars e.toValue = unboundNames clock vars e.toValue := by
  induction e with
  | compare op left right ihleft ihright =>
      rw [Expr.toValue, unboundNames, unboundNames, ihleft he.left, ihright he.right,
        eval_at now clock hvars he.left]
  | _ => rfl

end Expressions

/-! ### Statements at two clocks -/

/-- All variables of a state hold timeless values. -/
def State.IsTimeless (s : State) : Prop := ∀ entry ∈ s.vars.entries, entry.2.IsTimeless

/-- Two outcomes that are the same, in a state whose variables hold timeless values. -/
def Together (a b : Outcome) : Prop := a = b ∧ a.1.IsTimeless

section Statements

variable (ctx : Context) (clock : Clock) {s : State} (hs : s.IsTimeless)

include hs

/-- Two runs evaluate an expression and go on together. -/
theorem withValue_together {e : Expr} (he : Supplies IsTimeless e.atoms)
    {next next' : Value → State → Outcome}
    (hnext : ∀ v s, IsTimeless v → s.IsTimeless → Together (next v s) (next' v s)) :
    Together (withValue ctx e.toValue s next)
      (withValue { ctx with now := clock } e.toValue s next') := by
  have hnote : s.noteUnbound clock e.toValue = s.noteUnbound ctx.now e.toValue := by
    simp only [State.noteUnbound, unboundNames_at ctx.now clock hs he]
  have hvars : (s.noteUnbound ctx.now e.toValue).vars = s.vars := rfl
  rw [withValue, withValue]
  simp only [hnote, hvars, ← eval_at ctx.now clock hs he]
  cases heval : eval ctx.now s.vars e.toValue with
  | error f => exact ⟨rfl, hs⟩
  | ok v => exact hnext v _ (eval_satisfies isTimeless_bool hs he heval) hs

/-- Two runs decide a test and go on together. -/
theorem withTest_together {e : Expr} (he : Supplies IsTimeless e.atoms)
    {next next' : Bool → State → Outcome}
    (hnext : ∀ holds s, s.IsTimeless → Together (next holds s) (next' holds s)) :
    Together (withTest ctx e.toValue s next)
      (withTest { ctx with now := clock } e.toValue s next') := by
  apply withValue_together ctx clock hs he
  intro v s _ hs
  cases v.isTrue? with
  | none => exact ⟨rfl, hs⟩
  | some holds => exact hnext holds s hs

/-- What is shown changes no variable, and nothing about it depends on the clock. -/
theorem display_together (v : Value) :
    Together (display ctx v s) (display { ctx with now := clock } v s) := by
  refine ⟨rfl, ?_⟩
  rw [display]
  split
  · exact hs
  split
  · split
    · exact hs
    · exact hs
  · exact hs

end Statements

mutual

/-- **A statement keeps two runs together.** -/
theorem exec_together (ctx : Context) (clock : Clock) (stmt : Stmt)
    (hstmt : Supplies IsTimeless stmt.atoms) {s : State} (hs : s.IsTimeless) :
    Together (exec ctx stmt.toValue s) (exec { ctx with now := clock } stmt.toValue s) := by
  match stmt with
  | .when event body =>
      rw [Stmt.atoms] at hstmt
      rw [Stmt.toValue, exec, exec, execBody, execBody]
      exact execAll_together ctx clock body hstmt hs
  | .branch test thenBody none =>
      rw [Stmt.atoms] at hstmt
      rw [exec_branch, exec_branch]
      apply withTest_together ctx clock hs hstmt.left
      intro holds s hs
      cases holds with
      | true => exact execAll_together ctx clock thenBody hstmt.right hs
      | false => exact ⟨rfl, hs⟩
  | .branch test thenBody (some elseBody) =>
      rw [Stmt.atoms] at hstmt
      rw [exec_branch, exec_branch]
      apply withTest_together ctx clock hs hstmt.left
      intro holds s hs
      cases holds with
      | true => exact execAll_together ctx clock thenBody hstmt.right.left hs
      | false => exact execAll_together ctx clock elseBody hstmt.right.right hs
  | .display value =>
      rw [Stmt.atoms] at hstmt
      rw [Stmt.toValue, exec, exec]
      apply withValue_together ctx clock hs hstmt
      intro v s _ hs
      exact display_together ctx clock hs v
  | .assign name value =>
      rw [Stmt.atoms] at hstmt
      rw [Stmt.toValue, exec, exec]
      apply withValue_together ctx clock hs hstmt
      intro v s hv hs
      exact ⟨rfl, Bindings.forall_bindIn hv hs⟩
  | .route plan =>
      rw [Stmt.toValue, Route.toValue, exec, exec]
      exact ⟨rfl, hs⟩

/-- Statements one after the other keep two runs together. -/
theorem execAll_together (ctx : Context) (clock : Clock) (body : List Stmt)
    (hbody : Supplies IsTimeless (Stmt.atomsOf body)) {s : State} (hs : s.IsTimeless) :
    Together (execAll ctx (Stmt.toValues body) s)
      (execAll { ctx with now := clock } (Stmt.toValues body) s) := by
  match body with
  | [] =>
      rw [Stmt.toValues, execAll, execAll]
      exact ⟨rfl, hs⟩
  | stmt :: body =>
      rw [Stmt.atomsOf] at hbody
      obtain ⟨hsame, hs'⟩ := exec_together ctx clock stmt hbody.left hs
      rw [Stmt.toValues, execAll, execAll, ← hsame]
      cases hexec : exec ctx stmt.toValue s with
      | mk s₁ fault =>
          rw [hexec] at hs'
          cases fault with
          | some f => exact ⟨rfl, hs'⟩
          | none => exact execAll_together ctx clock body hbody.right hs'

end

/-! ### Programs -/

theorem supplies_of_isTimeless {program : Program} (h : program.IsTimeless) :
    Supplies IsTimeless program.atoms where
  literal := by
    rintro e he v hv rfl
    exact (h e he).1 hv
  name := by
    intro name hname heq
    have hcurrent : name = Value.currentTime := Value.text.inj heq
    exact (h _ hname).2 (by rw [hcurrent])

/-- A timeless program does the same at any clock. -/
theorem run_at (ctx : Context) (clock : Clock) {program : Program} (hprogram : program.IsTimeless)
    {s : State} (hs : s.IsTimeless) :
    run ctx program.toValue s = run { ctx with now := clock } program.toValue s := by
  obtain ⟨hsame, -⟩ :=
    execAll_together ctx clock program.body (supplies_of_isTimeless hprogram) hs
  rw [Program.toValue, run, run, execBody, execBody, hsame]

/-- What stays fixed while a runner runs that is made on an environment, with the clock of the
environment and its listener, if there are any. -/
def contextOn (settings : Settings) (own : Option Clock) (wall : Clock)
    (listener : Option Listener) : Context :=
  { now := chooseClock own settings.now wall, listener := listener, echo := settings.echo }

/-- A job is run by a runner on its environment. -/
theorem context_eq_contextOn (job : Job) :
    job.context = contextOn job.settings job.own job.wall
      (if job.listener then some .patient else none) := rfl

/-- **What a program can learn about the clock.**  A program in which no literal and no identifier
is `time`, run on variables none of which holds that text, has the same outcome at any two clocks.
And any program has the same outcome under any two settings that agree about printing, whatever
their clocks and levels and whatever the wall clock shows, if the environment has a clock of its
own. -/
theorem clock_noninterference :
    (∀ (ctx : Context) (program : Program) (s : State) (clock clock' : Clock),
      program.IsTimeless → s.IsTimeless →
      run { ctx with now := clock } program.toValue s =
        run { ctx with now := clock' } program.toValue s) ∧
    ∀ (program : Program) (s : State) (listener : Option Listener) (own wall wall' : Clock)
      (settings settings' : Settings), settings.echo = settings'.echo →
      run (contextOn settings (some own) wall listener) program.toValue s =
        run (contextOn settings' (some own) wall' listener) program.toValue s := by
  refine ⟨fun ctx program s clock clock' hprogram hs => ?_, ?_⟩
  · exact run_at { ctx with now := clock } clock' hprogram hs
  · intro program s listener own wall wall' settings settings' hecho
    rw [contextOn, contextOn, hecho]
    rfl

/-- A comparison with a clock time that is given as a variable. -/
def latecomer : Program :=
  ⟨[.branch (.compare .after (.identifier "arrival") (.time "08:30"))
    [.display (.text "late")] none]⟩

/-- The variable of the next theorem. -/
def arrival : State := { vars := ⟨[(.text "arrival", .text "09:15")]⟩ }

/-- At night as at noon the latecomer is late; and under an environment's own clock it does not
matter which clock the settings fix. -/
theorem clock_noninterference_latecomer :
    run { now := .midnight } latecomer.toValue arrival =
      run { now := ⟨12, 0⟩ } latecomer.toValue arrival ∧
    run (contextOn { now := some ⟨7, 0⟩, level := .debug } (some ⟨12, 0⟩) .midnight none)
        latecomer.toValue arrival =
      run (contextOn {} (some ⟨12, 0⟩) .midnight none) latecomer.toValue arrival := by
  obtain ⟨hclocks, hsettings⟩ := clock_noninterference
  have hprogram : latecomer.IsTimeless := by
    intro e he
    have hatoms : latecomer.atoms = [.identifier "arrival", .time "08:30", .text "late"] := rfl
    simp only [hatoms, List.mem_cons, List.not_mem_nil, or_false] at he
    rcases he with rfl | rfl | rfl <;> exact ⟨by simp [Expr.literal?, Value.currentTime], by decide⟩
  have hs : arrival.IsTimeless := by
    refine List.forall_mem_singleton.2 fun h => ?_
    exact absurd (Value.text.inj h) (by decide)
  exact ⟨hclocks { now := .midnight } latecomer arrival .midnight ⟨12, 0⟩ hprogram hs,
    hsettings latecomer arrival none ⟨12, 0⟩ .midnight .midnight _ _ rfl⟩

end Run

end Waymark
