/-
**Shown values and who is told of them.**

A value that is shown is put down first, and then told: handed to the listener, if there is one, or
else printed, if the settings say so.  Telling may fail, so the two could get apart.  They do so in
one case only.  A listener is handed every value that is shown, also the one on which it fails, and
nothing is printed.  Without a listener, what is printed are the texts of the shown values, a line
each; a value without a text is shown and not printed, but it is the last one, since the run stops
there.  And where nothing is to be told, nothing is printed.

The agreement is an invariant of the statements that a run completes, and it is the statement at
which the run stops, if any, that decides about its end.

Main definitions:

* `Run.Told` — what was told of the shown values agrees with them;
* `Run.Unprinted` — a value was shown that has no text, and the run stops.

Main results:

* `Run.exists_shown` — a completed statement that shows a value shows it;
* `Run.Does.told` — a statement keeps the agreement, or shows a value that cannot be printed;
* `Run.told_execAll`, `Run.Ending.told` — so do statements in a row, and the end of a run;
* `Run.shows_are_told` — **whoever is told of shown values is told of all of them**, up to a value
  without a text, which ends the run.
-/
import Waymark.Proofs.Completed
import Waymark.Proofs.Noninterference
import Waymark.Proofs.SetThenShow

set_option relaxedAutoImplicit false
set_option autoImplicit false

namespace Waymark

namespace Run

variable {ctx : Context}

/-! ### Showing a value -/

/-- What was told of the shown values agrees with them: the listener was handed all of them, or the
text of each is a printed line, or none is printed. -/
def Told (ctx : Context) (s : State) : Prop :=
  match ctx.listener, ctx.echo with
  | some _, _ => s.heard = s.shows ∧ s.printed = []
  | none, true => s.shows.map Value.toText? = s.printed.map some
  | none, false => s.printed = []

section

variable {s : State} (h : Told ctx s)

include h

theorem Told.handed (hlistener : ctx.listener.isSome = true) :
    s.heard = s.shows ∧ s.printed = [] := by
  obtain ⟨listener, hlistener⟩ := Option.isSome_iff_exists.1 hlistener
  rw [Told, hlistener] at h
  exact h

theorem Told.lines (hlistener : ctx.listener = none) (hecho : ctx.echo = true) :
    s.shows.map Value.toText? = s.printed.map some := by
  rw [Told, hlistener, hecho] at h
  exact h

theorem Told.silent (hlistener : ctx.listener = none) (hecho : ctx.echo = false) :
    s.printed = [] := by
  rw [Told, hlistener, hecho] at h
  exact h

end

/-- From the state `s` a value was shown that is to be printed and has no text: it is among the
shown values, no line is printed for it, and the run stops. -/
structure Unprinted (ctx : Context) (s : State) (v : Value) (o : Outcome) : Prop where
  listener : ctx.listener = none
  echo : ctx.echo = true
  text : v.toText? = none
  shows : o.1.shows = s.shows ++ [v]
  printed : o.1.printed = s.printed
  fault : o.2 = some .tooLarge

theorem Told.congr {o o' : Outcome} (h : Told ctx o.1) (ho : SameEffects o o') : Told ctx o'.1 := by
  rw [Told] at h ⊢
  rw [← ho.shows, ← ho.heard, ← ho.printed]
  exact h

theorem Unprinted.congr {s : State} {v : Value} {o o' : Outcome} (h : Unprinted ctx s v o)
    (ho : SameEffects o o') : Unprinted ctx s v o' :=
  ⟨h.listener, h.echo, h.text, ho.shows ▸ h.shows, ho.printed ▸ h.printed, ho.fault ▸ h.fault⟩

/-- **To show a value keeps the agreement**, unless the value is to be printed and has no text. -/
theorem Told.display {s : State} (h : Told ctx s) (v : Value) :
    Told ctx (display ctx v s).1 ∨ Unprinted ctx s v (display ctx v s) := by
  obtain ⟨now, listener, echo⟩ := ctx
  cases listener with
  | some listener =>
      obtain ⟨hheard, hprinted⟩ := h
      exact .inl ⟨congrArg (· ++ [v]) hheard, hprinted⟩
  | none =>
      cases echo with
      | false => exact .inl h
      | true =>
          rw [Run.display]
          cases htext : v.toText? with
          | none => exact .inr ⟨rfl, rfl, htext, rfl, rfl, rfl⟩
          | some line =>
              have hshows : s.shows.map Value.toText? = s.printed.map some := h
              refine .inl ?_
              simp [Told, State.note, hshows, htext]

/-! ### Values stay shown -/

/-- A statement takes back no value that was shown. -/
theorem Does.shows_grow {s : State} {stmt : Stmt} {o : Outcome} (h : Does ctx s stmt o) :
    s.shows <+: o.1.shows := by
  cases h with
  | fails h => exact ⟨[], by rw [List.append_nil, ← h.shows]⟩
  | binds _ h => exact ⟨[], by rw [List.append_nil, ← h.shows]⟩
  | collects h => exact ⟨[], by rw [List.append_nil, ← h.shows]⟩
  | @shows value v _ _ h => exact ⟨[v], by rw [← h.shows, shows_display]⟩

theorem shows_grow_execAll {line : List Stmt} (hbasic : ∀ stmt ∈ line, stmt.isBasic = true)
    {s t : State} (h : execAll ctx (Stmt.toValues line) s = (t, none)) : s.shows <+: t.shows := by
  induction line generalizing s with
  | nil =>
      cases h
      exact ⟨[], List.append_nil _⟩
  | cons stmt line ih =>
      obtain ⟨s₁, -, hdoes, hrest, hline⟩ := exists_of_execAll_cons hbasic h
      exact hdoes.shows_grow.trans (ih hrest hline)

theorem Ending.shows_grow {t : State} {o : Outcome} (h : Ending ctx t o) :
    t.shows <+: o.1.shows := by
  cases h with
  | finished h => exact ⟨[], by rw [List.append_nil, ← h.shows]⟩
  | undecided h => exact ⟨[], by rw [List.append_nil, ← h.shows]⟩
  | stopped hbasic _ h =>
      rw [← h.shows]
      exact (does_exec hbasic t).shows_grow

/-- **A completed statement that shows a value shows it**, behind those that were shown before. -/
theorem exists_shown {before after : List Stmt} {value : Expr} {s t : State}
    (hbasic : ∀ stmt ∈ before ++ .display value :: after, stmt.isBasic = true)
    (h : execAll ctx (Stmt.toValues (before ++ .display value :: after)) s = (t, none)) :
    ∃ s₁ v, execAll ctx (Stmt.toValues before) s = (s₁, none) ∧
      eval ctx.now s₁.vars value.toValue = .ok v ∧ s₁.shows ++ [v] <+: t.shows := by
  rw [Stmt.toValues_append, execAll_append] at h
  cases hbefore : execAll ctx (Stmt.toValues before) s with
  | mk s₁ fault =>
      cases fault with
      | some f => simp [hbefore] at h
      | none =>
          simp only [hbefore] at h
          obtain ⟨s₂, -, hdoes, hrest, hafter⟩ :=
            exists_of_execAll_cons (List.forall_mem_append.1 hbasic).2 h
          cases hdoes with
          | fails heffects => exact absurd heffects.fault (by simp)
          | @shows _ v _ heval heffects =>
              refine ⟨s₁, v, rfl, heval, ?_⟩
              rw [← shows_display ctx v s₁, heffects.shows]
              exact shows_grow_execAll hrest hafter

/-! ### Statements and runs -/

/-- **A statement keeps the agreement**, or it shows a value that cannot be printed. -/
theorem Does.told {s : State} {stmt : Stmt} {o : Outcome} (h : Does ctx s stmt o)
    (hs : Told ctx s) :
    Told ctx o.1 ∨ ∃ value v, stmt = .display value ∧ Unprinted ctx s v o := by
  cases h with
  | fails h => exact .inl (hs.congr h)
  | binds _ h => exact .inl (hs.congr h)
  | collects h => exact .inl (hs.congr h)
  | @shows value v _ _ h =>
      obtain htold | hstop := hs.display v
      · exact .inl (htold.congr h)
      · exact .inr ⟨value, v, rfl, hstop.congr h⟩

/-- Statements that run without a fault keep the agreement. -/
theorem told_execAll {line : List Stmt} (hbasic : ∀ stmt ∈ line, stmt.isBasic = true) {s t : State}
    (h : execAll ctx (Stmt.toValues line) s = (t, none)) (hs : Told ctx s) : Told ctx t := by
  induction line generalizing s with
  | nil =>
      cases h
      exact hs
  | cons stmt line ih =>
      obtain ⟨s₁, -, hdoes, hrest, hline⟩ := exists_of_execAll_cons hbasic h
      obtain htold | ⟨_, _, -, hstop⟩ := hdoes.told hs
      · exact ih hrest hline htold
      · exact absurd hstop.fault (by simp)

/-- A run ends in agreement, or with a value that cannot be printed. -/
theorem Ending.told {t : State} {o : Outcome} (h : Ending ctx t o) (ht : Told ctx t) :
    Told ctx o.1 ∨ ∃ value v, Unprinted ctx t v o ∧
      SameEffects (exec ctx (Stmt.display value).toValue t) o := by
  cases h with
  | finished h => exact .inl (ht.congr h)
  | undecided h => exact .inl (ht.congr h)
  | stopped hbasic _ h =>
      obtain htold | ⟨value, v, rfl, hstop⟩ := (does_exec hbasic t).told ht
      · exact .inl (htold.congr h)
      · exact .inr ⟨value, v, hstop.congr h, h⟩

/-- **What follows a statement that stops a run has no effect.** -/
theorem sameEffects_run_of_stop {line : List Stmt} {stmt : Stmt} {s t : State} {o : Outcome}
    (hline : execAll ctx (Stmt.toValues line) s = (t, none))
    (hstmt : SameEffects (exec ctx stmt.toValue t) o) (hfault : o.2 ≠ none) (later : List Stmt) :
    SameEffects (run ctx (Program.toValue ⟨line ++ stmt :: later⟩) s) o := by
  refine (sameEffects_run ctx (Stmt.toValues (line ++ stmt :: later)) s).trans ?_
  rw [Stmt.toValues_append, execAll_append, hline]
  simp only [Stmt.toValues, execAll]
  cases hexec : exec ctx stmt.toValue t with
  | mk t₁ fault =>
      rw [hexec] at hstmt
      cases fault with
      | none => exact absurd hstmt.fault.symm hfault
      | some f => exact hstmt

/-! ### Programs -/

theorem exists_shown_run (ctx : Context) (program : Program) {s : State} {value : Expr}
    {before after : List Stmt}
    (h : completedOf ctx program.body s = before ++ .display value :: after) :
    ∃ s₁ v, execAll ctx (Stmt.toValues before) s = (s₁, none) ∧
      eval ctx.now s₁.vars value.toValue = .ok v ∧
      s₁.shows ++ [v] <+: (run ctx program.toValue s).1.shows := by
  obtain ⟨t, hline, hending⟩ := exists_ending_run ctx program s
  have hbasic := isBasic_of_mem_completedOf ctx program.body s
  rw [h] at hline hbasic
  obtain ⟨s₁, v, hbefore, heval, hshown⟩ := exists_shown hbasic hline
  exact ⟨s₁, v, hbefore, heval, hshown.trans hending.shows_grow⟩

/-- At the start nothing was shown and nothing was told. -/
theorem told_start (ctx : Context) (vars : Bindings) : Told ctx { vars := vars } := by
  obtain ⟨now, listener, echo⟩ := ctx
  cases listener with
  | some listener => exact ⟨rfl, rfl⟩
  | none => cases echo <;> rfl

/-- A run that starts from agreement ends in agreement, or at a value that cannot be printed after
the statements that it completed. -/
theorem told_run (ctx : Context) (program : Program) {s : State} (hs : Told ctx s) :
    Told ctx (run ctx program.toValue s).1 ∨
    ∃ t value v, Told ctx t ∧ Unprinted ctx t v (run ctx program.toValue s) ∧
      ∀ later, SameEffects
        (run ctx (Program.toValue ⟨completedOf ctx program.body s ++ .display value :: later⟩) s)
        (run ctx program.toValue s) := by
  obtain ⟨t, hline, hending⟩ := exists_ending_run ctx program s
  have ht := told_execAll (isBasic_of_mem_completedOf ctx program.body s) hline hs
  obtain htold | ⟨value, v, hstop, heffects⟩ := hending.told ht
  · exact .inl htold
  · have hfault : (run ctx program.toValue s).2 ≠ none := by simp [hstop.fault]
    exact .inr ⟨t, value, v, ht, hstop, sameEffects_run_of_stop hline heffects hfault⟩

/-- **Whoever is told of shown values is told of all of them**, whether the run ends in a fault or
not.  What is shown are the values of the completed statements that show one, each behind those that
were shown before.  A listener is handed the shown values in their order, and nothing is printed.
Without one, and with settings that say so, the text of each shown value is printed in their order,
with a line break behind it; if a shown value has no text, it is the last one, the values before it
are printed and it is not, and the run stops there: it does what the completed statements and that
statement do, whatever statements follow.  With other settings nothing is printed. -/
theorem shows_are_told (settings : Settings) (own : Option Clock) (wall : Clock)
    (listener : Option Listener) (vars : Bindings) (program : Program) :
    let ctx := contextOn settings own wall listener
    let start : State := { vars := vars }
    let outcome := run ctx program.toValue start
    (∀ before value after, completedOf ctx program.body start = before ++ .display value :: after →
      ∃ s₁ v, execAll ctx (Stmt.toValues before) start = (s₁, none) ∧
        eval ctx.now s₁.vars value.toValue = .ok v ∧ s₁.shows ++ [v] <+: outcome.1.shows) ∧
    (listener.isSome = true →
      outcome.1.heard = outcome.1.shows ∧ outputOf outcome.1.printed = "") ∧
    (listener = none → settings.echo = true →
      (∃ lines : List (List Char), outcome.1.shows.map Value.toText? = lines.map some ∧
        outputOf outcome.1.printed = String.ofList (lines.flatMap (· ++ ['\n']))) ∨
      ∃ before v, ∃ lines : List (List Char), outcome.1.shows = before ++ [v] ∧
        v.toText? = none ∧ before.map Value.toText? = lines.map some ∧
        outputOf outcome.1.printed = String.ofList (lines.flatMap (· ++ ['\n'])) ∧
        outcome.2 = some .tooLarge ∧
        ∃ value, ∀ later, SameEffects
          (run ctx (Program.toValue
            ⟨completedOf ctx program.body start ++ .display value :: later⟩) start) outcome) ∧
    (listener = none → settings.echo = false → outputOf outcome.1.printed = "") := by
  intro ctx start outcome
  refine ⟨fun before value after hsplit => exists_shown_run ctx program hsplit, ?_⟩
  obtain htold | ⟨t, value, v, ht, hstop, hlater⟩ := told_run ctx program (told_start ctx vars)
  · refine ⟨fun hlistener => ?_, fun hlistener hecho => .inl ?_, fun hlistener hecho => ?_⟩
    · obtain ⟨hheard, hprinted⟩ := htold.handed hlistener
      exact ⟨hheard, congrArg outputOf hprinted⟩
    · exact ⟨outcome.1.printed, htold.lines hlistener hecho, rfl⟩
    · exact congrArg outputOf (htold.silent hlistener hecho)
  · -- such a value is there only if it was to be printed
    refine ⟨fun hlistener => ?_, fun hlistener hecho => .inr ?_, fun _ hecho => ?_⟩
    · rw [show listener = none from hstop.listener] at hlistener
      cases hlistener
    · exact ⟨t.shows, v, t.printed, hstop.shows, hstop.text, ht.lines hlistener hecho,
        congrArg outputOf hstop.printed, hstop.fault, value, hlater⟩
    · exact absurd (hstop.echo.symm.trans hecho) (by decide)

/-- A text is shown, and then a number that is too large to be written. -/
def counting : Program :=
  ⟨[.display (.text "one"), .when "the day ends" [.display (.identifier "big")],
    .display (.text "two")]⟩

/-- The counting, with the number, under settings that say whether to print. -/
def count (echo : Bool) (listener : Option Listener) : Outcome :=
  run (contextOn { echo := echo } none .midnight listener) counting.toValue
    { vars := ⟨[(.text "big", .int (Int.ofNat (Nat.pow 2 1024)))]⟩ }

/-- The text is shown first.  Handed to a listener, all is shown.  Printed, the number is the last
value that is shown, and only the text before it is printed.  Without either, all is shown and
nothing is printed. -/
theorem shows_are_told_counting :
    [Value.text "one"] <+: (count false none).1.shows ∧
    ((count true (some .patient)).1.shows.length = 3 ∧
      (count true (some .patient)).1.heard = (count true (some .patient)).1.shows) ∧
    (∃ before v, (count true none).1.shows = before ++ [v] ∧ v.toText? = none ∧
      (count true none).2 = some .tooLarge ∧ outputOf (count true none).1.printed = "one\n") ∧
    (count false none).1.shows.length = 3 ∧ outputOf (count false none).1.printed = "" := by
  have htold := fun echo listener => shows_are_told { echo := echo } none .midnight listener
    ⟨[(.text "big", .int (Int.ofNat (Nat.pow 2 1024)))]⟩ counting
  simp only [← count.eq_def] at htold
  refine ⟨?_, ⟨by decide +kernel, ((htold true (some .patient)).2.1 rfl).1⟩, ?_, by decide +kernel,
    (htold false none).2.2.2 rfl rfl⟩
  · obtain ⟨s₁, v, hstart, heval, hshown⟩ := (htold false none).1 [] (.text "one") _ rfl
    cases hstart
    cases heval
    exact hshown
  have htexts : (count true none).1.shows.map Value.toText? = [some "one".toList, none] := by
    decide +kernel
  obtain ⟨lines, hlines, -⟩ | ⟨before, v, lines, hshows, hnone, -, -, hfault, -⟩ :=
    (htold true none).2.2.1 rfl rfl
  · -- not every shown value has a text
    have hnone : none ∈ lines.map some := hlines.symm.trans htexts ▸ by simp
    simp at hnone
  · exact ⟨before, v, hshows, hnone, hfault, by decide +kernel⟩

end Run

end Waymark
