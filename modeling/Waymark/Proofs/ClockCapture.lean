/-
**A runner keeps the clock that it was made with.**

In a session the clock of the environment may be changed at any time, and a runner reads it once,
when it is made.  So the change is seen by the runners that are made after it and by no step before:
what a session tells of its steps depends on their order and on the clock that the environment had
each time a runner was made, and on nothing else about the changes between.

The proof plays the steps without any change of the clock, handing every new runner the clock that
the environment had; both sessions tell what this one tells.

Main definitions:

* `Session.others` — the steps that do not change the clock of the environment;
* `Session.clocksRead` — the clocks that the environment has when runners are made;
* `Session.told` — what is told after the steps that do not change the clock;
* `Session.replay` — what is told if new runners are handed their clocks.

Main results:

* `Session.step_withOwn` — only a new runner asks for the clock of the environment;
* `Session.told_eq_replay` — what is told depends on the other steps and on the clocks read;
* `Session.clock_is_captured` — **changes of the clock between new runners are not seen**, and a new
  runner keeps the variables only.
-/
import Waymark.Session

set_option relaxedAutoImplicit false
set_option autoImplicit false

namespace Waymark

namespace Session

/-! ### Changes of the clock -/

/-- Whether a step changes the clock of the environment. -/
def Step.changesClock (st : Step) : Bool :=
  match st with
  | .setClock _ => true
  | _ => false

/-- The clock of the environment after a step, if it was `own` before. -/
def Step.ownAfter (own : Option Clock) (st : Step) : Option Clock :=
  match st with
  | .setClock own' => own'
  | _ => own

/-- The steps that do not change the clock of the environment. -/
def others (steps : List Step) : List Step := steps.filter (fun st => !st.changesClock)

/-- The clocks that the environment has when runners are made, if its clock is `own` at first. -/
def clocksRead (own : Option Clock) (steps : List Step) : List (Option Clock) :=
  match steps with
  | [] => []
  | .fresh :: steps => own :: clocksRead own steps
  | st :: steps => clocksRead (st.ownAfter own) steps

/-- What is told after each of several steps that does not change the clock of the environment. -/
def told (s : Session) (steps : List Step) : List Report :=
  ((steps.zip (s.play steps)).filter (fun (st, _) => !st.changesClock)).map Prod.snd

/-- A session with another clock in its environment. -/
def withOwn (s : Session) (own : Option Clock) : Session := { s with own := own }

/-- What is told after each of several steps, if the environment has the given clocks when runners
are made. -/
def replay (s : Session) (steps : List Step) (clocks : List (Option Clock)) : List Report :=
  match steps, clocks with
  | [], _ => []
  | .fresh :: _, [] => []
  | .fresh :: steps, own :: clocks =>
    let (after, result) := (s.withOwn own).step .fresh
    report s after result :: replay after steps clocks
  | st :: steps, clocks =>
    let (after, result) := s.step st
    report s after result :: replay after steps clocks

/-! ### Steps under another clock -/

theorem Step.exists_of_changesClock {st : Step} (h : st.changesClock = true) :
    ∃ own, st = .setClock own := by
  cases st with
  | setClock own => exact ⟨own, rfl⟩
  | _ => cases h

theorem Step.ownAfter_eq {st : Step} (h : st.changesClock = false) (own : Option Clock) :
    st.ownAfter own = own := by
  cases st with
  | setClock own => cases h
  | _ => rfl

/-- A step leaves the clock of the environment alone, or changes it as it says. -/
theorem own_step (s : Session) (st : Step) : (s.step st).1.own = st.ownAfter s.own := by
  cases st with
  | run input =>
      rw [step, runIn]
      cases input.load with
      | error f => rfl
      | ok program =>
          simp only
          split <;> rfl
  | eval text =>
      rw [step]
      split <;> rfl
  | compare operator left right => rfl
  | lookup name => rfl
  | bind name value => rfl
  | unbind name => rfl
  | setClock own => rfl
  | fresh => rfl

/-- **Only a new runner asks for the clock of the environment**: any other step has the same result
under another clock, and leaves the same session but for that clock. -/
theorem step_withOwn (s : Session) (own : Option Clock) {st : Step} (h : st ≠ .fresh) :
    (s.withOwn own).step st = ((s.step st).1.withOwn (st.ownAfter own), (s.step st).2) := by
  cases st with
  | run input =>
      rw [step, step, runIn, runIn]
      cases input.load with
      | error f => rfl
      | ok program =>
          have hrun : Run.run (s.withOwn own).context program (s.withOwn own).state =
              Run.run s.context program s.state := rfl
          simp only [hrun]
          split <;> rfl
  | eval text =>
      rw [step, step]
      split <;> rfl
  | compare operator left right => rfl
  | lookup name => rfl
  | bind name value => rfl
  | unbind name => rfl
  | setClock own => rfl
  | fresh => exact absurd rfl h

/-! ### What is told -/

section Told

variable (s : Session) {st : Step} (steps : List Step)

theorem replay_cons (h : st ≠ .fresh) (clocks : List (Option Clock)) :
    s.replay (st :: steps) clocks =
      report s (s.step st).1 (s.step st).2 :: (s.step st).1.replay steps clocks := by
  rw [replay]
  · exact fun _ hst => h hst
  · exact fun _ _ _ hst => h hst

theorem told_setClock (own : Option Clock) :
    s.told (.setClock own :: steps) = (s.withOwn own).told steps := rfl

theorem told_cons (h : st.changesClock = false) :
    s.told (st :: steps) =
      report s (s.step st).1 (s.step st).2 :: (s.step st).1.told steps := by
  rw [told, play, List.zip_cons_cons, List.filter_cons_of_pos (by simp [h])]
  rfl

theorem others_cons (h : st.changesClock = false) : others (st :: steps) = st :: others steps :=
  List.filter_cons_of_pos (by simp [h])

theorem clocksRead_cons (h : st ≠ .fresh) (own : Option Clock) :
    clocksRead own (st :: steps) = clocksRead (st.ownAfter own) steps := by
  rw [clocksRead]
  exact h

/-- What is told if runners are handed their clocks does not depend on that of the environment. -/
theorem replay_withOwn (own : Option Clock) (clocks : List (Option Clock)) :
    (s.withOwn own).replay steps clocks = s.replay steps clocks := by
  induction steps generalizing s own clocks with
  | nil => rfl
  | cons st steps ih =>
      by_cases hst : st = .fresh
      · subst hst
        cases clocks with
        | nil => rfl
        | cons clock clocks => rfl
      · rw [replay_cons _ _ hst, replay_cons _ _ hst, step_withOwn s own hst, ih]
        rfl

/-- **What is told depends on the steps that do not change the clock, and on the clocks that are
read**. -/
theorem told_eq_replay : s.told steps = s.replay (others steps) (clocksRead s.own steps) := by
  induction steps generalizing s with
  | nil => rfl
  | cons st steps ih =>
      cases hchanges : st.changesClock with
      | true =>
          obtain ⟨own, rfl⟩ := Step.exists_of_changesClock hchanges
          rw [told_setClock, ih, replay_withOwn]
          rfl
      | false =>
          rw [told_cons s steps hchanges, others_cons steps hchanges, ih, own_step]
          by_cases hst : st = .fresh
          · subst hst
            rfl
          · rw [replay_cons s _ hst, clocksRead_cons steps hst, Step.ownAfter_eq hchanges]

end Told

/-! ### The law -/

/-- **Changes of the clock between new runners are not seen.**  Two lists of steps that differ in
changes of the environment's clock only, and under which the environment has the same clock whenever
a runner is made, are told alike: each other step has the same result, and after it there are the
same shown values, variables, route plans and printed lines.  And a new runner leaves the variables
as they are, in their order, and starts without shown values and route plans. -/
theorem clock_is_captured :
    (∀ (settings : Settings) (own : Option Clock) (wall : Clock) (steps steps' : List Step),
      others steps = others steps' → clocksRead own steps = clocksRead own steps' →
      (start settings own wall).told steps = (start settings own wall).told steps') ∧
    ∀ s : Session,
      report s (s.step .fresh).1 (s.step .fresh).2 =
        { result := .ok .null, shows := [], vars := s.state.vars, plans := [],
          printed := [] } := by
  refine ⟨fun settings own wall steps steps' hothers hclocks => ?_, fun s => ?_⟩
  · have hstart : (start settings own wall).own = own := rfl
    rw [told_eq_replay, told_eq_replay, hstart, hothers, hclocks]
  · simp only [step, report, List.drop_nil]

/-- The clock is changed twice and put back before a runner is made, which nobody sees. -/
theorem clock_is_captured_detour :
    (start {} none .midnight).told
        [.setClock (some ⟨9, 0⟩), .compare "after" "time" "08:00", .bind "x" (.text "y"),
          .setClock none, .fresh, .lookup "x"] =
      (start {} none .midnight).told
        [.compare "after" "time" "08:00", .bind "x" (.text "y"), .fresh, .setClock (some ⟨7, 0⟩),
          .lookup "x"] :=
  clock_is_captured.1 {} none .midnight _ _ rfl rfl

end Session

end Waymark
