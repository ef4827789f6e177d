/-
**What a run completes.**

A run need not come to its end: an expression may have no value, a test may be undecided, a shown
value may have no text, a listener may fail.  Then the run stops where it is, in the middle of the
blocks around it, and what it did before stays done.  The statements that it completed until then
are a part of the program like those of a run that comes to its end, and they tell what it did:
whatever the end, the run leaves what its completed statements leave when they are run one after
the other, and besides that at most what the statement did at which it stopped.

Main definitions:

* `Run.verdict` — how a test turns out, if it is decided;
* `Run.completedOf` — the basic statements that a run completes, in order;
* `Run.Ending` — how a run ends after the statements that it completes;
* `Run.Does` — what a basic statement does.

Main results:

* `Run.completedOf_sublist` — the completed statements are some of the program, in their order;
* `Run.exists_ending`, `Run.exists_ending_run` — **a run does what its completed statements do, and
  then ends**;
* `Run.does_exec` — each of the statements does one of four things;
* `Run.exists_of_execAll_cons` — statements without a fault, taken apart.
-/
import Waymark.Proofs.StraightLine

set_option relaxedAutoImplicit false
set_option autoImplicit false

namespace Waymark

namespace Stmt

mutual

theorem isBasic_of_mem_basics (s : Stmt) : ∀ basic ∈ s.basics, basic.isBasic = true := by
  match s with
  | .when event body =>
      rw [basics]
      exact isBasic_of_mem_basicsOf body
  | .branch test thenBody none =>
      rw [basics]
      exact isBasic_of_mem_basicsOf thenBody
  | .branch test thenBody (some elseBody) =>
      rw [basics]
      exact List.forall_mem_append.2
        ⟨isBasic_of_mem_basicsOf thenBody, isBasic_of_mem_basicsOf elseBody⟩
  | .display value => exact List.forall_mem_singleton.2 rfl
  | .assign name value => exact List.forall_mem_singleton.2 rfl
  | .route plan => exact List.forall_mem_singleton.2 rfl

theorem isBasic_of_mem_basicsOf (body : List Stmt) :
    ∀ basic ∈ basicsOf body, basic.isBasic = true := by
  match body with
  | [] => simp [basicsOf]
  | s :: body =>
      rw [basicsOf]
      exact List.forall_mem_append.2 ⟨isBasic_of_mem_basics s, isBasic_of_mem_basicsOf body⟩

end

end Stmt

namespace Run

/-! ### Completed statements -/

/-- How a test turns out in the given variables; `none` if it has no value, or no truth. -/
def verdict (now : Clock) (vars : Bindings) (test : Expr) : Option Bool :=
  match eval now vars test.toValue with
  | .error _ => none
  | .ok value => value.isTrue?

mutual

/-- The basic statements in a statement that a run from `s` completes, in the order in which it
does. -/
def completed (ctx : Context) (stmt : Stmt) (s : State) : List Stmt :=
  match stmt with
  | .when event body => completedOf ctx body (s.note (.ruleStarted (.text event)))
  | .branch test thenBody none =>
    match verdict ctx.now s.vars test with
    | some true => completedOf ctx thenBody (s.noteUnbound ctx.now test.toValue)
    | _ => []
  | .branch test thenBody (some elseBody) =>
    match verdict ctx.now s.vars test with
    | some true => completedOf ctx thenBody (s.noteUnbound ctx.now test.toValue)
    | some false => completedOf ctx elseBody (s.noteUnbound ctx.now test.toValue)
    | none => []
  | basic => if (exec ctx basic.toValue s).2 = none then [basic] else []

/-- The basic statements in several statements that a run from `s` completes, in the order in which
it does.  What follows a fault is not run. -/
def completedOf (ctx : Context) (body : List Stmt) (s : State) : List Stmt :=
  match body with
  | [] => []
  | stmt :: body =>
    match exec ctx stmt.toValue s with
    | (_, some _) => completed ctx stmt s
    | (s', none) => completed ctx stmt s ++ completedOf ctx body s'

end

section

variable (ctx : Context)

/-- Of a conditional, the statements of the block are completed that its test picks. -/
theorem completed_branch (test : Expr) (thenBody : List Stmt) (elseBody : Option (List Stmt))
    (s : State) :
    completed ctx (.branch test thenBody elseBody) s =
      match verdict ctx.now s.vars test with
      | some holds =>
        completedOf ctx (Stmt.chosen holds thenBody elseBody) (s.noteUnbound ctx.now test.toValue)
      | none => [] := by
  cases elseBody with
  | none =>
      rw [completed]
      cases verdict ctx.now s.vars test with
      | none => rfl
      | some holds => cases holds <;> simp [Stmt.chosen, completedOf]
  | some elseBody =>
      rw [completed]
      cases verdict ctx.now s.vars test with
      | none => rfl
      | some holds => cases holds <;> rfl

theorem completed_of_isBasic {stmt : Stmt} (h : stmt.isBasic = true) (s : State) :
    completed ctx stmt s = if (exec ctx stmt.toValue s).2 = none then [stmt] else [] := by
  cases stmt with
  | when event body => cases h
  | branch test thenBody elseBody => cases h
  | display value => simp [completed]
  | assign name value => simp [completed]
  | route plan => simp [completed]

mutual

theorem completed_sublist (stmt : Stmt) (s : State) :
    (completed ctx stmt s).Sublist stmt.basics := by
  -- a basic statement is all of itself, or nothing of it was completed
  have hbasic : ∀ {basic : Stmt}, basic.isBasic = true →
      (completed ctx basic s).Sublist basic.basics := by
    intro basic h
    rw [completed_of_isBasic ctx h, Stmt.basics_of_isBasic h]
    split
    · exact .refl _
    · exact List.nil_sublist _
  match stmt with
  | .when event body =>
      rw [completed, Stmt.basics]
      exact completedOf_sublist body _
  | .branch test thenBody none =>
      rw [completed, Stmt.basics]
      split
      · exact completedOf_sublist thenBody _
      · exact List.nil_sublist _
  | .branch test thenBody (some elseBody) =>
      rw [completed, Stmt.basics]
      split
      · exact (completedOf_sublist thenBody _).trans (List.sublist_append_left _ _)
      · exact (completedOf_sublist elseBody _).trans (List.sublist_append_right _ _)
      · exact List.nil_sublist _
  | .display value => exact hbasic rfl
  | .assign name value => exact hbasic rfl
  | .route plan => exact hbasic rfl

/-- The completed statements are basic ones of the program, in their order and none more often than
it is written. -/
theorem completedOf_sublist (body : List Stmt) (s : State) :
    (completedOf ctx body s).Sublist (Stmt.basicsOf body) := by
  match body with
  | [] => exact .slnil
  | stmt :: body =>
      rw [completedOf, Stmt.basicsOf]
      split
      · exact (completed_sublist stmt s).trans (List.sublist_append_left _ _)
      · exact (completed_sublist stmt s).append (completedOf_sublist body _)

end

theorem isBasic_of_mem_completedOf (body : List Stmt) (s : State) :
    ∀ basic ∈ completedOf ctx body s, basic.isBasic = true :=
  fun _ hmem => Stmt.isBasic_of_mem_basicsOf body _ ((completedOf_sublist ctx body s).subset hmem)

end

/-! ### How a run ends -/

/-- How a run ends in the outcome `o` after its completed statements left the state `t`: there is
nothing more to do; or a basic statement ends in a fault; or a test is undecided, which has no
effect besides. -/
inductive Ending (ctx : Context) (t : State) (o : Outcome) : Prop
  | finished : SameEffects (t, none) o → Ending ctx t o
  | stopped {stmt : Stmt} : stmt.isBasic = true → (exec ctx stmt.toValue t).2 ≠ none →
      SameEffects (exec ctx stmt.toValue t) o → Ending ctx t o
  | undecided {fault : Fault} : SameEffects (t, some fault) o → Ending ctx t o

variable {ctx : Context}

/-- A run without a fault finished. -/
theorem Ending.sameEffects {s t : State} (h : Ending ctx t (s, none)) :
    SameEffects (t, none) (s, none) := by
  cases h with
  | finished h => exact h
  | stopped _ hfault h => exact absurd h.fault hfault
  | undecided h => exact absurd h.fault (by simp)

/-- An expression that has a value goes on with it. -/
theorem withValue_of_ok {expr v : Value} {s : State} (h : eval ctx.now s.vars expr = .ok v)
    (next : Value → State → Outcome) :
    withValue ctx expr s next = next v (s.noteUnbound ctx.now expr) := by
  have hvars : (s.noteUnbound ctx.now expr).vars = s.vars := rfl
  simp only [withValue, hvars, h]

/-- An expression that has no value ends in a fault. -/
theorem withValue_of_error {expr : Value} {s : State} {fault : Fault}
    (h : eval ctx.now s.vars expr = .error fault) (next : Value → State → Outcome) :
    withValue ctx expr s next = (s.noteUnbound ctx.now expr, some fault) := by
  have hvars : (s.noteUnbound ctx.now expr).vars = s.vars := rfl
  simp only [withValue, hvars, h]

/-- A test that is decided goes on with its truth. -/
theorem withTest_of_verdict {test : Expr} {s : State} {holds : Bool}
    (h : verdict ctx.now s.vars test = some holds) (next : Bool → State → Outcome) :
    withTest ctx test.toValue s next = next holds (s.noteUnbound ctx.now test.toValue) := by
  rw [verdict] at h
  cases heval : eval ctx.now s.vars test.toValue with
  | error f => simp [heval] at h
  | ok value =>
      simp only [heval] at h
      simp only [withTest, withValue_of_ok heval, h]

/-- A test that is undecided ends in a fault and does nothing else. -/
theorem exists_withTest_of_verdict {test : Expr} {s : State}
    (h : verdict ctx.now s.vars test = none) (next : Bool → State → Outcome) :
    ∃ fault, withTest ctx test.toValue s next =
      (s.noteUnbound ctx.now test.toValue, some fault) := by
  rw [verdict] at h
  cases heval : eval ctx.now s.vars test.toValue with
  | error f => exact ⟨f, withValue_of_error heval _⟩
  | ok value =>
      simp only [heval] at h
      exact ⟨.tooLarge, by simp only [withTest, withValue_of_ok heval, h]⟩

/-- The run of statements does what its completed statements do from any state that differs from its
start in the record only, and then ends. -/
def HasEnding (ctx : Context) (body : List Stmt) : Prop :=
  ∀ {s t : State}, SameEffects (s, none) (t, none) →
    ∃ t₁, execAll ctx (Stmt.toValues (completedOf ctx body s)) t = (t₁, none) ∧
      Ending ctx t₁ (execAll ctx (Stmt.toValues body) s)

/-- A basic statement is completed, or the run stops at it. -/
theorem exists_ending_basic {stmt : Stmt} (hbasic : stmt.isBasic = true) {s t : State}
    (hst : SameEffects (s, none) (t, none)) :
    ∃ t₁, execAll ctx (Stmt.toValues (completed ctx stmt s)) t = (t₁, none) ∧
      Ending ctx t₁ (exec ctx stmt.toValue s) := by
  have heffects := hst.symm.exec ctx stmt.toValue
  rw [completed_of_isBasic ctx hbasic]
  split
  · rename_i hnone
    rw [← heffects.fault] at hnone
    have hexec : exec ctx stmt.toValue t = ((exec ctx stmt.toValue t).1, none) := Prod.ext rfl hnone
    rw [hexec] at heffects
    exact ⟨_, by rw [Stmt.toValues, Stmt.toValues, execAll_singleton, hexec], .finished heffects⟩
  · rename_i hfault
    rw [← heffects.fault] at hfault
    exact ⟨t, rfl, .stopped hbasic hfault heffects⟩

/-- A conditional ends as the block does that its test picks. -/
theorem exists_ending_branch {test : Expr} {thenBody : List Stmt} {elseBody : Option (List Stmt)}
    (hblocks : ∀ holds, HasEnding ctx (Stmt.chosen holds thenBody elseBody)) {s t : State}
    (hst : SameEffects (s, none) (t, none)) :
    ∃ t₁, execAll ctx (Stmt.toValues (completed ctx (.branch test thenBody elseBody) s)) t =
        (t₁, none) ∧
      Ending ctx t₁ (exec ctx (Stmt.branch test thenBody elseBody).toValue s) := by
  have hnote := (sameEffects_noteUnbound ctx.now test.toValue s).symm.trans hst
  rw [completed_branch, exec_branch]
  cases hverdict : verdict ctx.now s.vars test with
  | none =>
      obtain ⟨fault, hfault⟩ := exists_withTest_of_verdict hverdict
        (fun holds => execAll ctx (Stmt.toValues (Stmt.chosen holds thenBody elseBody)))
      rw [hfault]
      exact ⟨t, rfl, .undecided ⟨hst.symm.vars, hst.symm.shows, hst.symm.routes, hst.symm.heard,
        hst.symm.printed, rfl⟩⟩
  | some holds =>
      rw [withTest_of_verdict hverdict]
      exact hblocks holds hnote

mutual

theorem exists_ending_stmt (stmt : Stmt) {s t : State} (hst : SameEffects (s, none) (t, none)) :
    ∃ t₁, execAll ctx (Stmt.toValues (completed ctx stmt s)) t = (t₁, none) ∧
      Ending ctx t₁ (exec ctx stmt.toValue s) := by
  match stmt with
  | .when event body =>
      rw [completed, Stmt.toValue, exec, execBody]
      exact exists_ending body ((sameEffects_note s (.ruleStarted (.text event))).symm.trans hst)
  | .branch test thenBody none =>
      refine exists_ending_branch (fun holds => ?_) hst
      cases holds with
      | true => exact exists_ending thenBody
      | false => exact exists_ending []
  | .branch test thenBody (some elseBody) =>
      refine exists_ending_branch (fun holds => ?_) hst
      cases holds with
      | true => exact exists_ending thenBody
      | false => exact exists_ending elseBody
  | .display value => exact exists_ending_basic rfl hst
  | .assign name value => exact exists_ending_basic rfl hst
  | .route plan => exact exists_ending_basic rfl hst

/-- **A run does what its completed statements do, and then ends.** -/
theorem exists_ending (body : List Stmt) : HasEnding ctx body := by
  intro s t hst
  match body with
  | [] => exact ⟨t, rfl, .finished hst.symm⟩
  | stmt :: body =>
      obtain ⟨t₁, hline, hending⟩ := exists_ending_stmt stmt hst
      rw [completedOf, Stmt.toValues, execAll]
      cases hexec : exec ctx stmt.toValue s with
      | mk s₁ fault =>
          rw [hexec] at hending
          cases fault with
          | some f => exact ⟨t₁, hline, hending⟩
          | none =>
              -- what follows is run from states that differ in the record only
              obtain ⟨t₂, hrest, hending⟩ := exists_ending body hending.sameEffects.symm
              refine ⟨t₂, ?_, hending⟩
              rw [Stmt.toValues_append, execAll_append, hline]
              exact hrest

end

/-- Outcomes with the same effects end in the same way. -/
theorem Ending.congr {t : State} {o o' : Outcome} (h : Ending ctx t o) (ho : SameEffects o o') :
    Ending ctx t o' := by
  cases h with
  | finished h => exact .finished (h.trans ho)
  | stopped hbasic hfault h => exact .stopped hbasic hfault (h.trans ho)
  | undecided h => exact .undecided (h.trans ho)

/-- A program does what its completed statements do, and then ends. -/
theorem exists_ending_run (ctx : Context) (program : Program) (s : State) :
    ∃ t, execAll ctx (Stmt.toValues (completedOf ctx program.body s)) s = (t, none) ∧
      Ending ctx t (run ctx program.toValue s) := by
  obtain ⟨t, hline, hending⟩ := exists_ending program.body (SameEffects.refl (s, none))
  exact ⟨t, hline, hending.congr (sameEffects_run ctx _ s).symm⟩

/-! ### One statement -/

/-- What a basic statement does in the state `s`, up to the record: its expression has no value and
the run stops; a value is bound, or shown; or a route plan is collected. -/
inductive Does (ctx : Context) (s : State) : Stmt → Outcome → Prop
  | fails {stmt : Stmt} {fault : Fault} {o : Outcome} : SameEffects (s, some fault) o →
      Does ctx s stmt o
  | binds {name : String} {value : Expr} {v : Value} {o : Outcome} :
      eval ctx.now s.vars value.toValue = .ok v →
      SameEffects ({ s with vars := s.vars.bind (.text name) v }, none) o →
      Does ctx s (.assign name value) o
  | shows {value : Expr} {v : Value} {o : Outcome} :
      eval ctx.now s.vars value.toValue = .ok v → SameEffects (display ctx v s) o →
      Does ctx s (.display value) o
  | collects {plan : Route} {o : Outcome} :
      SameEffects ({ s with routes := s.routes ++ [(Stmt.route plan).toValue] }, none) o →
      Does ctx s (.route plan) o

/-- **A basic statement does one of four things.** -/
theorem does_exec {stmt : Stmt} (hbasic : stmt.isBasic = true) (s : State) :
    Does ctx s stmt (exec ctx stmt.toValue s) := by
  have hnote : ∀ (value : Expr) (f : Fault),
      SameEffects (s, some f) (s.noteUnbound ctx.now value.toValue, some f) :=
    fun _ _ => ⟨rfl, rfl, rfl, rfl, rfl, rfl⟩
  cases stmt with
  | when event body => cases hbasic
  | branch test thenBody elseBody => cases hbasic
  | display value =>
      rw [Stmt.toValue, exec]
      cases heval : eval ctx.now s.vars value.toValue with
      | error f =>
          rw [withValue_of_error heval]
          exact .fails (hnote value f)
      | ok v =>
          rw [withValue_of_ok heval]
          have hsame := sameEffects_noteUnbound ctx.now value.toValue s
          exact .shows heval (.of_behind (display_behind · ctx v) hsame)
  | assign name value =>
      rw [Stmt.toValue, exec]
      cases heval : eval ctx.now s.vars value.toValue with
      | error f =>
          rw [withValue_of_error heval]
          exact .fails (hnote value f)
      | ok v =>
          rw [withValue_of_ok heval]
          exact .binds heval ⟨rfl, rfl, rfl, rfl, rfl, rfl⟩
  | route plan =>
      rw [Stmt.toValue, Route.toValue, exec]
      exact .collects ⟨rfl, rfl, rfl, rfl, rfl, rfl⟩

/-- Basic statements that run without a fault do so one after the other. -/
theorem exists_of_execAll_cons {stmt : Stmt} {line : List Stmt} {s t : State}
    (hbasic : ∀ basic ∈ stmt :: line, basic.isBasic = true)
    (h : execAll ctx (Stmt.toValues (stmt :: line)) s = (t, none)) :
    ∃ s₁, exec ctx stmt.toValue s = (s₁, none) ∧ Does ctx s stmt (s₁, none) ∧
      (∀ basic ∈ line, basic.isBasic = true) ∧
      execAll ctx (Stmt.toValues line) s₁ = (t, none) := by
  obtain ⟨hstmt, hline⟩ := List.forall_mem_cons.1 hbasic
  have hdoes : Does ctx s stmt (exec ctx stmt.toValue s) := does_exec hstmt s
  rw [Stmt.toValues, execAll] at h
  cases hexec : exec ctx stmt.toValue s with
  | mk s₁ fault =>
      rw [hexec] at hdoes
      cases fault with
      | some f => simp [hexec] at h
      | none =>
          simp only [hexec] at h
          exact ⟨s₁, rfl, hdoes, hline, h⟩

end Run

end Waymark
