/-
**Every run is a run in a straight line.**

There is no loop, so a run that comes to its end does some of the statements of its program that
bind, show or collect, each at most as often as it is written, and in the order in which they are
written.  The event rules around them only group them.  The conditionals pick: of each conditional
that is reached, the statements of one block run and those of the other do not, as the test turns
out in the state that the statements before it left.

This module says which statements a run picks, as a path through the tree with the state passed
along, and shows that the same statements, written one below the other without any rule or
conditional, do the same.  A test reads variables and records names that are not bound, and has no
other effect; that is why leaving it out changes nothing.

Main definitions:

* `Stmt.isBasic`, `Stmt.basicsOf` — statements that hold no others, and those of a tree in order;
* `Stmt.steadyOf` — those of them that stand under no conditional;
* `Stmt.inlineOf` — a tree with the block of every event rule in the place of the rule;
* `Run.Path` — the statements that a run picks, and the state that they leave.

Main results:

* `Run.Path.execAll_eq` — the statements on a path run without a fault from one end to the other;
* `Run.exists_path` — a run without a fault follows a path;
* `Run.sameEffects_inlineOf` — event rules only group statements;
* `Run.run_is_straight_line` — **every run is a run in a straight line**.
-/
import Waymark.Proofs.Effects

set_option relaxedAutoImplicit false
set_option autoImplicit false

namespace Waymark

/-! ### The statements of a tree -/

namespace Stmt

/-- Whether a statement holds no other statements: it binds, shows or collects. -/
def isBasic (s : Stmt) : Bool :=
  match s with
  | .when _ _ => false
  | .branch _ _ _ => false
  | .display _ => true
  | .assign _ _ => true
  | .route _ => true

mutual

/-- The basic statements in a statement, in source order. -/
def basics (s : Stmt) : List Stmt :=
  match s with
  | .when _ body => basicsOf body
  | .branch _ thenBody none => basicsOf thenBody
  | .branch _ thenBody (some elseBody) => basicsOf thenBody ++ basicsOf elseBody
  | .display value => [.display value]
  | .assign name value => [.assign name value]
  | .route plan => [.route plan]

/-- The basic statements in several statements, in source order. -/
def basicsOf (body : List Stmt) : List Stmt :=
  match body with
  | [] => []
  | s :: body => basics s ++ basicsOf body

end

mutual

/-- The basic statements in a statement that stand under no conditional, in source order. -/
def steady (s : Stmt) : List Stmt :=
  match s with
  | .when _ body => steadyOf body
  | .branch _ _ _ => []
  | .display value => [.display value]
  | .assign name value => [.assign name value]
  | .route plan => [.route plan]

/-- The basic statements in several statements that stand under no conditional, in source order. -/
def steadyOf (body : List Stmt) : List Stmt :=
  match body with
  | [] => []
  | s :: body => steady s ++ steadyOf body

end

mutual

/-- A statement with the block of every event rule, at any depth, in the place of the rule. -/
def inline (s : Stmt) : List Stmt :=
  match s with
  | .when _ body => inlineOf body
  | .branch test thenBody none => [.branch test (inlineOf thenBody) none]
  | .branch test thenBody (some elseBody) =>
    [.branch test (inlineOf thenBody) (some (inlineOf elseBody))]
  | .display value => [.display value]
  | .assign name value => [.assign name value]
  | .route plan => [.route plan]

/-- Statements with the block of every event rule, at any depth, in the place of the rule. -/
def inlineOf (body : List Stmt) : List Stmt :=
  match body with
  | [] => []
  | s :: body => inline s ++ inlineOf body

end

/-- The block of a conditional that its test picks: the first one if it holds, else the alternative,
if there is one. -/
def chosen (holds : Bool) (thenBody : List Stmt) (elseBody : Option (List Stmt)) : List Stmt :=
  match holds, elseBody with
  | true, _ => thenBody
  | false, some elseBody => elseBody
  | false, none => []

theorem basicsOf_chosen (holds : Bool) (test : Expr) (thenBody : List Stmt)
    (elseBody : Option (List Stmt)) :
    (basicsOf (chosen holds thenBody elseBody)).Sublist
      (basics (.branch test thenBody elseBody)) := by
  cases elseBody with
  | none =>
      rw [basics]
      cases holds with
      | true => exact .refl _
      | false => exact List.nil_sublist _
  | some elseBody =>
      rw [basics]
      cases holds with
      | true => exact List.sublist_append_left _ _
      | false => exact List.sublist_append_right _ _

theorem basics_of_isBasic {s : Stmt} (h : s.isBasic = true) : s.basics = [s] := by
  cases s with
  | when event body => cases h
  | branch test thenBody elseBody => cases h
  | display value => rfl
  | assign name value => rfl
  | route plan => rfl

theorem steady_of_isBasic {s : Stmt} (h : s.isBasic = true) : s.steady = [s] := by
  cases s with
  | when event body => cases h
  | branch test thenBody elseBody => cases h
  | display value => rfl
  | assign name value => rfl
  | route plan => rfl

theorem toValues_append (first second : List Stmt) :
    toValues (first ++ second) = toValues first ++ toValues second := by
  induction first with
  | nil => rfl
  | cons s first ih => rw [List.cons_append, toValues, toValues, ih, List.cons_append]

end Stmt

namespace Run

/-! ### Paths -/

/-- A test has a value in the given variables, and the value counts as true or not. -/
def Decides (now : Clock) (vars : Bindings) (test : Expr) (holds : Bool) : Prop :=
  ∃ value, eval now vars test.toValue = .ok value ∧ value.isTrue? = some holds

/-- `Path ctx s body line s'`: from the state `s`, the statements of `body` come down to those of
`line`, which leave the state `s'`.  A basic statement stays, a rule is its block, and a conditional
is the one block that its test picks in the state that is reached, or nothing. -/
inductive Path (ctx : Context) : State → List Stmt → List Stmt → State → Prop
  | nil (s : State) : Path ctx s [] [] s
  | basic {s s₁ s₂ : State} {stmt : Stmt} {rest line : List Stmt} :
      stmt.isBasic = true → exec ctx stmt.toValue s = (s₁, none) → Path ctx s₁ rest line s₂ →
      Path ctx s (stmt :: rest) (stmt :: line) s₂
  | when {s s₁ s₂ : State} {event : String} {body rest inner line : List Stmt} :
      Path ctx s body inner s₁ → Path ctx s₁ rest line s₂ →
      Path ctx s (.when event body :: rest) (inner ++ line) s₂
  | branch {s s₁ s₂ : State} {test : Expr} {holds : Bool} {thenBody rest inner line : List Stmt}
      {elseBody : Option (List Stmt)} :
      Decides ctx.now s.vars test holds →
      Path ctx s (Stmt.chosen holds thenBody elseBody) inner s₁ → Path ctx s₁ rest line s₂ →
      Path ctx s (.branch test thenBody elseBody :: rest) (inner ++ line) s₂

variable {ctx : Context}

/-- **The statements on a path run without a fault** from its start to its end. -/
theorem Path.execAll_eq {s s' : State} {body line : List Stmt} (h : Path ctx s body line s') :
    execAll ctx (Stmt.toValues line) s = (s', none) := by
  -- what a block picks runs before what the statements behind it pick
  have happend : ∀ {s s₁ s₂ : State} {inner line : List Stmt},
      execAll ctx (Stmt.toValues inner) s = (s₁, none) →
      execAll ctx (Stmt.toValues line) s₁ = (s₂, none) →
      execAll ctx (Stmt.toValues (inner ++ line)) s = (s₂, none) := by
    intro s s₁ s₂ inner line hinner hline
    rw [Stmt.toValues_append, execAll_append, hinner]
    exact hline
  induction h with
  | nil s => rfl
  | basic _ hexec _ ih =>
      rw [Stmt.toValues, execAll, hexec]
      exact ih
  | when _ _ ihinner ih => exact happend ihinner ih
  | branch _ _ _ ihinner ih => exact happend ihinner ih

/-- Every statement on a path is basic. -/
theorem Path.isBasic {s s' : State} {body line : List Stmt} (h : Path ctx s body line s') :
    ∀ stmt ∈ line, stmt.isBasic = true := by
  induction h with
  | nil s => simp
  | basic hbasic _ _ ih => exact List.forall_mem_cons.2 ⟨hbasic, ih⟩
  | when _ _ ihinner ih => exact List.forall_mem_append.2 ⟨ihinner, ih⟩
  | branch _ _ _ ihinner ih => exact List.forall_mem_append.2 ⟨ihinner, ih⟩

/-- A path picks basic statements of the tree, in their order and none more often than it is
written. -/
theorem Path.sublist_basicsOf {s s' : State} {body line : List Stmt}
    (h : Path ctx s body line s') : line.Sublist (Stmt.basicsOf body) := by
  induction h with
  | nil s => exact .slnil
  | basic hbasic _ _ ih =>
      rw [Stmt.basicsOf, Stmt.basics_of_isBasic hbasic]
      exact ih.cons_cons _
  | when _ _ ihinner ih =>
      rw [Stmt.basicsOf, Stmt.basics]
      exact ihinner.append ih
  | branch _ _ _ ihinner ih =>
      rw [Stmt.basicsOf]
      exact (ihinner.trans (Stmt.basicsOf_chosen _ _ _ _)).append ih

/-- A path leaves out no basic statement that stands under no conditional. -/
theorem Path.steadyOf_sublist {s s' : State} {body line : List Stmt}
    (h : Path ctx s body line s') : (Stmt.steadyOf body).Sublist line := by
  induction h with
  | nil s => exact .slnil
  | basic hbasic _ _ ih =>
      rw [Stmt.steadyOf, Stmt.steady_of_isBasic hbasic]
      exact ih.cons_cons _
  | when _ _ ihinner ih =>
      rw [Stmt.steadyOf, Stmt.steady]
      exact ihinner.append ih
  | branch _ _ _ _ ih =>
      rw [Stmt.steadyOf, Stmt.steady]
      exact ih.trans (List.sublist_append_right _ _)

/-! ### The path of a run -/

/-- A test that does not end in a fault is decided, and what follows it goes on. -/
theorem withTest_eq_none {test : Expr} {s s' : State} {next : Bool → State → Outcome}
    (h : withTest ctx test.toValue s next = (s', none)) :
    ∃ holds, Decides ctx.now s.vars test holds ∧
      next holds (s.noteUnbound ctx.now test.toValue) = (s', none) := by
  rw [withTest, withValue] at h
  have hvars : (s.noteUnbound ctx.now test.toValue).vars = s.vars := rfl
  simp only [hvars] at h
  cases heval : eval ctx.now s.vars test.toValue with
  | error f => simp [heval] at h
  | ok value =>
      cases htrue : value.isTrue? with
      | none => simp [heval, htrue] at h
      | some holds =>
          simp only [heval, htrue] at h
          exact ⟨holds, ⟨value, heval, htrue⟩, h⟩

/-- A conditional runs the block that its test picks. -/
theorem exec_branch (test : Expr) (thenBody : List Stmt) (elseBody : Option (List Stmt))
    (s : State) :
    exec ctx (Stmt.branch test thenBody elseBody).toValue s =
      withTest ctx test.toValue s fun holds s =>
        execAll ctx (Stmt.toValues (Stmt.chosen holds thenBody elseBody)) s := by
  cases elseBody with
  | none =>
      rw [Stmt.toValue, exec]
      congr 1
      funext holds s
      cases holds with
      | true => rw [execBody]; rfl
      | false => rfl
  | some elseBody =>
      rw [Stmt.toValue, exec]
      congr 1
      funext holds s
      cases holds with
      | true => rw [execBody]; rfl
      | false => rw [execBody]; rfl

/-- Names that are not bound are recorded, which makes no difference. -/
theorem sameEffects_noteUnbound (now : Clock) (expr : Value) (s : State) :
    SameEffects (s, none) (s.noteUnbound now expr, none) :=
  ⟨rfl, rfl, rfl, rfl, rfl, rfl⟩

/-- A basic statement does the same from a state that differs in the record only. -/
theorem exists_exec_eq {stmt : Value} {s s' t : State} (h : exec ctx stmt s = (s', none))
    (hst : SameEffects (s, none) (t, none)) :
    ∃ t', exec ctx stmt t = (t', none) ∧ SameEffects (s', none) (t', none) := by
  have heffects := hst.exec ctx stmt
  rw [h] at heffects
  have hnone : (exec ctx stmt t).2 = none := heffects.fault.symm
  have hsplit : exec ctx stmt t = ((exec ctx stmt t).1, none) := Prod.ext rfl hnone
  rw [hsplit] at heffects
  exact ⟨_, hsplit, heffects⟩

/-- The run of statements that ends without a fault follows a path, from any state that differs from
its start in the record only. -/
def HasPath (ctx : Context) (body : List Stmt) : Prop :=
  ∀ {s s' t : State}, execAll ctx (Stmt.toValues body) s = (s', none) →
    SameEffects (s, none) (t, none) →
    ∃ line t', Path ctx t body line t' ∧ SameEffects (s', none) (t', none)

/-- A conditional goes along the path of the block that its test picks. -/
theorem exists_path_branch {test : Expr} {thenBody : List Stmt} {elseBody : Option (List Stmt)}
    (hpaths : ∀ holds, HasPath ctx (Stmt.chosen holds thenBody elseBody)) {s s₁ t : State}
    (h : exec ctx (Stmt.branch test thenBody elseBody).toValue s = (s₁, none))
    (hst : SameEffects (s, none) (t, none)) :
    ∃ t₁, SameEffects (s₁, none) (t₁, none) ∧
      ∃ inner, ∀ {rest line : List Stmt} {t₂ : State}, Path ctx t₁ rest line t₂ →
        Path ctx t (.branch test thenBody elseBody :: rest) (inner ++ line) t₂ := by
  rw [exec_branch] at h
  obtain ⟨holds, hdecides, hnext⟩ := withTest_eq_none h
  obtain ⟨inner, t₁, hpath, ht⟩ :=
    hpaths holds hnext ((sameEffects_noteUnbound ctx.now test.toValue s).symm.trans hst)
  rw [show s.vars = t.vars from hst.vars] at hdecides
  exact ⟨t₁, ht, inner, fun hrest => .branch hdecides hpath hrest⟩

mutual

/-- A statement that runs without a fault follows a path, and so do those behind it. -/
theorem exists_path_cons (stmt : Stmt) {s s₁ t : State} (h : exec ctx stmt.toValue s = (s₁, none))
    (hst : SameEffects (s, none) (t, none)) :
    ∃ t₁, SameEffects (s₁, none) (t₁, none) ∧
      ∃ inner, ∀ {rest line : List Stmt} {t₂ : State}, Path ctx t₁ rest line t₂ →
        Path ctx t (stmt :: rest) (inner ++ line) t₂ := by
  -- the path is that of the run without the record, so the states differ in it
  match stmt with
  | .when event body =>
      rw [Stmt.toValue, exec, execBody] at h
      obtain ⟨inner, t₁, hpath, ht⟩ :=
        exists_path body h ((sameEffects_note s (.ruleStarted (.text event))).symm.trans hst)
      exact ⟨t₁, ht, inner, fun hrest => .when hpath hrest⟩
  | .branch test thenBody none =>
      refine exists_path_branch (fun holds => ?_) h hst
      cases holds with
      | true => exact exists_path thenBody
      | false => exact exists_path []
  | .branch test thenBody (some elseBody) =>
      refine exists_path_branch (fun holds => ?_) h hst
      cases holds with
      | true => exact exists_path thenBody
      | false => exact exists_path elseBody
  | .display value =>
      obtain ⟨t₁, hexec, ht⟩ := exists_exec_eq h hst
      exact ⟨t₁, ht, [.display value], fun hrest => .basic rfl hexec hrest⟩
  | .assign name value =>
      obtain ⟨t₁, hexec, ht⟩ := exists_exec_eq h hst
      exact ⟨t₁, ht, [.assign name value], fun hrest => .basic rfl hexec hrest⟩
  | .route plan =>
      obtain ⟨t₁, hexec, ht⟩ := exists_exec_eq h hst
      exact ⟨t₁, ht, [.route plan], fun hrest => .basic rfl hexec hrest⟩

/-- **A run without a fault follows a path**, which ends in the state that the run leaves up to what
was recorded. -/
theorem exists_path (body : List Stmt) : HasPath ctx body := by
  intro s s' t h hst
  match body with
  | [] =>
      rw [Stmt.toValues, execAll, Prod.mk.injEq] at h
      exact ⟨[], t, .nil t, h.1 ▸ hst⟩
  | stmt :: rest =>
      rw [Stmt.toValues, execAll] at h
      cases hexec : exec ctx stmt.toValue s with
      | mk s₁ fault =>
          cases fault with
          | some f => simp [hexec] at h
          | none =>
              simp only [hexec] at h
              obtain ⟨t₁, ht₁, inner, hcons⟩ := exists_path_cons stmt hexec hst
              obtain ⟨line, t', hpath, ht'⟩ := exists_path rest h ht₁
              exact ⟨inner ++ line, t', hcons hpath, ht'⟩

end

/-! ### Rules only group statements -/

/-- A test goes on to the same effects if what follows it does. -/
theorem sameEffects_withTest {test : Value} {s : State} {next next' : Bool → State → Outcome}
    (h : ∀ holds s, SameEffects (next holds s) (next' holds s)) :
    SameEffects (withTest ctx test s next) (withTest ctx test s next') := by
  rw [withTest, withTest, withValue, withValue]
  cases eval ctx.now (s.noteUnbound ctx.now test).vars test with
  | error f => exact .refl _
  | ok value =>
      simp only
      cases value.isTrue? with
      | none => exact .refl _
      | some holds => exact h holds _

/-- Statements that follow others with the same effects. -/
theorem sameEffects_append {first first' second second' : List Value} {s : State}
    (h : SameEffects (execAll ctx first s) (execAll ctx first' s))
    (h' : ∀ s, SameEffects (execAll ctx second s) (execAll ctx second' s)) :
    SameEffects (execAll ctx (first ++ second) s) (execAll ctx (first' ++ second') s) := by
  rw [execAll_append, execAll_append]
  cases hfirst : execAll ctx first s with
  | mk s₁ fault =>
      cases hfirst' : execAll ctx first' s with
      | mk t₁ fault' =>
          rw [hfirst, hfirst'] at h
          obtain rfl : fault = fault' := h.fault
          cases fault with
          | some f => exact h
          | none => exact (h.execAll ctx second).trans (h' t₁)

theorem execAll_singleton (stmt : Value) (s : State) : execAll ctx [stmt] s = exec ctx stmt s := by
  rw [execAll]
  cases exec ctx stmt s with
  | mk s₁ fault =>
      cases fault with
      | some f => rfl
      | none => rfl

mutual

/-- A statement does the same without the rules in it. -/
theorem sameEffects_inline (stmt : Stmt) (s : State) :
    SameEffects (execAll ctx (Stmt.toValues stmt.inline) s) (exec ctx stmt.toValue s) := by
  match stmt with
  | .when event body =>
      rw [Stmt.inline, Stmt.toValue, exec, execBody]
      have hnote := (sameEffects_note s (.ruleStarted (.text event))).execAll ctx
        (Stmt.toValues (Stmt.inlineOf body))
      exact hnote.trans (sameEffects_inlineOf body _)
  | .branch test thenBody none =>
      rw [Stmt.inline, Stmt.toValues, Stmt.toValues, execAll_singleton, exec_branch, exec_branch]
      apply sameEffects_withTest
      intro holds s
      cases holds with
      | true => exact sameEffects_inlineOf thenBody s
      | false => exact .refl _
  | .branch test thenBody (some elseBody) =>
      rw [Stmt.inline, Stmt.toValues, Stmt.toValues, execAll_singleton, exec_branch, exec_branch]
      apply sameEffects_withTest
      intro holds s
      cases holds with
      | true => exact sameEffects_inlineOf thenBody s
      | false => exact sameEffects_inlineOf elseBody s
  | .display value =>
      rw [Stmt.inline, Stmt.toValues, Stmt.toValues, execAll_singleton]
      exact .refl _
  | .assign name value =>
      rw [Stmt.inline, Stmt.toValues, Stmt.toValues, execAll_singleton]
      exact .refl _
  | .route plan =>
      rw [Stmt.inline, Stmt.toValues, Stmt.toValues, execAll_singleton]
      exact .refl _

/-- **Rules only group statements**: with the block of each rule in its place, statements do the
same. -/
theorem sameEffects_inlineOf (body : List Stmt) (s : State) :
    SameEffects (execAll ctx (Stmt.toValues (Stmt.inlineOf body)) s)
      (execAll ctx (Stmt.toValues body) s) := by
  match body with
  | [] => exact .refl _
  | stmt :: body =>
      rw [Stmt.inlineOf, Stmt.toValues_append, Stmt.toValues, ← List.singleton_append]
      refine sameEffects_append ?_ (sameEffects_inlineOf body)
      rw [execAll_singleton]
      exact sameEffects_inline stmt s

end

/-! ### Programs -/

/-- **Every run is a run in a straight line.**  A run without a fault follows a path: the statements
that it picks are basic ones of the program in their order, with all those that stand under no
conditional, and of each conditional that is reached the statements of the one block that its test
picks.  As a program of their own they have the same effects in the same environment.  And whether a
run ends in a fault or not, it has the same effects with the block of every event rule in its
place. -/
theorem run_is_straight_line (ctx : Context) (program : Program) (s : State) :
    ((run ctx program.toValue s).2 = none →
      ∃ (line : List Stmt) (s' : State), Path ctx s program.body line s' ∧
        (∀ stmt ∈ line, stmt.isBasic = true) ∧
        line.Sublist (Stmt.basicsOf program.body) ∧
        (Stmt.steadyOf program.body).Sublist line ∧
        SameEffects (run ctx (Program.toValue ⟨line⟩) s) (run ctx program.toValue s)) ∧
    SameEffects (run ctx (Program.toValue ⟨Stmt.inlineOf program.body⟩) s)
      (run ctx program.toValue s) := by
  have hrun := sameEffects_run ctx (Stmt.toValues program.body) s
  refine ⟨fun hnone => ?_, ?_⟩
  · have hexec : execAll ctx (Stmt.toValues program.body) s =
        ((execAll ctx (Stmt.toValues program.body) s).1, none) :=
      Prod.ext rfl (hrun.fault.symm.trans hnone)
    obtain ⟨line, s', hpath, hs'⟩ := exists_path program.body hexec (.refl _)
    refine ⟨line, s', hpath, hpath.isBasic, hpath.sublist_basicsOf, hpath.steadyOf_sublist, ?_⟩
    have hline := sameEffects_run ctx (Stmt.toValues line) s
    rw [hpath.execAll_eq] at hline
    rw [hexec] at hrun
    exact hline.trans (hs'.symm.trans hrun.symm)
  · have hinline := sameEffects_run ctx (Stmt.toValues (Stmt.inlineOf program.body)) s
    exact hinline.trans ((sameEffects_inlineOf program.body s).trans hrun.symm)

/-- A conditional within a rule, on a variable that was bound before. -/
def greeting : Program :=
  ⟨[.assign "mode" (.text "on"),
    .when "the day starts"
      [.branch (.compare .is (.identifier "mode") (.text "on"))
          [.display (.text "hello")] (some [.display (.text "sleep on")]),
        .route { name := "home" }]]⟩

/-- The greeting runs to its end, and does what some of its statements do in a straight line, the
binding and the route plan among them. -/
theorem run_is_straight_line_greeting :
    (run { now := .midnight } greeting.toValue {}).2 = none ∧
    ∃ line : List Stmt,
      [.assign "mode" (.text "on"), .route { name := "home" }].Sublist line ∧
      line.Sublist [.assign "mode" (.text "on"), .display (.text "hello"),
        .display (.text "sleep on"), .route { name := "home" }] ∧
      (run { now := .midnight } (Program.toValue ⟨line⟩) {}).1.shows = [.text "hello"] := by
  have hnone : (run { now := .midnight } greeting.toValue {}).2 = none := by rfl
  obtain ⟨line, -, -, -, hsub, hsteady, heffects⟩ :=
    (run_is_straight_line { now := .midnight } greeting {}).1 hnone
  exact ⟨hnone, line, hsteady, hsub, heffects.shows.trans (by rfl)⟩

end Run

end Waymark
