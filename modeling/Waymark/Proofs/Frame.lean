/-
**What a run does to the variables.**

Variables are changed by assignments and by nothing else, and an assignment changes one variable.
So what a run leaves can be told from the assignments that it completed.  The names that were there
stay where they are; new names follow them in the order in which they were first assigned, each
once.  A name that no completed assignment has for its target keeps its value, or stays without one;
any other name holds what its last completed assignment evaluated to, in the variables as they were
right before it.  All this holds of a run that stops at a fault as of one that comes to its end:
nothing is taken back, and the statement at which a run stops binds nothing.

Main definitions:

* `Stmt.target?`, `Stmt.targets` — the names that statements assign to, in order;
* `Bindings.names`, `Bindings.newNames` — the names of variables, and those among given ones that
  are new.

Main results:

* `Bindings.names_bind`, `Bindings.get?_bind_of_ne` — what one binding changes;
* `Run.Does.vars`, `Run.Ending.vars` — what one statement does, and the end of a run;
* `Run.names_execAll`, `Run.get?_execAll`, `Run.exists_last_assign` — what statements in a row do;
* `Run.variables_after_run` — **what a run does to the variables**.
-/
import Waymark.Proofs.Completed
import Waymark.Proofs.SetThenShow

set_option relaxedAutoImplicit false
set_option autoImplicit false

namespace Waymark

/-! ### Targets -/

namespace Stmt

/-- The name that a statement assigns to, if it does. -/
def target? (s : Stmt) : Option String :=
  match s with
  | .assign name _ => some name
  | _ => none

/-- The names that statements assign to, in order. -/
def targets (line : List Stmt) : List String := line.filterMap target?

end Stmt

/-! ### Variables -/

namespace Value

theorem same_text_iff {v : Value} {s : String} : v.same (.text s) = true ↔ v = .text s := by
  cases v <;> simp [same, whole?]

theorem text_same_iff {v : Value} {s : String} : (Value.text s).same v = true ↔ v = .text s := by
  cases v with
  | text t =>
      rw [same, beq_iff_eq, text.injEq]
      exact eq_comm
  | _ => simp [same, whole?]

end Value

namespace Bindings

/-- The names that are bound, in order. -/
def names (b : Bindings) : List Value := b.entries.map Prod.fst

/-- The given names that are not bound, each where it occurs first. -/
def newNames (b : Bindings) (given : List String) : List String :=
  (given.filter fun name => (b.get? (.text name)).isNone).eraseDups

theorem map_fst_bindIn (entries : List (Value × Value)) (name : String) (value : Value) :
    (bindIn entries (.text name) value).map Prod.fst =
      if (getIn? entries (.text name)).isNone then entries.map Prod.fst ++ [.text name]
      else entries.map Prod.fst := by
  induction entries with
  | nil => simp [bindIn, getIn?]
  | cons entry entries ih =>
      obtain ⟨n, v⟩ := entry
      by_cases hn : n.same (.text name) = true
      · simp [bindIn, getIn?, hn]
      · simp only [bindIn, getIn?, hn, Bool.false_eq_true, if_false, List.map_cons, ih]
        split <;> rfl

/-- A name that is bound keeps its place, and a new one is the last. -/
theorem names_bind (b : Bindings) (name : String) (value : Value) :
    (b.bind (.text name) value).names =
      if (b.get? (.text name)).isNone then b.names ++ [.text name] else b.names :=
  map_fst_bindIn b.entries name value

/-- A binding changes no other name. -/
theorem get?_bind_of_ne (b : Bindings) {name : String} {other : Value} (h : other ≠ .text name)
    (value : Value) : (b.bind (.text name) value).get? other = b.get? other := by
  have hself : ¬ (Value.text name).same other = true := by
    rw [Value.text_same_iff]
    exact h
  simp only [bind, get?]
  induction b.entries with
  | nil => simp [bindIn, getIn?, hself]
  | cons entry entries ih =>
      obtain ⟨n, v⟩ := entry
      rw [bindIn]
      split
      · rename_i hn
        obtain rfl := Value.same_text_iff.1 hn
        simp [getIn?, hself]
      · simp only [getIn?, ih]

/-- What is new to variables in which a name is bound. -/
theorem newNames_bind (b : Bindings) (name : String) (value : Value) (given : List String) :
    (b.bind (.text name) value).newNames given =
      ((given.filter fun other => (b.get? (.text other)).isNone).filter
        fun other => !other == name).eraseDups := by
  rw [newNames, List.filter_filter]
  congr 2
  funext other
  by_cases h : other = name
  · have hself : (Value.text name).same (.text name) = true := Value.same_text_iff.2 rfl
    subst h
    simp [b.get?_bind hself]
  · have hne : Value.text other ≠ .text name := fun heq => h (Value.text.inj heq)
    simp [b.get?_bind_of_ne hne, h]

/-- The names that a binding and later ones make new. -/
theorem names_bind_append (b : Bindings) (name : String) (value : Value) (given : List String) :
    (b.bind (.text name) value).names ++
        ((b.bind (.text name) value).newNames given).map .text =
      b.names ++ (b.newNames (name :: given)).map .text := by
  rw [names_bind, newNames_bind, newNames, List.filter_cons]
  split
  · rw [List.eraseDups_cons, List.map_cons, List.append_assoc, List.singleton_append]
  · rename_i hbound
    -- a name that is bound is none of the names that are not
    rw [List.filter_eq_self.2]
    intro other hother
    have hnone := (List.mem_filter.1 hother).2
    have hne : other ≠ name := by
      rintro rfl
      exact hbound hnone
    simpa using hne

end Bindings

namespace Run

variable {ctx : Context}

/-! ### One statement -/

/-- What is shown changes no variable. -/
theorem vars_display (ctx : Context) (value : Value) (s : State) :
    (display ctx value s).1.vars = s.vars := by
  simp only [display]
  split
  · rfl
  · split
    · split <;> rfl
    · rfl

/-- **What a statement does to the variables**: an assignment binds its target to what its
expression evaluates to in the variables as they are; any other statement that is completed, and
every statement at which the run stops, leaves them as they are. -/
theorem Does.vars {s : State} {stmt : Stmt} {o : Outcome} (h : Does ctx s stmt o) :
    (∃ name value v, stmt = .assign name value ∧ eval ctx.now s.vars value.toValue = .ok v ∧
      o.1.vars = s.vars.bind (.text name) v ∧ o.2 = none) ∨
    o.1.vars = s.vars ∧ (o.2 = none → stmt.target? = none) := by
  cases h with
  | fails h => exact .inr ⟨h.vars.symm, fun hnone => absurd (h.fault.trans hnone) (by simp)⟩
  | binds heval h => exact .inl ⟨_, _, _, rfl, heval, h.vars.symm, h.fault.symm⟩
  | @shows value v _ _ h => exact .inr ⟨h.vars.symm.trans (vars_display ctx v s), fun _ => rfl⟩
  | collects h => exact .inr ⟨h.vars.symm, fun _ => rfl⟩

/-- A run ends with the variables that its completed statements leave. -/
theorem Ending.vars {t : State} {o : Outcome} (h : Ending ctx t o) : o.1.vars = t.vars := by
  cases h with
  | finished h => exact h.vars.symm
  | undecided h => exact h.vars.symm
  | stopped hbasic hfault h =>
      rw [← h.vars]
      obtain ⟨_, _, _, -, -, -, hnone⟩ | ⟨hvars, -⟩ := (does_exec hbasic t).vars
      · exact absurd hnone hfault
      · exact hvars

/-! ### Statements in a row -/

section Line

variable {line : List Stmt} {s t : State}

/-- **New names come last**, in the order in which they are first assigned. -/
theorem names_execAll (hbasic : ∀ stmt ∈ line, stmt.isBasic = true)
    (h : execAll ctx (Stmt.toValues line) s = (t, none)) :
    t.vars.names = s.vars.names ++ (s.vars.newNames (Stmt.targets line)).map .text := by
  induction line generalizing s with
  | nil =>
      cases h
      simp [Stmt.targets, Bindings.newNames]
  | cons stmt line ih =>
      obtain ⟨s₁, -, hdoes, hrest, hline⟩ := exists_of_execAll_cons hbasic h
      rw [ih hrest hline]
      obtain ⟨name, value, v, rfl, -, hvars, -⟩ | ⟨hvars, htarget⟩ := hdoes.vars
      · rw [hvars]
        exact s.vars.names_bind_append name v (Stmt.targets line)
      · rw [hvars, Stmt.targets, Stmt.targets, List.filterMap_cons_none (htarget rfl)]

/-- **What is not assigned stays**: a name that is no target keeps its value, or has none. -/
theorem get?_execAll (hbasic : ∀ stmt ∈ line, stmt.isBasic = true)
    (h : execAll ctx (Stmt.toValues line) s = (t, none)) {name : Value}
    (hname : ∀ target ∈ Stmt.targets line, name ≠ .text target) :
    t.vars.get? name = s.vars.get? name := by
  induction line generalizing s with
  | nil =>
      cases h
      rfl
  | cons stmt line ih =>
      obtain ⟨s₁, -, hdoes, hrest, hline⟩ := exists_of_execAll_cons hbasic h
      obtain ⟨target, value, v, rfl, -, hvars, -⟩ | ⟨hvars, htarget⟩ := hdoes.vars
      · obtain ⟨hne, hname⟩ := List.forall_mem_cons.1 hname
        rw [ih hrest hline hname, hvars, s.vars.get?_bind_of_ne hne]
      · rw [Stmt.targets, List.filterMap_cons_none (htarget rfl)] at hname
        rw [ih hrest hline hname, hvars]

/-- **A name that is assigned holds what it was assigned last.** -/
theorem exists_last_assign (hbasic : ∀ stmt ∈ line, stmt.isBasic = true)
    (h : execAll ctx (Stmt.toValues line) s = (t, none)) {name : String}
    (hname : name ∈ Stmt.targets line) :
    ∃ before value after s₁ v, line = before ++ .assign name value :: after ∧
      name ∉ Stmt.targets after ∧ execAll ctx (Stmt.toValues before) s = (s₁, none) ∧
      eval ctx.now s₁.vars value.toValue = .ok v ∧ t.vars.get? (.text name) = some v := by
  induction line generalizing s with
  | nil => cases hname
  | cons stmt line ih =>
      obtain ⟨s₁, hexec, hdoes, hrest, hline⟩ := exists_of_execAll_cons hbasic h
      by_cases hlater : name ∈ Stmt.targets line
      · -- the last assignment is further down
        obtain ⟨before, value, after, s₂, v, hsplit, hafter, hbefore, heval⟩ :=
          ih hrest hline hlater
        refine ⟨stmt :: before, value, after, s₂, v, by rw [hsplit]; rfl, hafter, ?_, heval⟩
        rw [Stmt.toValues, execAll, hexec]
        exact hbefore
      · -- this is the last one, and what follows keeps the value that it binds
        obtain ⟨target, value, v, rfl, heval, hvars, -⟩ | ⟨-, htarget⟩ := hdoes.vars
        · obtain rfl : name = target := (List.mem_cons.1 hname).resolve_right hlater
          have hother : ∀ other ∈ Stmt.targets line, Value.text name ≠ .text other := by
            rintro other hmem heq
            exact hlater (Value.text.inj heq ▸ hmem)
          refine ⟨[], value, line, s, v, rfl, hlater, rfl, heval, ?_⟩
          rw [get?_execAll hrest hline hother, hvars, s.vars.get?_bind (Value.same_text_iff.2 rfl)]
        · rw [Stmt.targets, List.filterMap_cons_none (htarget rfl)] at hname
          exact absurd hname hlater

end Line

/-! ### Programs -/

/-- **What a run does to the variables**, whether it ends in a fault or not, told from the
statements of the program that it completes.  The names that were bound before come first, in their
order, and then those that are new, each once, in the order of the first completed assignment to
each.  A name that is the target of no completed assignment keeps its value, or has none as before.
Any other name holds the value that its last completed assignment evaluated to, in the variables
that the statements before it left. -/
theorem variables_after_run (ctx : Context) (program : Program) (s : State) :
    let line := completedOf ctx program.body s
    let final := (run ctx program.toValue s).1.vars
    line.Sublist (Stmt.basicsOf program.body) ∧
    final.names = s.vars.names ++ (s.vars.newNames (Stmt.targets line)).map .text ∧
    (∀ name : Value, (∀ target ∈ Stmt.targets line, name ≠ .text target) →
      final.get? name = s.vars.get? name) ∧
    ∀ name ∈ Stmt.targets line,
      ∃ before value after s₁ v, line = before ++ .assign name value :: after ∧
        name ∉ Stmt.targets after ∧ execAll ctx (Stmt.toValues before) s = (s₁, none) ∧
        eval ctx.now s₁.vars value.toValue = .ok v ∧ final.get? (.text name) = some v := by
  intro line final
  obtain ⟨t, hline, hending⟩ := exists_ending_run ctx program s
  have hbasic := isBasic_of_mem_completedOf ctx program.body s
  have hfinal : final = t.vars := hending.vars
  rw [hfinal]
  exact ⟨completedOf_sublist ctx program.body s, names_execAll hbasic hline,
    fun _ => get?_execAll hbasic hline, fun _ => exists_last_assign hbasic hline⟩

/-- Assignments in a rule and under a conditional, a variable that is assigned to itself, and at
last a comparison of a number that is too large. -/
def rounds : Program :=
  ⟨[.when "the day starts"
      [.assign "mode" (.text "on"), .assign "x" (.identifier "x"),
        .branch (.compare .is (.identifier "mode") (.text "on"))
          [.assign "y" (.identifier "mode"), .assign "mode" (.identifier "x")] none],
    .assign "z" (.compare .is (.identifier "big") (.text "1")),
    .assign "x" (.text "late")]⟩

/-- Two variables, one of which holds a number that is too large to be compared. -/
def seeds : Bindings :=
  ⟨[(.text "big", .int (Int.ofNat (Nat.pow 2 1024))), (.text "x", .text "early")]⟩

/-- The rounds stop at the comparison; until then `x` kept its place and its value, and `mode` and
`y` were new in this order. -/
theorem variables_after_run_rounds :
    let outcome := run { now := .midnight } rounds.toValue { vars := seeds }
    outcome.2 = some .tooLarge ∧
    outcome.1.vars.names = [.text "big", .text "x", .text "mode", .text "y"] ∧
    outcome.1.vars.get? (.text "big") = some (.int (Int.ofNat (Nat.pow 2 1024))) ∧
    outcome.1.vars.get? (.text "z") = none ∧
    ∃ v, outcome.1.vars.get? (.text "mode") = some v := by
  have htargets : Stmt.targets (completedOf { now := .midnight } rounds.body { vars := seeds }) =
      ["mode", "x", "y", "mode"] := by decide +kernel
  obtain ⟨-, hnames, hkept, hlast⟩ :=
    variables_after_run { now := .midnight } rounds { vars := seeds }
  rw [htargets] at hnames hkept hlast
  refine ⟨by decide +kernel, hnames, hkept (.text "big") (by simp), hkept (.text "z") (by simp), ?_⟩
  obtain ⟨_, _, _, _, v, -, -, -, -, hv⟩ := hlast "mode" (by simp)
  exact ⟨v, hv⟩

end Run

end Waymark
