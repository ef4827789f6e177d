/-
**The options of a route plan may come in any order.**

A route block is read line by line into a running plan, and the same plan is what each next line is
checked against.  So it is not evident that the order of the lines does not matter.  It does not,
because the running plan is the plan that the options make (`Route.addAll_eq_ok_iff`): lines are a
route block exactly if each of them is one by itself and no two of them fill the same slot, and what
is found in a slot is what the one option for this slot says, wherever it stands.  The list of things
to avoid is the only part in which the order shows.

Naming a thing to avoid a second time changes nothing, whether or not the block is accepted.  For that
the running plan is followed: once it avoids a thing it always does, and adding the thing to it again
gives the same plan.

Main definitions:

* `Parse.Fills` — a line that fills a slot;
* `Parse.avoidances` — what lines name as things to avoid, in order;
* `Route.SameButOrder` — plans that differ in the order of the things to avoid only;
* `Route.Avoids` — a plan that avoids a thing.

Main results:

* `Grammar.readStatement_route_eq_ok_iff` — what a route block is read as;
* `Route.sameButOrder_of_perm` — the plan that options make in another order;
* `Grammar.exists_readStatement_iff`, `Grammar.exists_readStatement_of_perm` — which route blocks are
  accepted, and what they are read as in another order;
* `Grammar.readStatement_twice` — a thing to avoid that is named again;
* `Grammar.options_in_any_order` — **route options may come in any order**.
-/
import Waymark.Proofs.Lookahead
import Waymark.Proofs.WellFormed

set_option relaxedAutoImplicit false
set_option autoImplicit false

namespace Waymark

/-! ### What lines say -/

namespace Parse

open RouteOption (Slot)

/-- The option that a line is, if it is one. -/
def option? (line : Line) : Option RouteOption := (readOption line).toOption

/-- A line that is an option for a slot. -/
def Fills (slot : Slot) (line : Line) : Prop :=
  ∃ option, readOption line = .ok option ∧ option.slot? = some slot

/-- What lines name as things to avoid, in order. -/
def avoidances (lines : List Line) : List Avoidance :=
  lines.filterMap fun line => (option? line).bind RouteOption.avoidance?

theorem option?_eq_some_iff {line : Line} {option : RouteOption} :
    option? line = some option ↔ readOption line = .ok option := by
  rw [option?]
  cases readOption line with
  | error fault => simp [Except.toOption]
  | ok option' => simp [Except.toOption]

theorem fills_iff {slot : Slot} {line : Line} :
    Fills slot line ↔ (option? line).bind RouteOption.slot? = some slot := by
  simp only [Fills, Option.bind_eq_some_iff, option?_eq_some_iff]

end Parse

namespace Grammar

open Parse

/-- Lines are options at an indent exactly if each of them is one, and the options are then what the
lines say. -/
theorem forall₂_optionAt_iff {indent : Int} {lines : List Line} {options : List RouteOption} :
    List.Forall₂ (OptionAt indent) lines options ↔
      (∀ line ∈ lines, ∃ option, OptionAt indent line option) ∧
        options = lines.filterMap option? := by
  induction lines generalizing options with
  | nil => simp
  | cons line lines ih =>
      constructor
      · intro h
        cases h with
        | @cons _ option _ options hline htail =>
            obtain ⟨hall, rfl⟩ := ih.1 htail
            refine ⟨List.forall_mem_cons.2 ⟨⟨option, hline⟩, hall⟩, ?_⟩
            rw [List.filterMap_cons_some (option?_eq_some_iff.2 hline.2)]
      · rintro ⟨hall, rfl⟩
        obtain ⟨⟨option, hline⟩, hall⟩ := List.forall_mem_cons.1 hall
        rw [List.filterMap_cons_some (option?_eq_some_iff.2 hline.2)]
        exact .cons hline (ih.2 ⟨hall, rfl⟩)

/-- No two lines fill the same slot exactly if their options fill no slot twice. -/
theorem nodup_slots_iff {lines : List Line} :
    (RouteOption.slots (lines.filterMap option?)).Nodup ↔
      lines.Pairwise fun line line' => ∀ slot, ¬ (Fills slot line ∧ Fills slot line') := by
  simp only [RouteOption.slots, List.filterMap_filterMap, List.Nodup, List.pairwise_filterMap,
    fills_iff]
  constructor
  · intro h
    refine h.imp ?_
    rintro line line' hne slot ⟨hline, hline'⟩
    exact hne slot hline slot hline' rfl
  · intro h
    refine h.imp ?_
    rintro line line' hnot slot hline slot' hline' rfl
    exact hnot slot ⟨hline, hline'⟩

/-! ### What a route block is read as -/

/-- The lines at an indent before those that end the block are told from them. -/
theorem Ends.append_inj {indent : Int} {lines lines' rest rest' : List Line}
    (hlines : ∀ line ∈ lines, line.indent = indent)
    (hlines' : ∀ line ∈ lines', line.indent = indent) (hrest : Ends indent rest)
    (hrest' : Ends indent rest') (h : lines ++ rest = lines' ++ rest') :
    lines = lines' ∧ rest = rest' := by
  induction lines generalizing lines' with
  | nil =>
      cases lines' with
      | nil => exact ⟨rfl, h⟩
      | cons line lines' =>
          have hless := hrest line (by rw [← List.nil_append rest, h]; rfl)
          have hequal := hlines' line List.mem_cons_self
          omega
  | cons line lines ih =>
      cases lines' with
      | nil =>
          have hless := hrest' line (by rw [← List.nil_append rest', ← h]; rfl)
          have hequal := hlines line List.mem_cons_self
          omega
      | cons line' lines' =>
          rw [List.cons_append, List.cons_append, List.cons.injEq] at h
          obtain ⟨rfl, htail⟩ := h
          obtain ⟨rfl, rfl⟩ := ih (List.forall_mem_cons.1 hlines).2 (List.forall_mem_cons.1 hlines').2
            htail
          exact ⟨rfl, rfl⟩

/-- **What a route block is read as**: each line is an option, no two of them fill the same slot, and
the plan is the one that the options make. -/
theorem readStatement_route_eq_ok_iff {base : Int} {head : Line} {name : String}
    (hd : HeaderAt base head (.route name)) {lines : List Line} (hne : lines ≠ [])
    (hindent : ∀ line ∈ lines, line.indent = base + indentStep) {rest : List Line}
    (hrest : Ends (base + indentStep) rest) {result : Stmt × List Line} :
    readStatement base head (lines ++ rest) = .ok result ↔
      (∀ line ∈ lines, ∃ option, OptionAt (base + indentStep) line option) ∧
      (lines.Pairwise fun line line' => ∀ slot, ¬ (Fills slot line ∧ Fills slot line')) ∧
      result = (.route (Route.ofOptions name (lines.filterMap option?)), rest) := by
  rw [← nodup_slots_iff]
  constructor
  · intro h
    simp only [readStatement_eq, hd.2] at h
    cases hopen : blockFault? head "route" base (lines ++ rest) with
    | some fault => simp [hopen] at h
    | none =>
        simp only [hopen] at h
        cases hread : readOptions (base + indentStep) { name := name } (lines ++ rest) with
        | error fault => simp [hread] at h
        | ok pair =>
            obtain ⟨plan, left⟩ := pair
            simp only [hread, Except.ok.injEq] at h
            obtain ⟨inner, options, hsplit, hall, hadd, hends⟩ := forall₂_of_readOptions hread
            obtain ⟨hslots, rfl⟩ := Route.addAll_eq_ok_iff.1 hadd
            obtain ⟨hoptions, rfl⟩ := forall₂_optionAt_iff.1 hall
            have hinner : ∀ line ∈ inner, line.indent = base + indentStep := by
              intro line hline
              obtain ⟨option, hoption⟩ := hoptions line hline
              exact hoption.1
            obtain ⟨rfl, rfl⟩ := Ends.append_inj hindent hinner hrest hends hsplit
            exact ⟨hoptions, hslots, h.symm⟩
  · rintro ⟨hoptions, hslots, rfl⟩
    have hall : List.Forall₂ (OptionAt (base + indentStep)) lines (lines.filterMap option?) :=
      forall₂_optionAt_iff.2 ⟨hoptions, rfl⟩
    have hsome : lines.filterMap option? ≠ [] := by
      intro hnil
      rw [hnil] at hall
      cases hall
      exact hne rfl
    exact readStatement_route hd hall hsome hslots hrest

/-- One line is a route block exactly if it is an option. -/
theorem exists_readStatement_single_iff {base : Int} {head : Line} {name : String}
    (hd : HeaderAt base head (.route name)) {line : Line}
    (hindent : line.indent = base + indentStep) :
    (∃ result, readStatement base head [line] = .ok result) ↔
      ∃ option, OptionAt (base + indentStep) line option := by
  have hends : Ends (base + indentStep) [] := by simp [Ends]
  have hread := @readStatement_route_eq_ok_iff base head name hd [line] (List.cons_ne_nil line [])
    (List.forall_mem_singleton.2 hindent) [] hends
  simp only [List.append_nil, List.forall_mem_singleton, List.pairwise_singleton, true_and] at hread
  constructor
  · rintro ⟨result, hresult⟩
    exact (hread.1 hresult).1
  · intro hoption
    exact ⟨_, hread.2 ⟨hoption, rfl⟩⟩

end Grammar

/-! ### Options in another order -/

namespace Route

open Parse (RouteOption)
open Parse.RouteOption (Slot slots)

/-- Plans that say the same, the things to avoid possibly in another order. -/
structure SameButOrder (plan plan' : Route) : Prop where
  /-- All parts but the list of things to avoid are the same. -/
  others : plan' = { plan with avoid := plan'.avoid }
  /-- Neither plan has a list of things to avoid, or both have one, with the same members, each of
  them once. -/
  avoid : (plan.avoid = none ∧ plan'.avoid = none) ∨
    ∃ as as', plan.avoid = some as ∧ plan'.avoid = some as' ∧ as.Nodup ∧ as'.Nodup ∧
      ∀ a, a ∈ as ↔ a ∈ as'

/-- What is said about a slot is said at most as often as the slot is filled. -/
theorem length_filterMap_le {β : Type} {get? : RouteOption → Option β} {slot : Slot}
    (hget : ∀ option value, get? option = some value → option.slot? = some slot)
    (options : List RouteOption) :
    (options.filterMap get?).length ≤ (slots options).count slot := by
  induction options with
  | nil => simp
  | cons option options ih =>
      cases hvalue : get? option with
      | none =>
          have hmore : (slots options).Sublist (slots (option :: options)) :=
            (List.sublist_cons_self option options).filterMap _
          rw [List.filterMap_cons_none hvalue]
          exact ih.trans (hmore.count_le slot)
      | some value =>
          have hslot := hget option value hvalue
          rw [List.filterMap_cons_some hvalue, slots, List.filterMap_cons_some hslot,
            List.count_cons_self, List.length_cons]
          exact Nat.succ_le_succ ih

/-- **What is said about a slot does not depend on the order**, if the slot is filled at most
once. -/
theorem findSome?_eq_of_perm {β : Type} {get? : RouteOption → Option β} {slot : Slot}
    (hget : ∀ option value, get? option = some value → option.slot? = some slot)
    {options options' : List RouteOption} (hslots : (slots options).Nodup)
    (h : options.Perm options') : options'.findSome? get? = options.findSome? get? := by
  have hperm := h.filterMap get?
  have hlength := (length_filterMap_le hget options).trans (List.nodup_iff_count_le_one.1 hslots slot)
  rw [← List.head?_filterMap, ← List.head?_filterMap]
  cases hvalues : options.filterMap get? with
  | nil =>
      rw [hvalues] at hperm
      rw [hperm.nil_eq]
  | cons value values =>
      rw [hvalues, List.length_cons] at hlength
      obtain rfl := List.eq_nil_of_length_eq_zero (Nat.le_zero.1 (Nat.le_of_succ_le_succ hlength))
      rw [hvalues] at hperm
      rw [List.perm_singleton.1 hperm.symm]

/-- A list of things to avoid, named in another order. -/
theorem avoidList_of_perm {named named' : List Avoidance} (h : named.Perm named') :
    (avoidList named = none ∧ avoidList named' = none) ∨
      ∃ as as', avoidList named = some as ∧ avoidList named' = some as' ∧ as.Nodup ∧ as'.Nodup ∧
        ∀ a, a ∈ as ↔ a ∈ as' := by
  by_cases hnil : named = []
  · subst hnil
    rw [← h.nil_eq]
    exact .inl ⟨rfl, rfl⟩
  · have hnil' : named' ≠ [] := by
      rintro rfl
      exact hnil h.eq_nil
    have has : avoidList named = some named.eraseDups := if_neg hnil
    have has' : avoidList named' = some named'.eraseDups := if_neg hnil'
    refine .inr ⟨_, _, has, has', (nodup_avoidList named _ has).2, (nodup_avoidList named' _ has').2,
      ?_⟩
    intro a
    rw [List.mem_eraseDups, List.mem_eraseDups]
    exact h.mem_iff

/-- **The plan that options make in another order.** -/
theorem sameButOrder_of_perm (name : String) {options options' : List RouteOption}
    (hslots : (slots options).Nodup) (h : options.Perm options') :
    SameButOrder (ofOptions name options) (ofOptions name options') where
  others := by
    have hslot : ∀ {β : Type} (get? : RouteOption → Option β) (slot : Slot),
        (∀ option value, get? option = some value → option.slot? = some slot) →
        options'.findSome? get? = options.findSome? get? := by
      intro β get? slot hget
      exact findSome?_eq_of_perm hget hslots h
    simp only [ofOptions]
    rw [hslot RouteOption.origin? .origin, hslot RouteOption.destination? .destination,
      hslot RouteOption.preference? .prefer, hslot RouteOption.stops? .maxStops,
      hslot RouteOption.departure? .departAt, hslot RouteOption.arrival? .arriveBefore]
    all_goals
      intro option value hvalue
      cases option <;> cases hvalue
      rfl
  avoid := avoidList_of_perm (h.filterMap RouteOption.avoidance?)

/-! ### Things to avoid that are named again -/

/-- A plan that avoids a thing. -/
def Avoids (plan : Route) (a : Avoidance) : Prop := ∃ as, plan.avoid = some as ∧ a ∈ as

theorem mem_avoiding {a b : Avoidance} {avoid : Option (List Avoidance)} :
    b ∈ avoiding a avoid ↔ b = a ∨ ∃ as, avoid = some as ∧ b ∈ as := by
  cases avoid with
  | none => simp [avoiding]
  | some as =>
      rw [avoiding]
      split
      · rename_i ha
        constructor
        · intro hb
          exact .inr ⟨as, rfl, hb⟩
        · rintro (rfl | ⟨_, ⟨rfl⟩, hb⟩)
          · exact ha
          · exact hb
      · simp [or_comm]

/-- A thing that is avoided already may be added without effect. -/
theorem Avoids.add_avoid {plan : Route} {a : Avoidance} (h : plan.Avoids a) :
    plan.add (.avoid a) = .ok plan := by
  obtain ⟨as, has, ha⟩ := h
  have hsame : some (avoiding a plan.avoid) = plan.avoid := by
    rw [has, avoiding, if_pos ha]
  rw [add, hsame]

/-- What an option that is added adds to the things that are avoided. -/
theorem avoids_of_add {plan plan' : Route} {option : RouteOption} (h : plan.add option = .ok plan')
    {a : Avoidance} (ha : option = .avoid a ∨ plan.Avoids a) : plan'.Avoids a := by
  have havoid : plan'.avoid = plan.avoid ∧ (∀ b, option ≠ .avoid b) ∨
      ∃ b, option = .avoid b ∧ plan'.avoid = some (avoiding b plan.avoid) := by
    cases option with
    | avoid b =>
        obtain rfl := Except.ok.inj h
        exact .inr ⟨b, rfl, rfl⟩
    | _ =>
        simp only [add] at h
        split at h
        · simp at h
        · obtain rfl := Except.ok.inj h
          exact .inl ⟨rfl, by simp⟩
  rcases havoid with ⟨havoid, hnot⟩ | ⟨b, rfl, havoid⟩
  · rw [Avoids, havoid]
    exact ha.resolve_left (hnot a)
  · refine ⟨_, havoid, mem_avoiding.2 ?_⟩
    rcases ha with ha | ha
    · cases ha
      exact .inl rfl
    · exact .inr ha

end Route

namespace Grammar

open Parse

/-- A line at the indent of a route block is added to the plan. -/
theorem readOptions_cons_at {indent : Int} {line : Line} (hindent : line.indent = indent)
    (plan : Route) (lines : List Line) :
    readOptions indent plan (line :: lines) =
      match addOption plan line with
      | .error fault => .error fault
      | .ok plan => readOptions indent plan lines := by
  have hless : ¬ line.indent < indent := by omega
  have hmore : ¬ indent < line.indent := by omega
  cases hadd : addOption plan line with
  | error fault => simp only [readOptions, if_neg hless, if_neg hmore, hadd]
  | ok plan' => simp only [readOptions, if_neg hless, if_neg hmore, hadd]

/-- A line whose option can be added to a plan. -/
theorem exists_add_of_addOption {plan plan' : Route} {line : Line}
    (h : addOption plan line = .ok plan') :
    ∃ option, readOption line = .ok option ∧ plan.add option = .ok plan' := by
  rw [addOption] at h
  cases hoption : readOption line with
  | error fault => simp [hoption] at h
  | ok option =>
      cases hadd : plan.add option with
      | error keyword => simp [hoption, hadd] at h
      | ok plan'' =>
          simp only [hoption, hadd, Except.ok.injEq] at h
          exact ⟨option, rfl, by rw [hadd, h]⟩

section Again

variable {indent : Int} {a : Avoidance} {between after : List Line} {again : Line}
  (hagain : OptionAt indent again (.avoid a)) (hbetween : ∀ line ∈ between, line.indent = indent)

include hagain hbetween

/-- A thing that a plan avoids already may be named in the lines that follow without effect. -/
theorem readOptions_again {plan : Route} (ha : plan.Avoids a) :
    readOptions indent plan (between ++ again :: after) =
      readOptions indent plan (between ++ after) := by
  -- the lines between are added first, and what they make of the plan avoids the thing as well
  induction between generalizing plan with
  | nil =>
      have hadd : addOption plan again = .ok plan := by
        rw [addOption, hagain.2]
        simp only [ha.add_avoid]
      rw [List.nil_append, readOptions_cons_at hagain.1, hadd]
      rfl
  | cons line between ih =>
      obtain ⟨hindent, hbetween⟩ := List.forall_mem_cons.1 hbetween
      rw [List.cons_append, List.cons_append, readOptions_cons_at hindent,
        readOptions_cons_at hindent]
      cases hadd : addOption plan line with
      | error fault => rfl
      | ok plan' =>
          obtain ⟨option, -, hone⟩ := exists_add_of_addOption hadd
          exact ih hbetween (Route.avoids_of_add hone (.inr ha))

/-- **A thing to avoid that is named again changes nothing**, whatever the other lines say. -/
theorem readOptions_twice {line : Line} (hline : OptionAt indent line (.avoid a))
    {before : List Line} (hbefore : ∀ line ∈ before, line.indent = indent) (plan : Route) :
    readOptions indent plan (before ++ line :: (between ++ again :: after)) =
      readOptions indent plan (before ++ line :: (between ++ after)) := by
  induction before generalizing plan with
  | nil =>
      rw [List.nil_append, List.nil_append, readOptions_cons_at hline.1,
        readOptions_cons_at hline.1]
      cases hadd : addOption plan line with
      | error fault => rfl
      | ok plan' =>
          obtain ⟨option, hoption, hone⟩ := exists_add_of_addOption hadd
          have ha : option = .avoid a := Except.ok.inj (hoption.symm.trans hline.2)
          exact readOptions_again hagain hbetween (Route.avoids_of_add hone (.inl ha))
  | cons first before ih =>
      obtain ⟨hindent, hbefore⟩ := List.forall_mem_cons.1 hbefore
      rw [List.cons_append, List.cons_append, readOptions_cons_at hindent,
        readOptions_cons_at hindent]
      cases addOption plan first with
      | error fault => rfl
      | ok plan' => exact ih hbefore plan'

end Again

/-- A line with the text of an option is this option. -/
theorem OptionAt.of_text {indent : Int} {line again : Line} {option : RouteOption}
    (h : OptionAt indent line option) (hindent : again.indent = indent)
    (htext : again.text = line.text) : OptionAt indent again option := by
  have hmoved : line.Moved (fun _ => again.number) 0 again :=
    ⟨rfl, by rw [hindent, h.1, Int.add_zero], htext⟩
  refine ⟨hindent, ?_⟩
  rw [readOption_moved hmoved, h.2]
  rfl

/-- The same for a whole route plan. -/
theorem readStatement_twice {base : Int} {head : Line} {name : String}
    (hd : HeaderAt base head (.route name)) {a : Avoidance} {before between after : List Line}
    {line again : Line} (hline : OptionAt (base + indentStep) line (.avoid a))
    (hagain : OptionAt (base + indentStep) again (.avoid a))
    (hbefore : ∀ line ∈ before, line.indent = base + indentStep)
    (hbetween : ∀ line ∈ between, line.indent = base + indentStep) :
    readStatement base head (before ++ line :: (between ++ again :: after)) =
      readStatement base head (before ++ line :: (between ++ after)) := by
  have hopen : blockFault? head "route" base (before ++ line :: (between ++ again :: after)) =
      blockFault? head "route" base (before ++ line :: (between ++ after)) :=
    blockFault?_congr (head?_append_cons before line _ _) head "route" base
  simp only [readStatement_eq, hd.2, hopen, readOptions_twice hagain hbetween hline hbefore]

/-! ### Route blocks -/

section Blocks

variable {base : Int} {head : Line} {name : String} (hd : HeaderAt base head (.route name))
  {lines : List Line} (hne : lines ≠ [])
  (hindent : ∀ line ∈ lines, line.indent = base + indentStep) {rest : List Line}
  (hrest : Ends (base + indentStep) rest)

include hd hne hindent hrest

/-- **When a route block is accepted**: each line is accepted by itself, and no two of them fill the
same slot. -/
theorem exists_readStatement_iff :
    (∃ result, readStatement base head (lines ++ rest) = .ok result) ↔
      (∀ line ∈ lines, ∃ result, readStatement base head [line] = .ok result) ∧
      lines.Pairwise fun line line' => ∀ slot, ¬ (Fills slot line ∧ Fills slot line') := by
  have halone : (∀ line ∈ lines, ∃ result, readStatement base head [line] = .ok result) ↔
      ∀ line ∈ lines, ∃ option, OptionAt (base + indentStep) line option :=
    forall₂_congr fun line hline => exists_readStatement_single_iff hd (hindent line hline)
  rw [halone]
  constructor
  · rintro ⟨result, hresult⟩
    obtain ⟨hoptions, hslots, -⟩ :=
      (readStatement_route_eq_ok_iff hd hne hindent hrest).1 hresult
    exact ⟨hoptions, hslots⟩
  · rintro ⟨hoptions, hslots⟩
    exact ⟨_, (readStatement_route_eq_ok_iff hd hne hindent hrest).2 ⟨hoptions, hslots, rfl⟩⟩

/-- **A route block that is accepted is accepted in any other order**, as the same plan but for the
order of the things to avoid. -/
theorem exists_readStatement_of_perm {plan : Route} {left lines' : List Line}
    (h : readStatement base head (lines ++ rest) = .ok (.route plan, left))
    (hperm : lines'.Perm lines) :
    ∃ plan', readStatement base head (lines' ++ rest) = .ok (.route plan', rest) ∧
      Route.SameButOrder plan plan' := by
  obtain ⟨hoptions, hslots, hresult⟩ :=
    (readStatement_route_eq_ok_iff hd hne hindent hrest).1 h
  cases hresult
  have hnodup := nodup_slots_iff.2 hslots
  have hpermOptions := hperm.symm.filterMap option?
  have hne' : lines' ≠ [] := by
    rintro rfl
    exact hne hperm.nil_eq.symm
  have hindent' : ∀ line ∈ lines', line.indent = base + indentStep :=
    fun line hline => hindent line (hperm.mem_iff.1 hline)
  have hoptions' : ∀ line ∈ lines', ∃ option, OptionAt (base + indentStep) line option :=
    fun line hline => hoptions line (hperm.mem_iff.1 hline)
  have hslots' : lines'.Pairwise fun line line' => ∀ slot, ¬ (Fills slot line ∧ Fills slot line') :=
    nodup_slots_iff.1 ((hpermOptions.filterMap RouteOption.slot?).nodup_iff.1 hnodup)
  exact ⟨_, (readStatement_route_eq_ok_iff hd hne' hindent' hrest).2 ⟨hoptions', hslots', rfl⟩,
    Route.sameButOrder_of_perm name hnodup hpermOptions⟩

omit hne hrest in
/-- A line that names a thing to avoid may be repeated further below without any effect. -/
theorem readStatement_repeated {before between after : List Line} {line again : Line}
    {a : Avoidance} (hlines : lines = before ++ line :: (between ++ after))
    (hline : readOption line = .ok (.avoid a)) (htext : again.text = line.text)
    (hagain : again.indent = line.indent) :
    readStatement base head (before ++ line :: (between ++ again :: after) ++ rest) =
      readStatement base head (lines ++ rest) := by
  subst hlines
  simp only [List.mem_append, List.mem_cons] at hindent
  have hoption : OptionAt (base + indentStep) line (.avoid a) :=
    ⟨hindent line (.inr (.inl rfl)), hline⟩
  have htwice : readStatement base head (before ++ line :: (between ++ again :: (after ++ rest))) =
      readStatement base head (before ++ line :: (between ++ (after ++ rest))) :=
    readStatement_twice hd hoption (hoption.of_text (hagain.trans hoption.1) htext)
      (fun line hmem => hindent line (.inl hmem))
      (fun line hmem => hindent line (.inr (.inr (.inl hmem))))
  simpa using htwice

end Blocks

/-- **Route options may come in any order.**  Below a route header let there be lines at the indent of
its block, at least one, and then lines that end the block.

* The block is accepted exactly if each of its lines is accepted as a block of its own and no two of
  them fill the same slot.
* If it is accepted, it is read as a plan under the name in the header.  The things to avoid are those
  that the lines name, each once, in the order in which they are first named, and there is no list of
  them if no line names one.  In any other order the lines are accepted, and their plan is the same
  but for the order of the things to avoid.
* A line that names a thing to avoid may be repeated anywhere below without any effect. -/
theorem options_in_any_order {base : Int} {head : Line} {name : String}
    (hd : HeaderAt base head (.route name)) {lines : List Line} (hne : lines ≠ [])
    (hindent : ∀ line ∈ lines, line.indent = base + indentStep) {rest : List Line}
    (hrest : Ends (base + indentStep) rest) :
    ((∃ result, readStatement base head (lines ++ rest) = .ok result) ↔
      (∀ line ∈ lines, ∃ result, readStatement base head [line] = .ok result) ∧
      lines.Pairwise fun line line' => ∀ slot, ¬ (Fills slot line ∧ Fills slot line')) ∧
    (∀ result, readStatement base head (lines ++ rest) = .ok result →
      ∃ plan, result = (.route plan, rest) ∧ plan.name = name ∧
        plan.avoid = (if avoidances lines = [] then none else some (avoidances lines).eraseDups) ∧
        ∀ lines', lines'.Perm lines →
          ∃ plan', readStatement base head (lines' ++ rest) = .ok (.route plan', rest) ∧
            Route.SameButOrder plan plan') ∧
    ∀ before line between after again a, lines = before ++ line :: (between ++ after) →
      readOption line = .ok (.avoid a) → again.text = line.text → again.indent = line.indent →
      readStatement base head (before ++ line :: (between ++ again :: after) ++ rest) =
        readStatement base head (lines ++ rest) := by
  refine ⟨exists_readStatement_iff hd hne hindent hrest, ?_, ?_⟩
  · intro result hresult
    obtain ⟨-, -, rfl⟩ := (readStatement_route_eq_ok_iff hd hne hindent hrest).1 hresult
    refine ⟨_, rfl, rfl, ?_, ?_⟩
    · simp only [Route.ofOptions, avoidances, List.filterMap_filterMap]
      rfl
    · intro lines' hperm
      exact exists_readStatement_of_perm hd hne hindent hrest hresult hperm
  · intro before line between after again a hlines hline htext hagain
    exact readStatement_repeated hd hindent hlines hline htext hagain

/-- The options of a plan that avoids two things. -/
def errandOptions : List Line :=
  [⟨2, 2, "avoid tolls", "  avoid tolls"⟩, ⟨3, 2, "from \"Home\"", "  from \"Home\""⟩,
    ⟨4, 2, "Avoid traffic", "  Avoid traffic"⟩]

/-- They are accepted in reverse order as well, and make the same plan but for the order of the
things to avoid. -/
theorem options_in_any_order_errand :
    ∃ plan plan', readStatement 0 ⟨1, 0, "route r", "route r"⟩
        (errandOptions ++ [⟨5, 0, "show x", "show x"⟩]) =
          .ok (.route plan, [⟨5, 0, "show x", "show x"⟩]) ∧
      readStatement 0 ⟨1, 0, "route r", "route r"⟩
        (errandOptions.reverse ++ [⟨5, 0, "show x", "show x"⟩]) =
          .ok (.route plan', [⟨5, 0, "show x", "show x"⟩]) ∧
      plan.avoid = some [.tolls, .traffic] ∧ plan.SameButOrder plan' := by
  have hroute : HeaderAt 0 ⟨1, 0, "route r", "route r"⟩ (.route "r") := ⟨rfl, rfl⟩
  have hoptions : List.Forall₂ (OptionAt (0 + indentStep)) errandOptions
      [.avoid .tolls, .origin "Home", .avoid .traffic] :=
    .cons ⟨rfl, rfl⟩ (.cons ⟨rfl, rfl⟩ (.cons ⟨rfl, rfl⟩ .nil))
  have hends : Ends (0 + indentStep) [⟨5, 0, "show x", "show x"⟩] := by simp [Ends, indentStep]
  have hread := readStatement_route hroute hoptions (List.cons_ne_nil _ _) (by decide) hends
  have hindent : ∀ line ∈ errandOptions, line.indent = 0 + indentStep := by decide
  obtain ⟨-, hplan, -⟩ := options_in_any_order hroute (List.cons_ne_nil _ _) hindent hends
  obtain ⟨plan, hresult, -, havoid, horder⟩ := hplan _ hread
  obtain ⟨plan', hread', hsame⟩ := horder _ errandOptions.reverse_perm
  exact ⟨plan, plan', hread.trans (congrArg _ hresult), hread', havoid, hsame⟩

end Grammar

end Waymark
