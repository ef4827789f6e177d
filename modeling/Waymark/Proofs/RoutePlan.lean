/-
**The route plan that options make.**

A route block is read line by line: each option is added to the plan so far, and an option other than
an avoidance that is there already is refused.  This module says the same without a running plan.
Options make a plan if no *slot* is filled twice, and the plan then has in each slot what the options
say about it, and avoids what they name, each thing once, in the order in which it is first named.

Main definitions:

* `Parse.RouteOption.Slot`, `Parse.RouteOption.slot?` — the parts of a plan that may be given once,
  and the one that an option fills;
* `Route.ofOptions` — the plan that options make;
* `Route.addAll` — options added to a plan one after the other.

Main results:

* `Route.add_ofOptions` — what one more option does to the plan that options make;
* `Route.addAll_eq_ok_iff` — **adding options one after the other succeeds exactly if no slot is
  filled twice**, and it gives the plan that the options make.
-/
import Mathlib.Data.List.Nodup
import Waymark.Parse.Option

set_option relaxedAutoImplicit false
set_option autoImplicit false

namespace Waymark

namespace Parse.RouteOption

/-! ### Slots -/

/-- The parts of a route plan that may be given once. -/
inductive Slot where
  | origin
  | destination
  | prefer
  | maxStops
  | departAt
  | arriveBefore
deriving DecidableEq

/-- The keyword of the option that fills a slot. -/
def Slot.keyword : Slot → String
  | .origin => "from"
  | .destination => "to"
  | .prefer => "prefer"
  | .maxStops => "max stops"
  | .departAt => "depart at"
  | .arriveBefore => "arrive before"

/-- The slot that an option fills; an avoidance fills none. -/
def slot? : RouteOption → Option Slot
  | .avoid _ => none
  | .origin _ => some .origin
  | .destination _ => some .destination
  | .prefer _ => some .prefer
  | .maxStops _ => some .maxStops
  | .departAt _ => some .departAt
  | .arriveBefore _ => some .arriveBefore

/-- The slots that options fill, in order. -/
def slots (options : List RouteOption) : List Slot := options.filterMap slot?

/-- What an option says should be avoided. -/
def avoidance? : RouteOption → Option Avoidance
  | .avoid a => some a
  | _ => none

/-- The start that an option gives. -/
def origin? : RouteOption → Option String
  | .origin place => some place
  | _ => none

/-- The end that an option gives. -/
def destination? : RouteOption → Option String
  | .destination place => some place
  | _ => none

/-- The preference that an option gives. -/
def preference? : RouteOption → Option Preference
  | .prefer p => some p
  | _ => none

/-- The number of stops that an option gives. -/
def stops? : RouteOption → Option Nat
  | .maxStops n => some n
  | _ => none

/-- The departure that an option gives. -/
def departure? : RouteOption → Option String
  | .departAt clock => some clock
  | _ => none

/-- The arrival that an option gives. -/
def arrival? : RouteOption → Option String
  | .arriveBefore clock => some clock
  | _ => none

@[simp] theorem slots_nil : slots [] = [] := rfl

@[simp] theorem slots_append (before options : List RouteOption) :
    slots (before ++ options) = slots before ++ slots options :=
  List.filterMap_append

end Parse.RouteOption

namespace Route

open Parse (RouteOption)
open Parse.RouteOption (Slot slot? slots slots_append avoidance? origin? destination? preference?
  stops? departure? arrival?)

/-! ### The plan that options make -/

/-- The list of avoidances of a plan: each one once, in the order in which it is first named, and no
list at all if none is named. -/
def avoidList (named : List Avoidance) : Option (List Avoidance) :=
  if named = [] then none else some named.eraseDups

/-- The plan with the given name that options make, whatever slots they fill. -/
def ofOptions (name : String) (options : List RouteOption) : Route where
  name := name
  origin := options.findSome? origin?
  destination := options.findSome? destination?
  prefer := options.findSome? preference?
  avoid := avoidList (options.filterMap avoidance?)
  maxStops := options.findSome? stops?
  departAt := options.findSome? departure?
  arriveBefore := options.findSome? arrival?

/-- Whether a slot of a plan is filled. -/
def fills (plan : Route) (slot : Slot) : Bool :=
  match slot with
  | .origin => plan.origin.isSome
  | .destination => plan.destination.isSome
  | .prefer => plan.prefer.isSome
  | .maxStops => plan.maxStops.isSome
  | .departAt => plan.departAt.isSome
  | .arriveBefore => plan.arriveBefore.isSome

theorem ofOptions_nil (name : String) : ofOptions name [] = { name := name } := rfl

/-- One avoidance more, at the end of those that were named. -/
theorem avoidList_concat (named : List Avoidance) (a : Avoidance) :
    avoidList (named ++ [a]) = some (avoiding a (avoidList named)) := by
  by_cases hn : named = []
  · rw [hn]
    rfl
  · have hne : named ++ [a] ≠ [] := List.append_ne_nil_of_left_ne_nil hn [a]
    rw [avoidList, if_neg hne, avoidList, if_neg hn, List.eraseDups_append, avoiding]
    by_cases h : a ∈ named
    · rw [if_pos (List.mem_eraseDups.2 h)]
      simp [List.removeAll, h]
    · rw [if_neg (fun h' => h (List.mem_eraseDups.1 h'))]
      simp [List.removeAll, h, List.eraseDups_cons]

/-- A slot of the plan that options make is filled exactly if one of the options fills it. -/
theorem fills_ofOptions (name : String) (options : List RouteOption) (slot : Slot) :
    (ofOptions name options).fills slot = true ↔ slot ∈ slots options := by
  -- the first option fills its own slot, and the others are left as they were
  induction options with
  | nil => cases slot <;> simp [fills, ofOptions]
  | cons option options ih =>
      cases option <;> cases slot <;>
        simp_all [fills, ofOptions, slots, slot?, origin?, destination?, preference?, stops?,
          departure?, arrival?, List.findSome?_cons]

/-- A plan with what one option says, where it says nothing yet. -/
def extend (plan : Route) (option : RouteOption) : Route where
  name := plan.name
  origin := plan.origin.or option.origin?
  destination := plan.destination.or option.destination?
  prefer := plan.prefer.or option.preference?
  avoid :=
    match option.avoidance? with
    | none => plan.avoid
    | some a => some (avoiding a plan.avoid)
  maxStops := plan.maxStops.or option.stops?
  departAt := plan.departAt.or option.departure?
  arriveBefore := plan.arriveBefore.or option.arrival?

/-- Adding an option either meets a slot that is filled or extends the plan. -/
theorem add_eq (plan : Route) (option : RouteOption) :
    plan.add option =
      match option.slot? with
      | none => .ok (plan.extend option)
      | some slot => if plan.fills slot then .error slot.keyword else .ok (plan.extend option) := by
  cases option <;>
    simp only [add, fills, extend, slot?, Slot.keyword, avoidance?, origin?, destination?,
      preference?, stops?, departure?, arrival?, Option.or_none]
  -- what is left is the slot of the option itself, which is empty in the second branch
  all_goals
    split
    · rfl
    · simp_all

/-- The plan that options make, extended by one option at their end. -/
theorem ofOptions_concat (name : String) (options : List RouteOption) (option : RouteOption) :
    ofOptions name (options ++ [option]) = (ofOptions name options).extend option := by
  have avoid : avoidList ((options ++ [option]).filterMap avoidance?) =
      ((ofOptions name options).extend option).avoid := by
    rw [List.filterMap_append]
    cases h : option.avoidance? with
    | none => simp [extend, ofOptions, h]
    | some a => simp [extend, ofOptions, h, avoidList_concat]
  simp only [ofOptions, avoid]
  simp [extend, List.findSome?_append]

/-- **One option more**: it is refused if its slot is filled, and otherwise gives the plan that all
the options make. -/
theorem add_ofOptions (name : String) (options : List RouteOption) (option : RouteOption) :
    (ofOptions name options).add option =
      match option.slot? with
      | none => .ok (ofOptions name (options ++ [option]))
      | some slot =>
        if slot ∈ slots options then .error slot.keyword
        else .ok (ofOptions name (options ++ [option])) := by
  rw [add_eq, ofOptions_concat]
  cases option.slot? with
  | none => rfl
  | some slot => simp only [fills_ofOptions]

/-! ### Options one after the other -/

/-- Options added to a plan one after the other, up to the first one that is refused. -/
def addAll (plan : Route) (options : List RouteOption) : Except String Route :=
  match options with
  | [] => .ok plan
  | option :: options =>
    match plan.add option with
    | .error keyword => .error keyword
    | .ok plan => plan.addAll options

/-- Adding to the plan that options make goes on as if all options were added from the start. -/
theorem addAll_ofOptions_eq_ok_iff {name : String} {before options : List RouteOption}
    {plan : Route} (h : (slots before).Nodup) :
    (ofOptions name before).addAll options = .ok plan ↔
      (slots (before ++ options)).Nodup ∧ plan = ofOptions name (before ++ options) := by
  induction options generalizing before with
  | nil => simp [addAll, h, eq_comm]
  | cons option options ih =>
      have hsplit : before ++ option :: options = before ++ [option] ++ options := by simp
      rw [addAll, add_ofOptions, hsplit]
      cases hslot : option.slot? with
      | none =>
          have hnext : slots [option] = [] := by simp [slots, hslot]
          exact ih (by rw [slots_append, hnext, List.append_nil]; exact h)
      | some slot =>
          have hnext : slots (before ++ [option]) = slots before ++ [slot] := by
            simp [slots, hslot]
          by_cases hmem : slot ∈ slots before
          · -- the slot is filled, so the option is refused and the slots repeat
            have hdup : ¬ (slots (before ++ [option] ++ options)).Nodup := by
              intro hnodup
              rw [slots_append, hnext] at hnodup
              have hpair := (List.nodup_append.1 hnodup.of_append_left).2.2
              exact hpair slot hmem slot (List.mem_singleton_self slot) rfl
            simp only [if_pos hmem, reduceCtorEq, false_iff, not_and]
            intro hnodup
            exact absurd hnodup hdup
          · simp only [if_neg hmem]
            refine ih ?_
            rw [hnext, List.nodup_append]
            refine ⟨h, List.nodup_singleton slot, ?_⟩
            rintro a ha b hb rfl
            exact hmem (List.mem_singleton.1 hb ▸ ha)

/-- **Options make a plan exactly if they fill no slot twice**, and adding them one after the other
gives that plan. -/
theorem addAll_eq_ok_iff {name : String} {options : List RouteOption} {plan : Route} :
    ({ name := name } : Route).addAll options = .ok plan ↔
      (slots options).Nodup ∧ plan = ofOptions name options := by
  rw [← ofOptions_nil, addAll_ofOptions_eq_ok_iff (by simp), List.nil_append]

end Route

end Waymark
