/-
**A saved program is read back from its text.**

A program reaches a text in two steps: its nodes become a document, and the document is written in
one of many layouts.  Both steps can be undone, the first for every program and the second for every
document without long whole numbers; this module puts them together.

A program has no whole numbers but the stop counts of its route plans, the numbers of its literals
being doubles.  So it is enough that those are not too long, whatever else the program holds.

Main definitions:

* `Value.HasShortInts` — values whose whole numbers are short enough to be read.

Main results:

* `Value.HasShortInts.isReadable_toJson` — the document of such a value can be read back;
* `Program.hasShortInts_toValue` — the whole numbers of a program are its stop counts;
* `Document.readProgram_toDocument` — **a program is read back from the text it is saved as**, with
  every indent.
-/
import Waymark.Proofs.JsonText
import Waymark.Proofs.Saved

set_option relaxedAutoImplicit false
set_option autoImplicit false

namespace Waymark

namespace Value

/-! ### Documents that can be read back -/

/-- Every whole number inside a value is short enough to be read. -/
def HasShortInts (value : Value) : Prop :=
  ∀ n : Int, Inside (.int n) value → (Numeral.digitsOf n.natAbs).length ≤ Numeral.maxDigits

theorem hasShortInts_block {items : List Value} :
    HasShortInts (.block items) ↔ ∀ v ∈ items, v.HasShortInts := by
  constructor
  · intro h v hv n hinside
    exact h n (.entry hv hinside)
  · intro h n hinside
    cases hinside with
    | entry hv hinside => exact h _ hv n hinside

theorem hasShortInts_node {kind : Kind} {fields : List Value} :
    HasShortInts (.node kind fields) ↔ ∀ v ∈ fields, v.HasShortInts := by
  constructor
  · intro h v hv n hinside
    exact h n (.field hv hinside)
  · intro h n hinside
    cases hinside with
    | field hv hinside => exact h _ hv n hinside

theorem hasShortInts_null : HasShortInts .null := by
  intro n hinside
  cases hinside

theorem hasShortInts_text (s : String) : HasShortInts (.text s) := by
  intro n hinside
  cases hinside

/-- What may be there has short whole numbers, if it has whenever it is there. -/
theorem hasShortInts_ofOption {α : Type} {f : α → Value} {x : Option α}
    (h : ∀ a ∈ x, (f a).HasShortInts) : (Value.ofOption f x).HasShortInts := by
  cases x with
  | none => exact hasShortInts_null
  | some a => exact h a rfl

/-- Fields that hold nothing are left out, so the keys of a node are some of those of its kind. -/
theorem keys_toMembers_sublist (infos : List Field) (fields : List Value) :
    ((toMembers infos fields).map Prod.fst).Sublist (infos.map Field.key) := by
  induction infos generalizing fields with
  | nil => simp [toMembers]
  | cons info infos ih =>
      cases fields with
      | nil => simp [toMembers]
      | cons v fields =>
          rw [toMembers]
          split
          · exact (ih fields).cons info.key
          · exact (ih fields).cons_cons info.key

mutual

/-- **The document of a value can be read back**, if no whole number in the value is too long. -/
theorem HasShortInts.isReadable_toJson {value : Value} (h : value.HasShortInts) :
    value.toJson.IsReadable := by
  match value with
  | .null =>
      rw [toJson]
      exact .null
  | .bool b =>
      rw [toJson]
      exact .bool b
  | .int n =>
      rw [toJson]
      exact .int (h n (.refl _))
  | .float x =>
      rw [toJson]
      exact .float x
  | .text s =>
      rw [toJson]
      exact .text s
  | .list items =>
      rw [toJson]
      exact .array (isReadable_toJsons items fun v hv n hinside => h n (.item hv hinside))
  | .block items =>
      rw [toJson]
      exact .array (isReadable_toJsons items (hasShortInts_block.1 h))
  | .operator op =>
      rw [toJson]
      exact .text op.word
  | .preference p =>
      rw [toJson]
      exact .text p.word
  | .avoidance a =>
      rw [toJson]
      exact .text a.word
  | .node kind fields =>
      rw [toJson]
      refine .object (kind.keys_nodup.sublist ?_) (List.forall_mem_cons.2 ⟨.text kind.tag, ?_⟩)
      · exact (keys_toMembers_sublist kind.fields fields).cons_cons "type"
      · exact isReadable_toMembers kind.fields fields (hasShortInts_node.1 h)

theorem isReadable_toJsons (items : List Value) (h : ∀ v ∈ items, v.HasShortInts) :
    ∀ item ∈ toJsons items, item.IsReadable := by
  match items with
  | [] => simp [toJsons]
  | v :: items =>
      obtain ⟨hv, hitems⟩ := List.forall_mem_cons.1 h
      rw [toJsons]
      exact List.forall_mem_cons.2 ⟨hv.isReadable_toJson, isReadable_toJsons items hitems⟩

theorem isReadable_toMembers (infos : List Field) (fields : List Value)
    (h : ∀ v ∈ fields, v.HasShortInts) :
    ∀ member ∈ toMembers infos fields, member.2.IsReadable := by
  match infos, fields with
  | [], _ => simp [toMembers]
  | _ :: _, [] => simp [toMembers]
  | info :: infos, v :: fields =>
      obtain ⟨hv, hfields⟩ := List.forall_mem_cons.1 h
      rw [toMembers]
      split
      · exact isReadable_toMembers infos fields hfields
      · exact List.forall_mem_cons.2
          ⟨hv.isReadable_toJson, isReadable_toMembers infos fields hfields⟩

end

end Value

/-! ### The whole numbers of a program -/

/-- An expression has no whole numbers. -/
theorem Expr.hasShortInts_toValue (e : Expr) : e.toValue.HasShortInts := by
  induction e with
  | compare op left right ihleft ihright =>
      simp only [toValue, Value.hasShortInts_node, List.forall_mem_cons]
      refine ⟨?_, ihleft, ihright, by simp⟩
      intro n hinside
      cases hinside
  | _ =>
      simp only [toValue, Value.hasShortInts_node, List.forall_mem_cons]
      refine ⟨?_, by simp⟩
      intro n hinside
      cases hinside

/-- The stop count of a route plan, if it has one, is short enough to be read. -/
def Route.HasShortStops (plan : Route) : Prop :=
  ∀ n ∈ plan.maxStops, (Numeral.digitsOf n).length ≤ Numeral.maxDigits

/-- A route plan has no whole number but its stop count. -/
theorem Route.HasShortStops.hasShortInts_toValue {plan : Route} (h : plan.HasShortStops) :
    plan.toValue.HasShortInts := by
  have htext : ∀ x : Option String, (Value.ofOption .text x).HasShortInts :=
    fun x => Value.hasShortInts_ofOption fun s _ => Value.hasShortInts_text s
  have hprefer : (Value.ofOption .preference plan.prefer).HasShortInts := by
    refine Value.hasShortInts_ofOption ?_
    intro p _ n hinside
    cases hinside
  have havoid : (Value.ofOption (fun avoid => .block (avoid.map .avoidance))
      plan.avoid).HasShortInts := by
    refine Value.hasShortInts_ofOption fun avoid _ => Value.hasShortInts_block.2 ?_
    intro v hv n hinside
    obtain ⟨a, -, rfl⟩ := List.mem_map.1 hv
    cases hinside
  simp only [toValue, Value.hasShortInts_node, List.forall_mem_cons]
  refine ⟨Value.hasShortInts_text plan.name, htext _, htext _, hprefer, havoid, ?_, htext _,
    htext _, by simp⟩
  refine Value.hasShortInts_ofOption ?_
  intro count hcount n hinside
  cases hinside
  obtain ⟨stops, hstops, ⟨⟩⟩ := Option.bind_eq_some_iff.1 hcount
  exact h stops hstops

namespace Stmt

mutual

theorem hasShortInts_toValue (s : Stmt) (h : ∀ plan ∈ s.routes, plan.HasShortStops) :
    s.toValue.HasShortInts := by
  match s with
  | .when event body =>
      rw [routes] at h
      simp only [toValue, Value.hasShortInts_node, List.forall_mem_cons]
      exact ⟨Value.hasShortInts_text event,
        Value.hasShortInts_block.2 (hasShortInts_toValues body h), by simp⟩
  | .branch test thenBody none =>
      rw [routes] at h
      simp only [toValue, Value.hasShortInts_node, List.forall_mem_cons]
      exact ⟨test.hasShortInts_toValue,
        Value.hasShortInts_block.2 (hasShortInts_toValues thenBody h), Value.hasShortInts_null,
        by simp⟩
  | .branch test thenBody (some elseBody) =>
      rw [routes, List.forall_mem_append] at h
      simp only [toValue, Value.hasShortInts_node, List.forall_mem_cons]
      exact ⟨test.hasShortInts_toValue,
        Value.hasShortInts_block.2 (hasShortInts_toValues thenBody h.1),
        Value.hasShortInts_block.2 (hasShortInts_toValues elseBody h.2), by simp⟩
  | .display value =>
      simp only [toValue, Value.hasShortInts_node, List.forall_mem_cons]
      exact ⟨value.hasShortInts_toValue, by simp⟩
  | .assign name value =>
      simp only [toValue, Value.hasShortInts_node, List.forall_mem_cons]
      exact ⟨Value.hasShortInts_text name, value.hasShortInts_toValue, by simp⟩
  | .route plan =>
      rw [routes, List.forall_mem_singleton] at h
      rw [toValue]
      exact h.hasShortInts_toValue

theorem hasShortInts_toValues (body : List Stmt) (h : ∀ plan ∈ routesOf body, plan.HasShortStops) :
    ∀ v ∈ toValues body, v.HasShortInts := by
  match body with
  | [] => simp [toValues]
  | s :: body =>
      rw [routesOf, List.forall_mem_append] at h
      rw [toValues]
      exact List.forall_mem_cons.2
        ⟨hasShortInts_toValue s h.1, hasShortInts_toValues body h.2⟩

end

end Stmt

/-- **The whole numbers of a program are the stop counts of its route plans.** -/
theorem Program.hasShortInts_toValue {p : Program}
    (h : ∀ plan ∈ Stmt.routesOf p.body, plan.HasShortStops) : p.toValue.HasShortInts := by
  simp only [toValue, Value.hasShortInts_node, List.forall_mem_cons]
  exact ⟨Value.hasShortInts_block.2 (Stmt.hasShortInts_toValues p.body h), by simp⟩

namespace Document

/-- The document of a value is read back from its text. -/
theorem readJson_toDocument {value : Value} (h : value.HasShortInts) (indent : Option Int) :
    readJson (value.toDocument indent) = .ok value.toJson := by
  rw [readJson, Value.toDocument, String.toList_ofList, Json.read_write h.isReadable_toJson]

/-- **A program is read back from the text it is saved as**, whatever the indent, if no stop count
in it has more digits than are read. -/
theorem readProgram_toDocument (p : Program) (indent : Option Int)
    (h : ∀ plan ∈ Stmt.routesOf p.body, ∀ n ∈ plan.maxStops,
      (Numeral.digitsOf n).length ≤ Numeral.maxDigits) :
    readProgram (p.toValue.toDocument indent) = .ok p.toValue := by
  have hload : loadProgram p.toValue.toJson = .ok p.toValue := by
    rw [loadProgram, load_toJson_toValue]
    rfl
  rw [readProgram, readJson_toDocument (Program.hasShortInts_toValue h)]
  exact hload

/-- A program with a character outside the basic plane, NaN and a stop count. -/
def nightPlan : Program :=
  ⟨[.when "dusk" [.display (.text "🌙 \"home\"\n"), .assign "x" (.number .nan),
    .route { name := "r", maxStops := some 12 }]]⟩

/-- It is read back from lines without any indent. -/
theorem readProgram_toDocument_nightPlan :
    readProgram (nightPlan.toValue.toDocument (some (-2))) = .ok nightPlan.toValue := by
  have hstops : ∀ plan ∈ Stmt.routesOf nightPlan.body, ∀ n ∈ plan.maxStops,
      (Numeral.digitsOf n).length ≤ Numeral.maxDigits := by
    decide
  exact readProgram_toDocument nightPlan (some (-2)) hstops

end Document

end Waymark
