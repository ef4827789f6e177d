/-
**What is saved is loaded again.**

A node is saved as an object that leaves out the fields which hold nothing, and a field that an
object leaves out is filled in when the object is loaded: by nothing at all, by an empty block, or
not at all, so that the object is refused.  Only in the first case does the node come back as it
was.  This module shows that this is the only way in which a node can be lost: what was loaded from
a document, whatever its fields hold, is loaded again from the document it is saved as exactly if
nothing stands only in fields that are optional.

Main definitions:

* `Document.Loads` — what a field holds that is loaded from the members of an object;
* `Value.Fits` — the values that documents are loaded as;
* `Value.Inside`, `Value.NullsOnlyIn` — the parts of a value, and the values in which nothing stands
  only in given fields of nodes;
* `Kind.optional` — the fields that may hold nothing.

Main results:

* `Document.loadNode_eq_ok_iff` — a node is loaded field by field;
* `Document.loadContent_fits` — what is loaded fits;
* `Value.Fits.loadContent_toJson`, `Value.Fits.nullsOnlyIn` — what fits is loaded again if nothing
  stands only in optional fields, and only then;
* `Document.load_toJson_iff` — **what was loaded is loaded again exactly if nothing stands only in
  optional fields**, and so is every program that is read from a source.
-/
import Mathlib.Data.List.Forall2
import Waymark.Document.Load
import Waymark.Document.Save
import Waymark.Parse.Block

set_option relaxedAutoImplicit false
set_option autoImplicit false

namespace Waymark

namespace Document

/-! ### A node is loaded field by field -/

/-- What a field holds that is loaded from the members of an object: the member with its key, read
as the field requires, or what stands in the place of a missing one. -/
def Loads (members : List Member) (field : Field) (v : Value) : Prop :=
  match members.lookup field.key with
  | none => fillField field none = .ok v
  | some (value, content) => loadField field.role value content = .ok v

/-- Fields are loaded one by one, and those that are missing are filled in afterwards. -/
theorem forall₂_loads_iff {members : List Member} {fields : List Field} {vs : List Value} :
    List.Forall₂ (Loads members) fields vs ↔
      ∃ values, loadFields fields members = .ok values ∧ fillFields fields values = .ok vs := by
  induction fields generalizing vs with
  | nil => simp [loadFields, fillFields, eq_comm]
  | cons field fields ih =>
      rw [loadFields, List.forall₂_cons_left_iff]
      constructor
      · rintro ⟨v, vs, hfield, hfields, rfl⟩
        obtain ⟨values, hload, hfill⟩ := ih.1 hfields
        rw [Loads] at hfield
        cases hlookup : members.lookup field.key with
        | none =>
            rw [hlookup] at hfield
            refine ⟨none :: values, by rw [hload], ?_⟩
            simp only [fillFields, hfield, hfill]
        | some found =>
            rw [hlookup] at hfield
            refine ⟨some v :: values, by simp only [hfield, hload], ?_⟩
            simp only [fillFields, fillField, hfill]
      · rintro ⟨values, hload, hfill⟩
        cases hlookup : members.lookup field.key with
        | none =>
            cases hrest : loadFields fields members with
            | error f => simp [hlookup, hrest] at hload
            | ok rest =>
                simp only [hlookup, hrest, Except.ok.injEq] at hload
                subst hload
                rw [fillFields] at hfill
                cases hone : fillField field none with
                | error f => simp [hone] at hfill
                | ok v =>
                    cases hmore : fillFields fields rest with
                    | error f => simp [hone, hmore] at hfill
                    | ok more =>
                        simp only [hone, hmore, Except.ok.injEq] at hfill
                        exact ⟨v, more, by rw [Loads, hlookup]; exact hone,
                          ih.2 ⟨rest, hrest, hmore⟩, hfill.symm⟩
        | some found =>
            obtain ⟨value, content⟩ := found
            cases hone : loadField field.role value content with
            | error f => simp [hlookup, hone] at hload
            | ok v =>
                cases hrest : loadFields fields members with
                | error f => simp [hlookup, hone, hrest] at hload
                | ok rest =>
                    simp only [hlookup, hone, hrest, Except.ok.injEq] at hload
                    subst hload
                    rw [fillFields, fillField] at hfill
                    cases hmore : fillFields fields rest with
                    | error f => simp [hmore] at hfill
                    | ok more =>
                        simp only [hmore, Except.ok.injEq] at hfill
                        exact ⟨v, more, by rw [Loads, hlookup]; exact hone,
                          ih.2 ⟨rest, hrest, hmore⟩, hfill.symm⟩

/-- **A node is loaded field by field**, once its tag names a kind. -/
theorem loadNode_eq_ok_iff {tag : Option Json} {members : List Member} {n : Value} :
    loadNode tag members = .ok n ↔
      ∃ kind fields, kindOf tag = .ok kind ∧ n = .node kind fields ∧
        List.Forall₂ (Loads members) kind.fields fields := by
  rw [loadNode]
  constructor
  · intro h
    cases hkind : kindOf tag with
    | error f => simp [hkind] at h
    | ok kind =>
        cases hload : loadFields kind.fields members with
        | error f => simp [hkind, hload] at h
        | ok values =>
            cases hfill : fillFields kind.fields values with
            | error f => simp [hkind, hload, hfill] at h
            | ok fields =>
                simp only [hkind, hload, hfill, Except.ok.injEq] at h
                exact ⟨kind, fields, rfl, h.symm, forall₂_loads_iff.2 ⟨values, hload, hfill⟩⟩
  · rintro ⟨kind, fields, hkind, rfl, hfields⟩
    obtain ⟨values, hload, hfill⟩ := forall₂_loads_iff.1 hfields
    simp only [hkind, hload, hfill]

/-- The members of an object, looked up by key before or after they are loaded. -/
theorem lookup_loadMembers (key : String) (members : List (String × Json)) :
    (loadMembers members).lookup key =
      (members.lookup key).map fun value => (value, loadContent value) := by
  induction members with
  | nil => simp [loadMembers]
  | cons member members ih =>
      obtain ⟨k, value⟩ := member
      rw [loadMembers, List.lookup_cons, List.lookup_cons]
      cases key == k with
      | true => rfl
      | false => exact ih

end Document

/-! ### The values that documents are loaded as -/

/-- Whether a value is a node. -/
def Value.isNode (value : Value) : Bool :=
  match value with
  | .node _ _ => true
  | _ => false

/-- Whether a field with words of a vocabulary holds such words, or nothing if it may. -/
def Field.Holds (field : Field) (v : Value) : Prop :=
  match field.role with
  | .operator => ∃ op, v = .operator op
  | .preference => v = .null ∨ ∃ p, v = .preference p
  | .avoidances => v = .null ∨ ∃ as : List Avoidance, v = .block (as.map .avoidance)
  | .content => True

namespace Value

/-- The values that documents are loaded as in the place of a node, a block or a plain value. -/
inductive Fits : Value → Prop
  | null : Fits .null
  | bool (b : Bool) : Fits (.bool b)
  | int (n : Int) : Fits (.int n)
  | float (x : Double) : Fits (.float x)
  | text (s : String) : Fits (.text s)
  | block {items : List Value} :
      (∀ v ∈ items, v.isNode = true) → (∀ v ∈ items, Fits v) → Fits (.block items)
  | node {kind : Kind} {fields : List Value} :
      List.Forall₂ Field.Holds kind.fields fields →
      (∀ field v, (field, v) ∈ kind.fields.zip fields → field.role = .content → Fits v) →
      Fits (.node kind fields)

end Value

namespace Document

/-- What is loaded from the items of a list of avoidances is avoidances. -/
theorem exists_map_of_loadAvoidanceItems {items : List Json} {vs : List Value}
    (h : loadAvoidanceItems items = .ok vs) : ∃ as : List Avoidance, vs = as.map .avoidance := by
  induction items generalizing vs with
  | nil =>
      simp only [loadAvoidanceItems, Except.ok.injEq] at h
      exact ⟨[], h.symm⟩
  | cons item items ih =>
      rw [loadAvoidanceItems] at h
      cases hitem : loadAvoidance item with
      | error f => simp [hitem] at h
      | ok a =>
          cases hitems : loadAvoidanceItems items with
          | error f => simp [hitem, hitems] at h
          | ok more =>
              simp only [hitem, hitems, Except.ok.injEq] at h
              obtain ⟨as, rfl⟩ := ih hitems
              unfold loadAvoidance at hitem
              split at hitem
              · split at hitem
                · simp only [Except.ok.injEq] at hitem
                  exact ⟨_ :: as, by rw [← h, ← hitem]; rfl⟩
                · simp at hitem
              · simp at hitem

/-- What is loaded in the place of words of a vocabulary is such words. -/
theorem holds_of_loadField {field : Field} {value : Json} {content : Except Fault Value} {v : Value}
    (h : loadField field.role value content = .ok v) : field.Holds v := by
  rw [Field.Holds]
  cases hrole : field.role with
  | operator =>
      simp only [hrole, loadField] at h
      unfold loadOperator at h
      split at h
      · split at h
        · simp only [Except.ok.injEq] at h
          exact ⟨_, h.symm⟩
        · simp at h
      · simp at h
  | preference =>
      simp only [hrole, loadField] at h
      unfold loadPreference at h
      split at h
      · split at h
        · simp only [Except.ok.injEq] at h
          exact .inr ⟨_, h.symm⟩
        · simp at h
      · simp at h
  | avoidances =>
      simp only [hrole, loadField] at h
      unfold loadAvoidances at h
      split at h
      · simp at h
      · split at h
        · simp at h
        · rename_i as has
          simp only [Except.ok.injEq] at h
          obtain ⟨avoid, rfl⟩ := exists_map_of_loadAvoidanceItems has
          exact .inr ⟨avoid, h.symm⟩
  | content => trivial

/-- A field that is filled in holds what it may hold: the fields with words are required, or may
hold nothing. -/
theorem holds_of_fillField {kind : Kind} {field : Field} {v : Value} (hfield : field ∈ kind.fields)
    (h : fillField field none = .ok v) : field.Holds v := by
  have htable : ∀ kind : Kind, ∀ field ∈ kind.fields,
      (field.role = .operator → field.missing = .refused) ∧
        (field.role = .preference ∨ field.role = .avoidances → field.missing = .null) := by
    intro kind
    cases kind <;> decide
  obtain ⟨hoperator, hwords⟩ := htable kind field hfield
  rw [Field.Holds]
  cases hrole : field.role with
  | operator => simp [fillField, hoperator hrole] at h
  | preference =>
      simp only [fillField, hwords (.inl hrole), Except.ok.injEq] at h
      exact .inl h.symm
  | avoidances =>
      simp only [fillField, hwords (.inr hrole), Except.ok.injEq] at h
      exact .inl h.symm
  | content => trivial

/-- What is filled in for a field fits. -/
theorem fits_of_fillField {field : Field} {v : Value} (h : fillField field none = .ok v) :
    v.Fits := by
  rw [fillField] at h
  cases hmissing : field.missing with
  | refused => simp [hmissing] at h
  | emptyBlock =>
      simp only [hmissing, Except.ok.injEq] at h
      rw [← h]
      exact .block (by simp) (by simp)
  | null =>
      simp only [hmissing, Except.ok.injEq] at h
      rw [← h]
      exact .null

/-- A node fits if what is loaded from its members does. -/
theorem loadNode_fits {tag : Option Json} {members : List Member} {n : Value}
    (hmembers : ∀ member ∈ members, ∀ v, member.2.2 = .ok v → v.Fits)
    (h : loadNode tag members = .ok n) : n.isNode = true ∧ n.Fits := by
  obtain ⟨kind, fields, -, rfl, hfields⟩ := loadNode_eq_ok_iff.1 h
  obtain ⟨hlength, hall⟩ := List.forall₂_iff_zip.1 hfields
  refine ⟨rfl, .node (List.forall₂_iff_zip.2 ⟨hlength, ?_⟩) ?_⟩
  · intro field v hmem
    have hloads := hall hmem
    rw [Loads] at hloads
    split at hloads
    · exact holds_of_fillField (List.of_mem_zip hmem).1 hloads
    · exact holds_of_loadField hloads
  · intro field v hmem hrole
    have hloads := hall hmem
    rw [Loads] at hloads
    split at hloads
    · exact fits_of_fillField hloads
    · rename_i value content hlookup
      rw [hrole, loadField] at hloads
      obtain ⟨before, after, rfl, -⟩ := List.lookup_eq_some_iff.1 hlookup
      exact hmembers (field.key, value, content) (by simp) v hloads

mutual

/-- **What is loaded fits.** -/
theorem loadContent_fits {d : Json} {v : Value} (h : loadContent d = .ok v) : v.Fits := by
  match d with
  | .null =>
      simp only [loadContent, Except.ok.injEq] at h
      exact h ▸ .null
  | .bool b =>
      simp only [loadContent, Except.ok.injEq] at h
      exact h ▸ .bool b
  | .int n =>
      simp only [loadContent, Except.ok.injEq] at h
      exact h ▸ .int n
  | .float x =>
      simp only [loadContent, Except.ok.injEq] at h
      exact h ▸ .float x
  | .text s =>
      simp only [loadContent, Except.ok.injEq] at h
      exact h ▸ .text s
  | .array items =>
      rw [loadContent] at h
      cases hitems : loadItems items with
      | error f => simp [hitems] at h
      | ok nodes =>
          simp only [hitems, Except.ok.injEq] at h
          have hall := loadItems_fits hitems
          exact h ▸ .block (fun v hv => (hall v hv).1) (fun v hv => (hall v hv).2)
  | .object members =>
      rw [loadContent] at h
      exact (loadNode_fits (loadMembers_fits members) h).2

/-- The items of a block that is loaded are nodes that fit. -/
theorem loadItems_fits {items : List Json} {vs : List Value} (h : loadItems items = .ok vs) :
    ∀ v ∈ vs, v.isNode = true ∧ v.Fits := by
  match items with
  | [] =>
      simp only [loadItems, Except.ok.injEq] at h
      simp [← h]
  | item :: items =>
      cases item with
      | object members =>
          rw [loadItems] at h
          cases hnode : loadNode (Json.member? "type" members) (loadMembers members) with
          | error f => simp [hnode] at h
          | ok node =>
              cases hitems : loadItems items with
              | error f => simp [hnode, hitems] at h
              | ok nodes =>
                  simp only [hnode, hitems, Except.ok.injEq] at h
                  rw [← h]
                  exact List.forall_mem_cons.2
                    ⟨loadNode_fits (loadMembers_fits members) hnode, loadItems_fits hitems⟩
      | _ => simp [loadItems] at h

/-- What is loaded from the members of an object fits. -/
theorem loadMembers_fits (members : List (String × Json)) :
    ∀ member ∈ loadMembers members, ∀ v, member.2.2 = .ok v → v.Fits := by
  match members with
  | [] => simp [loadMembers]
  | (key, value) :: members =>
      rw [loadMembers]
      refine List.forall_mem_cons.2 ⟨?_, loadMembers_fits members⟩
      intro v h
      exact loadContent_fits h

end

end Document

/-! ### Nothing in the place of a value -/

/-- The fields that may hold nothing, by kind. -/
def Kind.optional (kind : Kind) : List String :=
  match kind with
  | .branch => ["elseBody"]
  | .route => ["from", "to", "prefer", "avoid", "maxStops", "departAt", "arriveBefore"]
  | _ => []

namespace Value

/-- A part of a value: the value itself, or a part of what its fields or its items are. -/
inductive Inside : Value → Value → Prop
  | refl (v : Value) : Inside v v
  | item {part v : Value} {items : List Value} :
      v ∈ items → Inside part v → Inside part (.list items)
  | entry {part v : Value} {items : List Value} :
      v ∈ items → Inside part v → Inside part (.block items)
  | field {part v : Value} {kind : Kind} {fields : List Value} :
      v ∈ fields → Inside part v → Inside part (.node kind fields)

/-- No node inside a value holds nothing in a field other than the given ones of its kind. -/
def NullsOnlyIn (allowed : Kind → List String) (value : Value) : Prop :=
  ∀ kind fields, Inside (.node kind fields) value →
    ∀ field v, (field, v) ∈ kind.fields.zip fields → v = .null → field.key ∈ allowed kind

variable {allowed : Kind → List String}

/-- In a value without nodes nothing stands in any field. -/
theorem nullsOnlyIn_of_forall {value : Value}
    (h : ∀ kind fields, ¬ Inside (.node kind fields) value) : value.NullsOnlyIn allowed :=
  fun kind fields hinside => absurd hinside (h kind fields)

theorem nullsOnlyIn_block {items : List Value} :
    NullsOnlyIn allowed (.block items) ↔ ∀ v ∈ items, v.NullsOnlyIn allowed := by
  constructor
  · intro h v hv kind fields hinside
    exact h kind fields (.entry hv hinside)
  · intro h kind fields hinside
    cases hinside with
    | entry hv hinside => exact h _ hv kind fields hinside

theorem nullsOnlyIn_node {kind : Kind} {fields : List Value} :
    NullsOnlyIn allowed (.node kind fields) ↔
      (∀ field v, (field, v) ∈ kind.fields.zip fields → v = .null → field.key ∈ allowed kind) ∧
        ∀ v ∈ fields, v.NullsOnlyIn allowed := by
  constructor
  · intro h
    exact ⟨h kind fields (.refl _), fun v hv k fs hinside => h k fs (.field hv hinside)⟩
  · rintro ⟨hown, hfields⟩ k fs hinside
    cases hinside with
    | refl => exact hown
    | field hv hinside => exact hfields _ hv k fs hinside

end Value

/-- Words of a vocabulary have no parts that hold nothing. -/
theorem Field.Holds.nullsOnlyIn {allowed : Kind → List String} {field : Field} {v : Value}
    (h : field.Holds v) (hrole : field.role ≠ .content) : v.NullsOnlyIn allowed := by
  apply Value.nullsOnlyIn_of_forall
  intro kind fields hinside
  rw [Field.Holds] at h
  split at h
  · obtain ⟨op, rfl⟩ := h
    cases hinside
  · rcases h with rfl | ⟨p, rfl⟩
    · cases hinside
    · cases hinside
  · rcases h with rfl | ⟨as, rfl⟩
    · cases hinside
    · cases hinside with
      | entry hv hinside =>
          obtain ⟨a, -, rfl⟩ := List.mem_map.1 hv
          cases hinside
  · rename_i hcontent
    exact hrole hcontent

/-! ### The members that fields are saved as -/

namespace Kind

/-- The fields of a kind have keys of their own, which differ from that of the tag. -/
theorem keys_nodup (kind : Kind) : ("type" :: kind.fields.map Field.key).Nodup := by
  cases kind <;> decide

/-- A field may hold nothing exactly if nothing stands in its place when it is missing. -/
theorem mem_optional_iff (kind : Kind) :
    ∀ field ∈ kind.fields, field.key ∈ kind.optional ↔ field.missing = .null := by
  cases kind <;> decide

end Kind

namespace Value

theorem isNull_iff {v : Value} : v.isNull = true ↔ v = .null := by
  cases v <;> simp [isNull]

/-- No member has a key that is not among the fields. -/
theorem lookup_toMembers_eq_none {infos : List Field} {fields : List Value} {key : String}
    (h : key ∉ infos.map Field.key) : (toMembers infos fields).lookup key = none := by
  induction infos generalizing fields with
  | nil => simp [toMembers]
  | cons info infos ih =>
      cases fields with
      | nil => simp [toMembers]
      | cons v fields =>
          simp only [List.map_cons, List.mem_cons, not_or] at h
          rw [toMembers]
          split
          · exact ih h.2
          · rw [List.lookup_cons, beq_eq_false_iff_ne.2 h.1]
            exact ih h.2

/-- The member that a field is saved as. -/
theorem lookup_toMembers {infos : List Field} {fields : List Value}
    (hkeys : (infos.map Field.key).Nodup) {field : Field} {v : Value}
    (h : (field, v) ∈ infos.zip fields) :
    (toMembers infos fields).lookup field.key = if v.isNull then none else some v.toJson := by
  induction infos generalizing fields with
  | nil => simp at h
  | cons info infos ih =>
      cases fields with
      | nil => simp at h
      | cons w fields =>
          obtain ⟨hnot, hnodup⟩ := List.nodup_cons.1 hkeys
          rw [toMembers]
          rcases List.mem_cons.1 h with heq | h
          · obtain ⟨rfl, rfl⟩ := Prod.mk.inj heq
            split
            · exact lookup_toMembers_eq_none hnot
            · rw [List.lookup_cons, beq_self_eq_true]
          · have hne : field.key ≠ info.key := by
              intro heq
              exact hnot (heq ▸ List.mem_map_of_mem (List.of_mem_zip h).1)
            split
            · exact ih hnodup h
            · rw [List.lookup_cons, beq_eq_false_iff_ne.2 hne]
              exact ih hnodup h

end Value

namespace Document

/-- What a field of a saved node is loaded as. -/
theorem loads_toMembers_iff {kind : Kind} {fields : List Value} {field : Field} {v w : Value}
    (h : (field, v) ∈ kind.fields.zip fields) :
    Loads (loadMembers (("type", .text kind.tag) :: Value.toMembers kind.fields fields)) field w ↔
      (v = .null ∧ fillField field none = .ok w) ∨
      (v ≠ .null ∧ loadField field.role v.toJson (loadContent v.toJson) = .ok w) := by
  obtain ⟨htype, hnodup⟩ := List.nodup_cons.1 kind.keys_nodup
  have hne : field.key ≠ "type" := by
    intro heq
    exact htype (heq ▸ List.mem_map_of_mem (List.of_mem_zip h).1)
  rw [Loads, lookup_loadMembers, List.lookup_cons, beq_eq_false_iff_ne.2 hne]
  simp only [Value.lookup_toMembers hnodup h]
  by_cases hnull : v = .null
  · subst hnull
    simp [Value.isNull]
  · have hnot : v.isNull = false := by
      rw [← Bool.not_eq_true, Value.isNull_iff]
      exact hnull
    simp [hnot, hnull]

/-- A saved node is loaded field by field. -/
theorem loadContent_toJson_node_iff {kind : Kind} {fields : List Value} {n : Value} :
    loadContent (Value.toJson (.node kind fields)) = .ok n ↔
      ∃ ws, n = .node kind ws ∧
        List.Forall₂ (Loads (loadMembers
          (("type", .text kind.tag) :: Value.toMembers kind.fields fields))) kind.fields ws := by
  have hkind : kindOf (Json.member? "type"
      (("type", .text kind.tag) :: Value.toMembers kind.fields fields)) = .ok kind := by
    simp [Json.member?, kindOf]
  rw [Value.toJson, loadContent, loadNode_eq_ok_iff]
  constructor
  · rintro ⟨k, ws, hk, rfl, hall⟩
    obtain rfl : kind = k := by simpa [hkind] using hk
    exact ⟨ws, rfl, hall⟩
  · rintro ⟨ws, rfl, hall⟩
    exact ⟨kind, ws, hkind, rfl, hall⟩

/-- Avoidances are loaded from the words they are saved as. -/
theorem loadAvoidanceItems_toJsons (as : List Avoidance) :
    loadAvoidanceItems (Value.toJsons (as.map .avoidance)) = .ok (as.map .avoidance) := by
  induction as with
  | nil => simp [Value.toJsons, loadAvoidanceItems]
  | cons a as ih => simp [Value.toJsons, Value.toJson, loadAvoidanceItems, loadAvoidance, ih]

/-- Words of a vocabulary are loaded from the document they are saved as. -/
theorem loadField_toJson {field : Field} {v : Value} (h : field.Holds v) (hnull : v ≠ .null)
    (hrole : field.role ≠ .content) (content : Except Fault Value) :
    loadField field.role v.toJson content = .ok v := by
  rw [Field.Holds] at h
  split at h
  · rename_i hoperator
    obtain ⟨op, rfl⟩ := h
    simp [hoperator, loadField, Value.toJson, loadOperator]
  · rename_i hpreference
    rcases h with rfl | ⟨p, rfl⟩
    · exact absurd rfl hnull
    · simp [hpreference, loadField, Value.toJson, loadPreference]
  · rename_i havoidances
    rcases h with rfl | ⟨as, rfl⟩
    · exact absurd rfl hnull
    · simp [havoidances, loadField, Value.toJson, loadAvoidances, itemsOf?,
        loadAvoidanceItems_toJsons]
  · rename_i hcontent
    exact absurd hcontent hrole

end Document

/-! ### What is saved is loaded again -/

namespace Value

open Document

/-- Saved nodes are loaded one by one. -/
theorem loadItems_toJsons_iff {items ws : List Value} (h : ∀ v ∈ items, v.isNode = true) :
    loadItems (toJsons items) = .ok ws ↔
      List.Forall₂ (fun v w => loadContent v.toJson = .ok w) items ws := by
  induction items generalizing ws with
  | nil => simp [toJsons, loadItems, eq_comm]
  | cons v items ih =>
      obtain ⟨hnode, hnodes⟩ := List.forall_mem_cons.1 h
      cases v with
      | node kind fields =>
          rw [List.forall₂_cons_left_iff, toJsons, toJson, loadContent, loadItems]
          constructor
          · intro hload
            cases hone : loadNode (Json.member? "type"
                (("type", .text kind.tag) :: toMembers kind.fields fields))
                (loadMembers (("type", .text kind.tag) :: toMembers kind.fields fields)) with
            | error f => simp [hone] at hload
            | ok w =>
                cases hmore : loadItems (toJsons items) with
                | error f => simp [hone, hmore] at hload
                | ok more =>
                    simp only [hone, hmore, Except.ok.injEq] at hload
                    exact ⟨w, more, rfl, (ih hnodes).1 hmore, hload.symm⟩
          · rintro ⟨w, more, hone, hmore, rfl⟩
            simp only [hone, (ih hnodes).2 hmore]
      | _ => simp [isNode] at hnode

/-- **What fits is loaded again**, if nothing stands only in optional fields. -/
theorem Fits.loadContent_toJson {v : Value} (h : v.Fits) (hnull : v.NullsOnlyIn Kind.optional) :
    loadContent v.toJson = .ok v := by
  induction h with
  | null => simp [toJson, loadContent]
  | bool b => simp [toJson, loadContent]
  | int n => simp [toJson, loadContent]
  | float x => simp [toJson, loadContent]
  | text s => simp [toJson, loadContent]
  | @block items hnodes _ ih =>
      rw [nullsOnlyIn_block] at hnull
      have hitems : loadItems (toJsons items) = .ok items :=
        (loadItems_toJsons_iff hnodes).2 (List.forall₂_same.2 fun v hv => ih v hv (hnull v hv))
      rw [toJson, loadContent, hitems]
  | @node kind fields hholds _ ih =>
      obtain ⟨hown, hfields⟩ := nullsOnlyIn_node.1 hnull
      obtain ⟨hlength, hholds⟩ := List.forall₂_iff_zip.1 hholds
      refine loadContent_toJson_node_iff.2 ⟨fields, rfl, List.forall₂_iff_zip.2 ⟨hlength, ?_⟩⟩
      intro field v hmem
      obtain ⟨hfield, hv⟩ := List.of_mem_zip hmem
      rw [loads_toMembers_iff hmem]
      by_cases hnull : v = .null
      · -- an optional field is left out, and nothing is filled in for it
        have hmissing := (kind.mem_optional_iff field hfield).1 (hown field v hmem hnull)
        exact .inl ⟨hnull, by rw [fillField, hmissing, hnull]⟩
      · refine .inr ⟨hnull, ?_⟩
        by_cases hrole : field.role = .content
        · rw [hrole, loadField]
          exact ih field v hmem hrole (hfields v hv)
        · exact loadField_toJson (hholds hmem) hnull hrole _

theorem sameAll_iff {vs ws : List Value} :
    sameAll vs ws = true ↔ List.Forall₂ (fun v w => same v w = true) vs ws := by
  induction vs generalizing ws with
  | nil => cases ws <;> simp [sameAll]
  | cons v vs ih => cases ws <;> simp [sameAll, ih]

/-- What stands between the two sides of a pair in two relations one after the other. -/
theorem exists_of_mem_zip {α β γ : Type} {R : α → β → Prop} {S : β → γ → Prop} {as : List α}
    {bs : List β} {cs : List γ} (hR : List.Forall₂ R as bs) (hS : List.Forall₂ S bs cs) {a : α}
    {c : γ} (h : (a, c) ∈ as.zip cs) : ∃ b, R a b ∧ S b c := by
  induction hR generalizing cs with
  | nil => simp at h
  | cons hab _ ih =>
      cases hS with
      | cons hbc hS =>
          rcases List.mem_cons.1 h with heq | h
          · obtain ⟨rfl, rfl⟩ := Prod.mk.inj heq
            exact ⟨_, hab, hbc⟩
          · exact ih hS h

/-- **Only then**: where nothing stands in another field, the node is refused or comes back with an
empty block in that field. -/
theorem Fits.nullsOnlyIn {v w : Value} (h : v.Fits) (hload : loadContent v.toJson = .ok w)
    (hsame : w.same v = true) : v.NullsOnlyIn Kind.optional := by
  induction h generalizing w with
  | @block items hnodes _ ih =>
      rw [toJson, loadContent] at hload
      rw [nullsOnlyIn_block]
      intro v hv
      cases hitems : loadItems (toJsons items) with
      | error f => simp [hitems] at hload
      | ok ws =>
          simp only [hitems, Except.ok.injEq] at hload
          rw [← hload, same, sameAll_iff] at hsame
          have hpair : (v, v) ∈ items.zip items := by simpa [List.zip, List.zipWith_self] using hv
          obtain ⟨w, hload, hsame⟩ :=
            exists_of_mem_zip ((loadItems_toJsons_iff hnodes).1 hitems) hsame hpair
          exact ih v hv hload hsame
  | @node kind fields hholds _ ih =>
      obtain ⟨ws, rfl, hloads⟩ := loadContent_toJson_node_iff.1 hload
      simp only [same, beq_self_eq_true, Bool.true_and, sameAll_iff] at hsame
      obtain ⟨hlength, hholds⟩ := List.forall₂_iff_zip.1 hholds
      -- each field on its own, with what it is loaded as
      have hfield : ∀ field v, (field, v) ∈ kind.fields.zip fields →
          (v = .null → field.key ∈ kind.optional) ∧ v.NullsOnlyIn Kind.optional := by
        intro field v hmem
        obtain ⟨w, hw, hsame⟩ := exists_of_mem_zip hloads hsame hmem
        rcases (loads_toMembers_iff hmem).1 hw with ⟨rfl, hfill⟩ | ⟨hnull, hload⟩
        · refine ⟨fun _ => ?_, nullsOnlyIn_of_forall (by rintro kind fields ⟨⟩)⟩
          rw [kind.mem_optional_iff field (List.of_mem_zip hmem).1]
          rw [fillField] at hfill
          cases hmissing : field.missing with
          | refused => simp [hmissing] at hfill
          | emptyBlock =>
              simp only [hmissing, Except.ok.injEq] at hfill
              simp [← hfill, same, whole?] at hsame
          | null => rfl
        · refine ⟨fun heq => absurd heq hnull, ?_⟩
          by_cases hrole : field.role = .content
          · rw [hrole, loadField] at hload
            exact ih field v hmem hrole hload hsame
          · exact (hholds hmem).nullsOnlyIn hrole
      refine nullsOnlyIn_node.2 ⟨fun field v hmem => (hfield field v hmem).1, ?_⟩
      intro v hv
      rw [← List.map_snd_zip (Nat.le_of_eq hlength.symm)] at hv
      obtain ⟨⟨field, v⟩, hmem, rfl⟩ := List.mem_map.1 hv
      exact (hfield field v hmem).2
  | _ => exact nullsOnlyIn_of_forall (by rintro kind fields ⟨⟩)

mutual

/-- Every value is equal to itself. -/
theorem same_self (v : Value) : v.same v = true := by
  match v with
  | .null => simp [same]
  | .bool true => simp [same, whole?]
  | .bool false => simp [same, whole?]
  | .int n => simp [same, whole?]
  | .float .nan => simp [same, sameDouble, Double.isNaN]
  | .float (.signed negative m) => simp [same, sameDouble, Double.same, Double.place?]
  | .text s => simp [same]
  | .list items =>
      rw [same]
      exact sameAll_self items
  | .block items =>
      rw [same]
      exact sameAll_self items
  | .operator op => simp [same]
  | .preference p => simp [same]
  | .avoidance a => simp [same]
  | .node kind fields =>
      rw [same, beq_self_eq_true, Bool.true_and]
      exact sameAll_self fields

theorem sameAll_self (vs : List Value) : sameAll vs vs = true := by
  match vs with
  | [] => rw [sameAll]
  | v :: vs =>
      rw [sameAll, same_self v, sameAll_self vs]
      rfl

end

end Value

/-! ### The nodes of a program -/

namespace Value

/-- A value that is loaded again from the document it is saved as. -/
def IsKept (v : Value) : Prop := v.Fits ∧ v.NullsOnlyIn Kind.optional

/-- What fits and has no nodes among its parts is kept. -/
theorem Fits.isKept {v : Value} (h : v.Fits)
    (hparts : ∀ kind fields, ¬ Inside (.node kind fields) v) : v.IsKept :=
  ⟨h, nullsOnlyIn_of_forall hparts⟩

theorem isKept_text (s : String) : IsKept (.text s) := (Fits.text s).isKept nofun

theorem isKept_block {items : List Value} (h : ∀ v ∈ items, v.isNode = true ∧ v.IsKept) :
    IsKept (.block items) :=
  ⟨.block (fun v hv => (h v hv).1) (fun v hv => (h v hv).2.1),
    nullsOnlyIn_block.2 fun v hv => (h v hv).2.2⟩

end Value

/-- A field of a kind holds what is kept: words of a vocabulary where they belong, and otherwise a
value that is kept; nothing only if the field is optional. -/
inductive Field.Keeps (kind : Kind) (field : Field) (v : Value) : Prop
  | words : field.role ≠ .content → field.Holds v → (v = .null → field.key ∈ kind.optional) →
      Keeps kind field v
  | content : field.role = .content → v.IsKept → (v = .null → field.key ∈ kind.optional) →
      Keeps kind field v

/-- A node is kept if its fields are. -/
theorem Value.isKept_node {kind : Kind} {fields : List Value}
    (h : List.Forall₂ (Field.Keeps kind) kind.fields fields) : IsKept (.node kind fields) := by
  obtain ⟨hlength, hall⟩ := List.forall₂_iff_zip.1 h
  refine ⟨.node (h.imp ?_) ?_, nullsOnlyIn_node.2 ⟨?_, ?_⟩⟩
  · rintro field v (⟨-, hholds, -⟩ | ⟨hrole, -, -⟩)
    · exact hholds
    · rw [Field.Holds, hrole]
      trivial
  · intro field v hmem hrole
    rcases hall hmem with ⟨hwords, -, -⟩ | ⟨-, hkept, -⟩
    · exact absurd hrole hwords
    · exact hkept.1
  · intro field v hmem
    rcases hall hmem with ⟨-, -, hnull⟩ | ⟨-, -, hnull⟩
    · exact hnull
    · exact hnull
  · intro v hv
    rw [← List.map_snd_zip (Nat.le_of_eq hlength.symm)] at hv
    obtain ⟨⟨field, v⟩, hmem, rfl⟩ := List.mem_map.1 hv
    rcases hall hmem with ⟨hwords, hholds, -⟩ | ⟨-, hkept, -⟩
    · exact hholds.nullsOnlyIn hwords
    · exact hkept.2

/-- A node with one field is kept if what it holds is. -/
theorem Value.isKept_single {kind : Kind} {field : Field} {v : Value}
    (hfields : kind.fields = [field]) (hrole : field.role = .content) (hv : v.IsKept)
    (hnull : v ≠ .null) : IsKept (.node kind [v]) := by
  apply isKept_node
  rw [hfields]
  exact .cons (.content hrole hv fun h => absurd h hnull) .nil

/-- The node of an expression is kept. -/
theorem Expr.toValue_isKept (e : Expr) : e.toValue.isNode = true ∧ e.toValue.IsKept := by
  induction e with
  | text s => exact ⟨rfl, Value.isKept_single rfl rfl (Value.isKept_text s) nofun⟩
  | number x => exact ⟨rfl, Value.isKept_single rfl rfl ((Value.Fits.float x).isKept nofun) nofun⟩
  | boolean b => exact ⟨rfl, Value.isKept_single rfl rfl ((Value.Fits.bool b).isKept nofun) nofun⟩
  | time s => exact ⟨rfl, Value.isKept_single rfl rfl (Value.isKept_text s) nofun⟩
  | identifier name => exact ⟨rfl, Value.isKept_single rfl rfl (Value.isKept_text name) nofun⟩
  | compare op left right ihleft ihright =>
      refine ⟨rfl, Value.isKept_node
        (.cons (.words nofun ⟨op, rfl⟩ nofun) (.cons ?_ (.cons ?_ .nil)))⟩
      · refine .content rfl ihleft.2 ?_
        intro hnull
        simp [hnull, Value.isNode] at ihleft
      · refine .content rfl ihright.2 ?_
        intro hnull
        simp [hnull, Value.isNode] at ihright

/-- What may be there is kept, if it is kept whenever it is there. -/
theorem Value.isKept_ofOption {α : Type} {f : α → Value} (h : ∀ a, (f a).IsKept) (x : Option α) :
    (Value.ofOption f x).IsKept := by
  cases x with
  | none => exact Fits.null.isKept nofun
  | some a => exact h a

/-- The node of a route plan is kept, whatever parts the plan has. -/
theorem Route.toValue_isKept (plan : Route) : plan.toValue.IsKept := by
  have hprefer : ∀ x : Option Preference, Value.ofOption .preference x = .null ∨
      ∃ p, Value.ofOption .preference x = .preference p := by
    intro x
    cases x with
    | none => exact .inl rfl
    | some p => exact .inr ⟨p, rfl⟩
  have havoid : ∀ x : Option (List Avoidance),
      Value.ofOption (fun avoid => .block (avoid.map .avoidance)) x = .null ∨
      ∃ as : List Avoidance, Value.ofOption (fun avoid => .block (avoid.map .avoidance)) x =
        .block (as.map .avoidance) := by
    intro x
    cases x with
    | none => exact .inl rfl
    | some as => exact .inr ⟨as, rfl⟩
  have htext : ∀ x : Option String, (Value.ofOption .text x).IsKept :=
    Value.isKept_ofOption Value.isKept_text
  have hstops : ∀ x : Option Int, (Value.ofOption .int x).IsKept :=
    Value.isKept_ofOption fun n => (Value.Fits.int n).isKept nofun
  exact Value.isKept_node
    (.cons (.content rfl (Value.isKept_text _) nofun)
    (.cons (.content rfl (htext _) fun _ => by decide)
    (.cons (.content rfl (htext _) fun _ => by decide)
    (.cons (.words nofun (hprefer plan.prefer) fun _ => by decide)
    (.cons (.words nofun (havoid plan.avoid) fun _ => by decide)
    (.cons (.content rfl (hstops _) fun _ => by decide)
    (.cons (.content rfl (htext _) fun _ => by decide)
    (.cons (.content rfl (htext _) fun _ => by decide) .nil))))))))

namespace Stmt

/-- A statement is a node. -/
theorem isNode_toValue (s : Stmt) : s.toValue.isNode = true := by
  match s with
  | .when _ _ => simp [toValue, Value.isNode]
  | .branch _ _ none => simp [toValue, Value.isNode]
  | .branch _ _ (some _) => simp [toValue, Value.isNode]
  | .display _ => simp [toValue, Value.isNode]
  | .assign _ _ => simp [toValue, Value.isNode]
  | .route _ => simp [toValue, Route.toValue, Value.isNode]

mutual

/-- The node of a statement is kept. -/
theorem toValue_isKept (s : Stmt) : s.toValue.IsKept := by
  have hexpr : ∀ e : Expr, e.toValue ≠ .null := by
    intro e hnull
    have := e.toValue_isKept.1
    simp [hnull, Value.isNode] at this
  match s with
  | .when event body =>
      rw [toValue]
      exact Value.isKept_node
        (.cons (.content rfl (Value.isKept_text event) nofun)
        (.cons (.content rfl (Value.isKept_block (toValues_isKept body)) nofun) .nil))
  | .branch test thenBody none =>
      rw [toValue]
      exact Value.isKept_node
        (.cons (.content rfl test.toValue_isKept.2 fun h => absurd h (hexpr test))
        (.cons (.content rfl (Value.isKept_block (toValues_isKept thenBody)) nofun)
        (.cons (.content rfl (Value.Fits.null.isKept nofun) fun _ => by decide) .nil)))
  | .branch test thenBody (some elseBody) =>
      rw [toValue]
      exact Value.isKept_node
        (.cons (.content rfl test.toValue_isKept.2 fun h => absurd h (hexpr test))
        (.cons (.content rfl (Value.isKept_block (toValues_isKept thenBody)) nofun)
        (.cons (.content rfl (Value.isKept_block (toValues_isKept elseBody)) nofun) .nil)))
  | .display value =>
      rw [toValue]
      exact Value.isKept_single rfl rfl value.toValue_isKept.2 (hexpr value)
  | .assign name value =>
      rw [toValue]
      exact Value.isKept_node
        (.cons (.content rfl (Value.isKept_text name) nofun)
        (.cons (.content rfl value.toValue_isKept.2 fun h => absurd h (hexpr value)) .nil))
  | .route plan =>
      rw [toValue]
      exact plan.toValue_isKept

/-- The nodes of several statements are kept. -/
theorem toValues_isKept (body : List Stmt) :
    ∀ v ∈ toValues body, v.isNode = true ∧ v.IsKept := by
  match body with
  | [] => simp [toValues]
  | s :: body =>
      rw [toValues]
      exact List.forall_mem_cons.2 ⟨⟨s.isNode_toValue, toValue_isKept s⟩, toValues_isKept body⟩

end

end Stmt

/-- The node of a program is kept. -/
theorem Program.toValue_isKept (p : Program) : p.toValue.IsKept :=
  Value.isKept_single rfl rfl (Value.isKept_block (Stmt.toValues_isKept p.body)) nofun

namespace Document

/-- A node is loaded from its document as it is in the place of any value. -/
theorem load_toJson_of_isNode {n : Value} (h : n.isNode = true) :
    load n.toJson = loadContent n.toJson := by
  cases n with
  | node kind fields => rw [Value.toJson, load, loadContent]
  | _ => simp [Value.isNode] at h

/-- What is loaded is a node that fits. -/
theorem load_fits {d : Json} {n : Value} (h : load d = .ok n) : n.isNode = true ∧ n.Fits := by
  cases d with
  | object members => exact loadNode_fits (loadMembers_fits members) h
  | _ => simp [load] at h

/-- A program is loaded from the document it is saved as. -/
theorem load_toJson_toValue (p : Program) : load p.toValue.toJson = .ok p.toValue := by
  rw [load_toJson_of_isNode rfl]
  exact p.toValue_isKept.1.loadContent_toJson p.toValue_isKept.2

/-- **What was loaded from a document is loaded again from the document it is saved as, exactly if
no node inside it holds nothing in a field that is not optional**; otherwise it is refused, or
loaded as another node.  In particular every program that is read from a source is loaded again. -/
theorem load_toJson_iff :
    (∀ (d : Json) (n : Value), load d = .ok n →
      (load n.toJson = .ok n ↔ n.NullsOnlyIn Kind.optional) ∧
      ((∃ m, load n.toJson = .ok m ∧ m.same n = true) ↔ n.NullsOnlyIn Kind.optional)) ∧
    ∀ (source : String) (p : Program), Program.parse source = .ok p →
      load p.toValue.toJson = .ok p.toValue := by
  refine ⟨?_, fun _ p _ => load_toJson_toValue p⟩
  intro d n hload
  obtain ⟨hnode, hfits⟩ := load_fits hload
  rw [load_toJson_of_isNode hnode]
  have hif : n.NullsOnlyIn Kind.optional → loadContent n.toJson = .ok n := hfits.loadContent_toJson
  refine ⟨⟨fun h => hfits.nullsOnlyIn h n.same_self, hif⟩, ?_, fun h => ⟨n, hif h, n.same_self⟩⟩
  rintro ⟨m, hload, hsame⟩
  exact hfits.nullsOnlyIn hload hsame

/-- A conditional without an alternative around a route plan without options is loaded again; the
member that no field reads was lost before. -/
theorem load_toJson_bare :
    ∃ n, load (.object [("type", .text "If"),
        ("test", .object [("type", .text "BooleanLiteral"), ("value", .bool true)]),
        ("thenBody", .array [.object [("name", .text "r"), ("type", .text "Route"),
          ("note", .null)]])]) = .ok n ∧
      n.NullsOnlyIn Kind.optional ∧ load n.toJson = .ok n := by
  have hload : load (.object [("type", .text "If"),
        ("test", .object [("type", .text "BooleanLiteral"), ("value", .bool true)]),
        ("thenBody", .array [.object [("name", .text "r"), ("type", .text "Route"),
          ("note", .null)]])]) =
      .ok (Stmt.branch (.boolean true) [.route { name := "r" }] none).toValue := by
    rfl
  have hnull := (Stmt.toValue_isKept (.branch (.boolean true) [.route { name := "r" }] none)).2
  exact ⟨_, hload, hnull, (load_toJson_iff.1 _ _ hload).1.2 hnull⟩

/-- The optional fields without those that hold words of a vocabulary. -/
def plainOptional (kind : Kind) : List String :=
  match kind with
  | .branch => ["elseBody"]
  | .route => ["from", "to", "maxStops", "departAt", "arriveBefore"]
  | _ => []

/-- The fields for a preference and for avoidances belong to the optional ones: a route plan that
names neither is loaded again. -/
theorem load_toJson_named :
    ∃ n, load (.object [("type", .text "Program"),
        ("body", .array [.object [("type", .text "Route"), ("name", .text "r")]])]) = .ok n ∧
      ¬ (load n.toJson = .ok n ↔ n.NullsOnlyIn plainOptional) := by
  have hload : load (.object [("type", .text "Program"),
        ("body", .array [.object [("type", .text "Route"), ("name", .text "r")]])]) =
      .ok (Program.toValue ⟨[.route { name := "r" }]⟩) := by
    rfl
  refine ⟨_, hload, ?_⟩
  intro h
  have hplan : Value.Inside (Route.toValue { name := "r" })
      (Program.toValue ⟨[.route { name := "r" }]⟩) :=
    .field List.mem_cons_self (.entry List.mem_cons_self (.refl _))
  have hprefer := h.1 (load_toJson_toValue _) _ _ hplan
    ⟨"prefer", "prefer", .null, .preference⟩ .null (by simp [Kind.fields, Value.ofOption]) rfl
  exact absurd hprefer (by decide)

end Document

end Waymark
