/-
**Which documents are programs.**

A document is read as a node with few checks: its tag must be known, its required fields must be
there, and three fields take words of closed vocabularies.  What any other field holds is not
checked beyond this, that an object must be a node again and an array a block of nodes.  The checks
are spread over the reader, each with a fault of its own.  This module gathers them into a
description of the accepted documents that does not mention the reader, and shows that the reader
accepts these documents and no others.

Main definitions:

* `Document.Format` — a tag with the keys that belong to it, and the twelve that there are;
* `Document.IsNode` — the documents that nodes are read from;
* `Document.IsField`, `Document.IsContent` — what may stand under a key, and in most fields;
* `Document.Agree` — objects that differ in members only which no field reads.

Main results:

* `Document.exists_loadField_iff` — what a field accepts;
* `Document.exists_loadNode_iff` — what a node accepts, if its members are read as they should be;
* `Document.load_eq_of_agree` — a member that no field reads makes no difference;
* `Document.load_accepts` — **the reader accepts exactly the documents of the format**.
-/
import Waymark.Proofs.Saved

set_option relaxedAutoImplicit false
set_option autoImplicit false

namespace Waymark

namespace Document

/-! ### The format -/

/-- The format of one kind of nodes: a tag, the keys that must be there, and those that may be. -/
structure Format where
  tag : String
  required : List String
  optional : List String
deriving DecidableEq

namespace Format

/-- The formats of nodes. -/
def all : List Format :=
  [⟨"Program", [], ["body"]⟩,
    ⟨"When", ["eventName"], ["body"]⟩,
    ⟨"If", ["test"], ["thenBody", "elseBody"]⟩,
    ⟨"Show", ["value"], []⟩,
    ⟨"Set", ["name", "value"], []⟩,
    ⟨"Route", ["name"], ["from", "to", "prefer", "avoid", "maxStops", "departAt", "arriveBefore"]⟩,
    ⟨"StringLiteral", ["value"], []⟩,
    ⟨"NumberLiteral", ["value"], []⟩,
    ⟨"BooleanLiteral", ["value"], []⟩,
    ⟨"TimeLiteral", ["value"], []⟩,
    ⟨"Identifier", ["name"], []⟩,
    ⟨"Binary", ["op", "left", "right"], []⟩]

/-- The keys that a format reads, besides the one of the tag. -/
def keys (format : Format) : List String := format.required ++ format.optional

end Format

/-- A document that is a word of a vocabulary. -/
def IsWord (vocabulary : Vocabulary) (d : Json) : Prop := ∃ word ∈ vocabulary.words, d = .text word

/-- The documents that avoidances are read from: an array of words, an object whose keys are words,
or the empty text. -/
inductive IsAvoidances : Json → Prop
  | array {items : List Json} : (∀ item ∈ items, IsWord .avoidances item) →
      IsAvoidances (.array items)
  | object {members : List (String × Json)} :
      (∀ member ∈ members, member.1 ∈ Vocabulary.avoidances.words) → IsAvoidances (.object members)
  | empty : IsAvoidances (.text "")

mutual

/-- The documents that nodes are read from: objects with the tag of a format that have its required
keys, and under each of its keys that they have, what may stand there. -/
inductive IsNode : Json → Prop
  | object {members : List (String × Json)} {format : Format} :
      format ∈ Format.all →
      Json.member? "type" members = some (.text format.tag) →
      (∀ key ∈ format.required, ∃ value, Json.member? key members = some value) →
      (∀ key ∈ format.keys, ∀ value, Json.member? key members = some value → IsField key value) →
      IsNode (.object members)

/-- What may stand under a key. -/
inductive IsField : String → Json → Prop
  | operator {value : Json} : IsWord .operators value → IsField "op" value
  | preference {value : Json} : IsWord .preferences value → IsField "prefer" value
  | avoidances {value : Json} : IsAvoidances value → IsField "avoid" value
  | content {key : String} {value : Json} :
      key ∉ ["op", "prefer", "avoid"] → IsContent value → IsField key value

/-- What may stand under a key that takes no words: a plain value, a node, or an array of nodes. -/
inductive IsContent : Json → Prop
  | null : IsContent .null
  | bool (b : Bool) : IsContent (.bool b)
  | int (n : Int) : IsContent (.int n)
  | float (x : Double) : IsContent (.float x)
  | text (s : String) : IsContent (.text s)
  | object {members : List (String × Json)} : IsNode (.object members) → IsContent (.object members)
  | array {items : List Json} : (∀ item ∈ items, IsNode item) → IsContent (.array items)

end

/-! ### Words -/

/-- A reader that looks a word up in a list accepts the words of the list. -/
theorem exists_ok_iff_isWord {α : Type} (all : List α) (word : α → String)
    {vocabulary : Vocabulary} (hwords : vocabulary.words = all.map word)
    {read : Json → Except Fault Value}
    (htext : ∀ w, (∃ v, read (.text w) = .ok v) ↔ (all.find? fun a => word a == w).isSome = true)
    (hother : ∀ d, (∀ w, d ≠ .text w) → ¬ ∃ v, read d = .ok v) (d : Json) :
    (∃ v, read d = .ok v) ↔ IsWord vocabulary d := by
  by_cases hd : ∃ w, d = .text w
  · obtain ⟨w, rfl⟩ := hd
    simp [htext, IsWord, hwords]
  · refine iff_of_false (hother d fun w hw => hd ⟨w, hw⟩) ?_
    rintro ⟨w, -, hw⟩
    exact hd ⟨w, hw⟩

theorem exists_loadOperator_iff (d : Json) :
    (∃ v, loadOperator d = .ok v) ↔ IsWord .operators d := by
  refine exists_ok_iff_isWord Operator.all Operator.word rfl (fun w => ?_) (fun d hd => ?_) d
  · rw [loadOperator, Operator.ofWord?]
    cases Operator.all.find? fun op => op.word == w <;> simp
  · simp [loadOperator]

theorem exists_loadPreference_iff (d : Json) :
    (∃ v, loadPreference d = .ok v) ↔ IsWord .preferences d := by
  refine exists_ok_iff_isWord Preference.all Preference.word rfl (fun w => ?_) (fun d hd => ?_) d
  · rw [loadPreference, Preference.ofWord?]
    cases Preference.all.find? fun p => p.word == w <;> simp
  · simp [loadPreference]

theorem exists_loadAvoidance_iff (d : Json) :
    (∃ v, loadAvoidance d = .ok v) ↔ IsWord .avoidances d := by
  refine exists_ok_iff_isWord Avoidance.all Avoidance.word rfl (fun w => ?_) (fun d hd => ?_) d
  · rw [loadAvoidance, Avoidance.ofWord?]
    cases Avoidance.all.find? fun a => a.word == w <;> simp
  · simp [loadAvoidance]

/-- The items of avoidances are read one by one. -/
theorem exists_loadAvoidanceItems_iff (items : List Json) :
    (∃ vs, loadAvoidanceItems items = .ok vs) ↔ ∀ item ∈ items, IsWord .avoidances item := by
  induction items with
  | nil => simp [loadAvoidanceItems]
  | cons item items ih =>
      rw [List.forall_mem_cons, ← exists_loadAvoidance_iff, ← ih, loadAvoidanceItems]
      cases loadAvoidance item with
      | error f => simp
      | ok a =>
          cases loadAvoidanceItems items with
          | error f => simp
          | ok as => simp

/-- No avoidance is named by a single character. -/
theorem not_isWord_singleton (c : Char) : ¬ IsWord .avoidances (.text (String.singleton c)) := by
  rintro ⟨word, hword, htext⟩
  have hlength : ∀ w ∈ Vocabulary.avoidances.words, w.length ≠ 1 := by decide
  refine hlength word hword ?_
  rw [← Json.text.inj htext]
  simp

/-- What avoidances are read from. -/
theorem exists_loadAvoidances_iff (d : Json) :
    (∃ v, loadAvoidances d = .ok v) ↔ IsAvoidances d := by
  have hitems : ∀ items, itemsOf? d = some items →
      ((∃ v, loadAvoidances d = .ok v) ↔ ∀ item ∈ items, IsWord .avoidances item) := by
    intro items h
    rw [← exists_loadAvoidanceItems_iff, loadAvoidances, h]
    cases hload : loadAvoidanceItems items with
    | error f => simp [hload]
    | ok as => simp [hload]
  have hnone : itemsOf? d = none → ¬ ∃ v, loadAvoidances d = .ok v := by
    intro h
    simp [loadAvoidances, h]
  cases d with
  | array items =>
      rw [hitems items rfl]
      exact ⟨.array, fun h => by cases h; assumption⟩
  | object members =>
      rw [hitems _ rfl]
      constructor
      · intro h
        refine .object fun member hmember => ?_
        obtain ⟨word, hword, htext⟩ := h (.text member.1) (List.mem_map.2 ⟨member, hmember, rfl⟩)
        rwa [Json.text.inj htext]
      · rintro (_ | hmembers)
        intro item hitem
        obtain ⟨member, hmember, rfl⟩ := List.mem_map.1 hitem
        exact ⟨member.1, hmembers member hmember, rfl⟩
  | text s =>
      -- the items of a text are its characters, and none of them is a word
      rw [hitems _ rfl]
      constructor
      · intro h
        cases hs : s.toList with
        | nil =>
            rw [String.toList_eq_nil_iff.1 hs]
            exact .empty
        | cons c cs => exact absurd (h _ (by rw [hs]; exact .head _)) (not_isWord_singleton c)
      · rintro ⟨⟩
        simp
  | _ => exact iff_of_false (hnone rfl) (by rintro ⟨⟩)

/-! ### Fields -/

/-- The fields of a kind that take words are told by their keys. -/
theorem role_of_key (kind : Kind) : ∀ field ∈ kind.fields,
    (field.role = .operator ↔ field.key = "op") ∧
    (field.role = .preference ↔ field.key = "prefer") ∧
    (field.role = .avoidances ↔ field.key = "avoid") := by
  cases kind <;> decide

theorem isField_iff {key : String} {value : Json} :
    IsField key value ↔
      key = "op" ∧ IsWord .operators value ∨ key = "prefer" ∧ IsWord .preferences value ∨
        key = "avoid" ∧ IsAvoidances value ∨
          key ∉ ["op", "prefer", "avoid"] ∧ IsContent value := by
  constructor
  · intro h
    cases h with
    | operator h => exact .inl ⟨rfl, h⟩
    | preference h => exact .inr (.inl ⟨rfl, h⟩)
    | avoidances h => exact .inr (.inr (.inl ⟨rfl, h⟩))
    | content hkey h => exact .inr (.inr (.inr ⟨hkey, h⟩))
  · rintro (⟨rfl, h⟩ | ⟨rfl, h⟩ | ⟨rfl, h⟩ | ⟨hkey, h⟩)
    · exact .operator h
    · exact .preference h
    · exact .avoidances h
    · exact .content hkey h

/-- **What a field accepts**, if the content of its document is read as it should be. -/
theorem exists_loadField_iff {kind : Kind} {field : Field} (hfield : field ∈ kind.fields)
    {value : Json} {content : Except Fault Value}
    (hcontent : (∃ v, content = .ok v) ↔ IsContent value) :
    (∃ v, loadField field.role value content = .ok v) ↔ IsField field.key value := by
  obtain ⟨hop, hprefer, havoid⟩ := role_of_key kind field hfield
  rw [isField_iff]
  cases hrole : field.role with
  | operator =>
      rw [loadField, exists_loadOperator_iff, hop.1 hrole]
      simp
  | preference =>
      rw [loadField, exists_loadPreference_iff, hprefer.1 hrole]
      simp
  | avoidances =>
      rw [loadField, exists_loadAvoidances_iff, havoid.1 hrole]
      simp
  | content =>
      rw [loadField, hcontent]
      simp [← hop, ← hprefer, ← havoid, hrole]

/-- A member of an object, by its key. -/
theorem mem_of_member? {key : String} {value : Json} {members : List (String × Json)}
    (h : Json.member? key members = some value) : (key, value) ∈ members := by
  obtain ⟨before, after, rfl, -⟩ := List.lookup_eq_some_iff.1 h
  simp

/-- A field is loaded if it is there or need not be, and holds what may stand under its key. -/
theorem exists_loads_iff {members : List (String × Json)}
    (hmembers : ∀ member ∈ members, (∃ v, loadContent member.2 = .ok v) ↔ IsContent member.2)
    {kind : Kind} {field : Field} (hfield : field ∈ kind.fields) :
    (∃ v, Loads (loadMembers members) field v) ↔
      (field.missing = .refused → ∃ value, Json.member? field.key members = some value) ∧
        ∀ value, Json.member? field.key members = some value → IsField field.key value := by
  have hlookup := lookup_loadMembers field.key members
  rw [← Json.member?] at hlookup
  simp only [Loads, hlookup]
  cases hmember : Json.member? field.key members with
  | none =>
      rw [fillField]
      cases field.missing <;> simp
  | some value =>
      have hcontent := hmembers _ (mem_of_member? hmember)
      simp [exists_loadField_iff hfield hcontent]

/-! ### Nodes -/

/-- Fields are loaded if each of them is. -/
theorem exists_forall₂_loads_iff {members : List Member} {fields : List Field} :
    (∃ vs, List.Forall₂ (Loads members) fields vs) ↔
      ∀ field ∈ fields, ∃ v, Loads members field v := by
  induction fields with
  | nil => simp
  | cons field fields ih =>
      rw [List.forall_mem_cons, ← ih]
      constructor
      · rintro ⟨_, hfield | ⟨hfield, hfields⟩⟩
        exact ⟨⟨_, hfield⟩, _, hfields⟩
      · rintro ⟨⟨v, hfield⟩, vs, hfields⟩
        exact ⟨v :: vs, .cons hfield hfields⟩

theorem kindOf_eq_ok_iff {tag : Option Json} {kind : Kind} :
    kindOf tag = .ok kind ↔ tag = some (.text kind.tag) := by
  constructor
  · intro h
    unfold kindOf at h
    split at h
    · rename_i t
      split at h
      · rename_i kind' hkind
        obtain rfl : kind' = kind := Except.ok.inj h
        rw [Kind.eq_tag_of_ofTag? hkind]
      · cases h
    all_goals cases h
  · rintro rfl
    simp [kindOf]

/-- The format of a kind, as its table of fields gives it. -/
def formatOf (kind : Kind) : Format where
  tag := kind.tag
  required := (kind.fields.filter fun field => field.missing = .refused).map Field.key
  optional := (kind.fields.filter fun field => field.missing ≠ .refused).map Field.key

/-- Each kind has its format, and there are no others. -/
theorem mem_all_iff {format : Format} : format ∈ Format.all ↔ ∃ kind, formatOf kind = format := by
  have hall : Format.all = Kind.all.map formatOf := by decide
  have hkinds : ∀ kind : Kind, kind ∈ Kind.all := by
    intro kind
    cases kind <;> decide
  simp [hall, hkinds]

theorem mem_required_formatOf {kind : Kind} {key : String} :
    key ∈ (formatOf kind).required ↔
      ∃ field ∈ kind.fields, field.missing = .refused ∧ field.key = key := by
  simp [formatOf, and_assoc]

theorem mem_keys_formatOf {kind : Kind} {key : String} :
    key ∈ (formatOf kind).keys ↔ ∃ field ∈ kind.fields, field.key = key := by
  simp only [Format.keys, formatOf, List.mem_append, List.mem_map, List.mem_filter,
    decide_eq_true_eq]
  constructor
  · rintro (⟨field, ⟨hfield, -⟩, hkey⟩ | ⟨field, ⟨hfield, -⟩, hkey⟩)
    · exact ⟨field, hfield, hkey⟩
    · exact ⟨field, hfield, hkey⟩
  · rintro ⟨field, hfield, hkey⟩
    by_cases hmissing : field.missing = .refused
    · exact .inl ⟨field, ⟨hfield, hmissing⟩, hkey⟩
    · exact .inr ⟨field, ⟨hfield, hmissing⟩, hkey⟩

/-- **What a node accepts**, if its members are read as they should be. -/
theorem exists_loadNode_iff {members : List (String × Json)}
    (hmembers : ∀ member ∈ members, (∃ v, loadContent member.2 = .ok v) ↔ IsContent member.2) :
    (∃ n, loadNode (Json.member? "type" members) (loadMembers members) = .ok n) ↔
      IsNode (.object members) := by
  have hfields : ∀ kind : Kind, (∃ vs, List.Forall₂ (Loads (loadMembers members)) kind.fields vs) ↔
      (∀ key ∈ (formatOf kind).required, ∃ value, Json.member? key members = some value) ∧
        ∀ key ∈ (formatOf kind).keys, ∀ value, Json.member? key members = some value →
          IsField key value := by
    intro kind
    rw [exists_forall₂_loads_iff]
    constructor
    · intro h
      constructor
      · intro key hkey
        obtain ⟨field, hfield, hmissing, rfl⟩ := mem_required_formatOf.1 hkey
        exact ((exists_loads_iff hmembers hfield).1 (h field hfield)).1 hmissing
      · intro key hkey
        obtain ⟨field, hfield, rfl⟩ := mem_keys_formatOf.1 hkey
        exact ((exists_loads_iff hmembers hfield).1 (h field hfield)).2
    · rintro ⟨hrequired, hkeys⟩ field hfield
      refine (exists_loads_iff hmembers hfield).2 ⟨fun hmissing => ?_, ?_⟩
      · exact hrequired _ (mem_required_formatOf.2 ⟨field, hfield, hmissing, rfl⟩)
      · exact hkeys _ (mem_keys_formatOf.2 ⟨field, hfield, rfl⟩)
  constructor
  · rintro ⟨n, h⟩
    obtain ⟨kind, vs, hkind, -, hvs⟩ := loadNode_eq_ok_iff.1 h
    obtain ⟨hrequired, hkeys⟩ := (hfields kind).1 ⟨vs, hvs⟩
    exact .object (mem_all_iff.2 ⟨kind, rfl⟩) (kindOf_eq_ok_iff.1 hkind) hrequired hkeys
  · rintro ⟨hformat, htag, hrequired, hkeys⟩
    obtain ⟨kind, rfl⟩ := mem_all_iff.1 hformat
    obtain ⟨vs, hvs⟩ := (hfields kind).2 ⟨hrequired, hkeys⟩
    exact ⟨_, loadNode_eq_ok_iff.2 ⟨kind, vs, kindOf_eq_ok_iff.2 htag, rfl, hvs⟩⟩

mutual

/-- What is read as the content of a field. -/
theorem exists_loadContent_iff (d : Json) : (∃ v, loadContent d = .ok v) ↔ IsContent d := by
  match d with
  | .null => exact iff_of_true ⟨_, by rw [loadContent]⟩ .null
  | .bool b => exact iff_of_true ⟨_, by rw [loadContent]⟩ (.bool b)
  | .int n => exact iff_of_true ⟨_, by rw [loadContent]⟩ (.int n)
  | .float x => exact iff_of_true ⟨_, by rw [loadContent]⟩ (.float x)
  | .text s => exact iff_of_true ⟨_, by rw [loadContent]⟩ (.text s)
  | .array items =>
      have hitems := exists_loadItems_iff items
      have hload : (∃ v, loadContent (.array items) = .ok v) ↔ ∃ vs, loadItems items = .ok vs := by
        rw [loadContent]
        cases loadItems items <;> simp
      rw [hload, hitems]
      exact ⟨.array, fun h => by cases h; assumption⟩
  | .object members =>
      rw [loadContent, exists_loadNode_iff (forall_exists_loadContent_iff members)]
      exact ⟨.object, fun h => by cases h; assumption⟩

/-- The items of an array are read if all of them are nodes. -/
theorem exists_loadItems_iff (items : List Json) :
    (∃ vs, loadItems items = .ok vs) ↔ ∀ item ∈ items, IsNode item := by
  match items with
  | [] => simp [loadItems]
  | item :: items =>
      have hitems := exists_loadItems_iff items
      rw [List.forall_mem_cons, ← hitems]
      cases item with
      | object members =>
          have hnode := exists_loadNode_iff (forall_exists_loadContent_iff members)
          rw [loadItems, ← hnode]
          cases loadNode (Json.member? "type" members) (loadMembers members) with
          | error f => simp
          | ok n => cases loadItems items <;> simp
      | _ =>
          refine iff_of_false (by simp [loadItems]) ?_
          rintro ⟨⟨⟩, -⟩

/-- What is read from the members of an object. -/
theorem forall_exists_loadContent_iff (members : List (String × Json)) :
    ∀ member ∈ members, (∃ v, loadContent member.2 = .ok v) ↔ IsContent member.2 := by
  match members with
  | [] => simp
  | (key, value) :: members =>
      exact List.forall_mem_cons.2
        ⟨exists_loadContent_iff value, forall_exists_loadContent_iff members⟩

end

/-! ### Members that no field reads -/

/-- Two objects that agree on what is read of them: they have the same tag and, if it is the tag of
a format, the same members under the keys of that format. -/
def Agree (members members' : List (String × Json)) : Prop :=
  Json.member? "type" members = Json.member? "type" members' ∧
  ∀ format ∈ Format.all, Json.member? "type" members = some (.text format.tag) →
    ∀ key ∈ format.keys, Json.member? key members = Json.member? key members'

theorem loadFields_congr {fields : List Field} {members members' : List Member}
    (h : ∀ field ∈ fields, members.lookup field.key = members'.lookup field.key) :
    loadFields fields members = loadFields fields members' := by
  induction fields with
  | nil => rfl
  | cons field fields ih =>
      obtain ⟨hfield, hfields⟩ := List.forall_mem_cons.1 h
      rw [loadFields, loadFields, hfield, ih hfields]

/-- **A member that no field reads makes no difference**, to the node or to the fault. -/
theorem load_eq_of_agree {members members' : List (String × Json)} (h : Agree members members') :
    load (.object members) = load (.object members') := by
  obtain ⟨htag, hkeys⟩ := h
  simp only [load, loadNode, ← htag]
  cases hkind : kindOf (Json.member? "type" members) with
  | error f => rfl
  | ok kind =>
      have hfields : loadFields kind.fields (loadMembers members) =
          loadFields kind.fields (loadMembers members') := by
        apply loadFields_congr
        intro field hfield
        have hkey := hkeys (formatOf kind) (mem_all_iff.2 ⟨kind, rfl⟩) (kindOf_eq_ok_iff.1 hkind)
          field.key (mem_keys_formatOf.2 ⟨field, hfield, rfl⟩)
        rw [Json.member?, Json.member?] at hkey
        rw [lookup_loadMembers, lookup_loadMembers, hkey]
      simp only [hfields]

/-! ### Documents -/

/-- A document is read as a node if it is one. -/
theorem exists_load_iff (d : Json) : (∃ n, load d = .ok n) ↔ IsNode d := by
  cases d with
  | object members => exact exists_loadNode_iff (forall_exists_loadContent_iff members)
  | _ => exact iff_of_false (by simp [load]) (by rintro ⟨⟩)

/-- A node that is read has the kind that its tag names. -/
theorem tagOf_of_load {d : Json} {n : Value} (h : load d = .ok n) :
    ∃ kind fields, n = .node kind fields ∧ tagOf d = .text kind.tag := by
  cases d with
  | object members =>
      obtain ⟨kind, fields, hkind, hn, -⟩ := loadNode_eq_ok_iff.1 h
      exact ⟨kind, fields, hn, by rw [tagOf, kindOf_eq_ok_iff.1 hkind]; rfl⟩
  | _ => simp [load] at h

/-- A document is read as a program if it is a node with the tag of programs. -/
theorem exists_loadProgram_iff (d : Json) :
    (∃ p, loadProgram d = .ok p) ↔ IsNode d ∧ tagOf d = .text "Program" := by
  rw [← exists_load_iff, loadProgram]
  cases hload : load d with
  | error f => simp
  | ok n =>
      obtain ⟨kind, fields, rfl, htag⟩ := tagOf_of_load hload
      rw [htag]
      cases kind <;> simp [Kind.tag]

/-- **The reader accepts exactly the documents of the format.**  A document is read as a node if it
is an object with one of the twelve tags, with the required keys of that tag, with words where words
belong, and with nodes, arrays of nodes or plain values under its other keys; and only then.  It is
read as a program if, besides, its tag is that of programs.  Members under keys that do not belong
to the tag make no difference. -/
theorem load_accepts :
    (∀ d, (∃ n, load d = .ok n) ↔ IsNode d) ∧
    (∀ d, (∃ p, loadProgram d = .ok p) ↔ IsNode d ∧ tagOf d = .text "Program") ∧
    ∀ members members', Agree members members' →
      load (.object members) = load (.object members') :=
  ⟨exists_load_iff, exists_loadProgram_iff, fun _ _ => load_eq_of_agree⟩

/-- A route plan whose avoidances are the keys of an object. -/
def detour : List (String × Json) :=
  [("name", .int 7), ("type", .text "Route"), ("avoid", .object [("tolls", .array [.null])])]

/-- The plan is read as a node, though not as a program, and a comparison that is none does no harm
in it, since route plans compare nothing. -/
theorem load_accepts_detour :
    IsNode (.object detour) ∧ (¬ ∃ p, loadProgram (.object detour) = .ok p) ∧
    Agree (("op", .text "exceeds") :: detour) detour ∧
    load (.object (("op", .text "exceeds") :: detour)) = load (.object detour) := by
  obtain ⟨haccepts, hprogram, hignores⟩ := load_accepts
  have hagree : Agree (("op", .text "exceeds") :: detour) detour := by
    refine ⟨rfl, fun format hformat htag key hkey => ?_⟩
    have hop : ∀ format ∈ Format.all, format.tag = "Route" → "op" ∉ format.keys := by decide
    have hroute : format.tag = "Route" := (Json.text.inj (Option.some.inj htag)).symm
    have hne : key ≠ "op" := fun h => hop format hformat hroute (h ▸ hkey)
    simp only [Json.member?, List.lookup_cons, beq_eq_false_iff_ne.2 hne]
  refine ⟨(haccepts _).1 ⟨_, by rfl⟩, ?_, hagree, hignores _ _ hagree⟩
  rw [hprogram]
  rintro ⟨-, htag⟩
  exact absurd (Json.text.inj htag) (by decide)

end Document

end Waymark
