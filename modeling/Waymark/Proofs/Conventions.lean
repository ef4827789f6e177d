/-
**What is known of conventions.**

Settings are built with conventions, which say how an environment file is read and which values name
a truth value.  What settings do is studied here for all conventions of which three things are
known, those that are documented of them:

* which values name a truth value, as `Settings.NamesTruth` has it;
* that a text can refer to a variable by a dollar sign only, so that a file without one is read alike
  in all environments;
* what a plain file has.  Each of its lines is a name in letters, digits and underscores, alone or
  with a sign and a text behind it, and no character of the text quotes, escapes or refers to
  anything.  A name that is set again keeps its place.

Of other files, with quotes, comments, references or lines that make no sense, nothing more is
known, and results about them speak of what was read.

Main definitions:

* `Settings.NamesTruth` — the truth value that a value names;
* `Environment.IsPlain`, `Environment.plainFile` — the entries of plain files, and the file that has
  given ones;
* `Settings.Conventions.Documented` — what is known of conventions.

Main results:

* `Settings.plainTruth_eq_ok_iff` — the names of truth values by plain conventions;
* `Environment.readPlain_plainFile` — a plain file is read as it was written;
* `Settings.Conventions.plain_documented` — **plain conventions are as documented**.
-/
import Waymark.Proofs.Layout
import Waymark.Settings.Plain

set_option relaxedAutoImplicit false
set_option autoImplicit false

namespace Waymark

/-! ### Names of truth values -/

namespace Settings

/-- The truth value that a value names: itself, a number that is zero or one, or one of the words
in any ASCII letter case. -/
inductive NamesTruth : Value → Bool → Prop
  | bool (b : Bool) : NamesTruth (.bool b) b
  | int (b : Bool) : NamesTruth (.int b.toInt) b
  | float {x : Double} {b : Bool} : x.toInt? = some b.toInt → NamesTruth (.float x) b
  | word {t w : String} {b : Bool} : (w, b) ∈ truthWords → t.toList.map Char.toLower = w.toList →
      NamesTruth (.text t) b

theorem truthOfWhole_eq_ok_iff {n : Int} {b : Bool} : truthOfWhole n = .ok b ↔ n = b.toInt := by
  rw [truthOfWhole]
  split
  · rename_i hzero
    cases b <;> simp [hzero]
  · rename_i hzero
    split
    · rename_i hone
      cases b <;> simp [hone]
    · rename_i hone
      cases b <;> simp [hzero, hone]

/-- No two of the words for truth and falsehood are the same. -/
theorem find?_truthWords : ∀ entry ∈ truthWords,
    truthWords.find? (fun (w, _) => w.toList == entry.1.toList) = some entry := by
  decide

theorem plainTruth_text_eq_ok_iff {t : String} {b : Bool} :
    plainTruth (.text t) = .ok b ↔
      ∃ w, (w, b) ∈ truthWords ∧ t.toList.map Char.toLower = w.toList := by
  rw [plainTruth]
  constructor
  · intro h
    split at h
    · rename_i w b' hfind
      obtain rfl := Except.ok.inj h
      have hfound := List.find?_some hfind
      exact ⟨w, List.mem_of_find?_eq_some hfind, (eq_of_beq hfound).symm⟩
    · simp at h
  · rintro ⟨w, hmem, hword⟩
    rw [hword, find?_truthWords _ hmem]

/-- **The names of truth values by plain conventions.** -/
theorem plainTruth_eq_ok_iff {value : Value} {b : Bool} :
    plainTruth value = .ok b ↔ NamesTruth value b := by
  have hbound : ∀ b : Bool, -wholeBound ≤ b.toInt ∧ b.toInt < wholeBound ∧
      b.toInt.natAbs < wholeBound.natAbs := by decide
  cases value with
  | bool b' =>
      rw [plainTruth, Except.ok.injEq]
      constructor
      · rintro rfl
        exact .bool _
      · rintro ⟨⟩
        rfl
  | int n =>
      rw [plainTruth]
      constructor
      · intro h
        split at h
        · rw [truthOfWhole_eq_ok_iff.1 h]
          exact .int b
        · simp at h
      · rintro ⟨⟩
        rw [if_pos ⟨(hbound b).1, (hbound b).2.1⟩]
        exact truthOfWhole_eq_ok_iff.2 rfl
  | float x =>
      rw [plainTruth]
      constructor
      · intro h
        split at h
        · rename_i n hwhole
          split at h
          · rw [truthOfWhole_eq_ok_iff.1 h] at hwhole
            exact .float hwhole
          · simp at h
        · simp at h
      · intro h
        cases h with
        | float hwhole =>
            simp only [hwhole, if_pos (hbound b).2.2]
            exact truthOfWhole_eq_ok_iff.2 rfl
  | text t =>
      rw [plainTruth_text_eq_ok_iff]
      constructor
      · rintro ⟨w, hmem, hword⟩
        exact .word hmem hword
      · intro h
        cases h with
        | word hmem hword => exact ⟨_, hmem, hword⟩
  | _ =>
      simp only [plainTruth, reduceCtorEq, false_iff]
      rintro ⟨⟩

end Settings

/-! ### Plain files -/

namespace Environment

/-- Quotes, the backslash, and the signs before comments and references. -/
def signs : List Char := ['"', '\x27', '\x60', '#', '$', '\\']

/-- The characters of a plain text: those of ASCII that are visible and have no meaning of their
own. -/
def isLiteral (c : Char) : Bool :=
  33 ≤ c.toNat && c.toNat ≤ 126 && !signs.contains c

/-- An entry of a plain file: a name in letters, digits and underscores, and a plain text if there
is one. -/
structure IsPlain (entry : String × Option String) : Prop where
  name_ne : entry.1 ≠ ""
  name_part : ∀ c ∈ entry.1.toList, Text.isIdentifierPart c = true
  text_literal : ∀ t ∈ entry.2, ∀ c ∈ t.toList, isLiteral c = true

instance (entry : String × Option String) : Decidable (IsPlain entry) :=
  decidable_of_iff (entry.1 ≠ "" ∧ (∀ c ∈ entry.1.toList, Text.isIdentifierPart c = true) ∧
      ∀ t ∈ entry.2, ∀ c ∈ t.toList, isLiteral c = true)
    ⟨fun ⟨hne, hname, htext⟩ => ⟨hne, hname, htext⟩,
      fun h => ⟨h.name_ne, h.name_part, h.text_literal⟩⟩

/-- The line of a plain file that has an entry. -/
def plainLine (entry : String × Option String) : List Char :=
  match entry.2 with
  | none => entry.1.toList
  | some t => entry.1.toList ++ '=' :: t.toList

/-- The plain file that has entries one after the other. -/
def plainFile (entries : List (String × Option String)) : String :=
  String.ofList (entries.flatMap fun entry => plainLine entry ++ ['\n'])

section Entry

variable {entry : String × Option String} (h : IsPlain entry)

include h

theorem IsPlain.name_ne_nil : entry.1.toList ≠ [] :=
  fun hnil => h.name_ne (String.toList_eq_nil_iff.1 hnil)

/-- The characters of a line of a plain file are visible ones of ASCII. -/
theorem IsPlain.toNat_mem {c : Char} (hc : c ∈ plainLine entry) :
    32 < c.toNat ∧ c.toNat < 127 := by
  have hname : ∀ c ∈ entry.1.toList, 32 < c.toNat ∧ c.toNat < 127 := by
    intro c hc
    have hpart := Text.isIdentifierPart_iff.1 (h.name_part c hc)
    omega
  rw [plainLine] at hc
  split at hc
  · exact hname c hc
  · rename_i t ht
    rcases List.mem_append.1 hc with hc | hc
    · exact hname c hc
    · rcases List.mem_cons.1 hc with rfl | hc
      · decide
      · have hliteral := h.text_literal t ht c hc
        simp only [isLiteral, Bool.and_eq_true, decide_eq_true_eq] at hliteral
        omega

/-- The name of a plain entry has no sign in it. -/
theorem IsPlain.name_ne_sign {c : Char} (hc : c ∈ entry.1.toList) : (c != '=') = true := by
  have hpart := h.name_part c hc
  rw [bne_iff_ne]
  rintro rfl
  exact absurd hpart (by decide)

/-- A line of a plain file has the entry that it was written for. -/
theorem IsPlain.entryOf?_eq : entryOf? (plainLine entry) = some entry := by
  have hline := fun c (hc : c ∈ plainLine entry) => h.toNat_mem hc
  have hblank : ∀ cs : List Char, (∀ c ∈ cs, c ∈ plainLine entry) → Text.strip cs = cs := by
    intro cs hcs
    refine Text.strip_eq_of_no_blank fun c hc => ?_
    have hc' := hline c (hcs c hc)
    exact Text.isBlank_eq_false (by omega) (by omega)
  obtain ⟨name, text⟩ := entry
  cases text with
  | none =>
      have hdrop : name.toList.dropWhile (fun c => c != '=') = [] :=
        List.dropWhile_eq_nil_iff.2 fun c hc => h.name_ne_sign hc
      have hstrip : Text.strip name.toList = name.toList := hblank _ fun _ hc => hc
      simp only [entryOf?, plainLine, hdrop, hstrip, if_neg h.name_ne_nil, String.ofList_toList]
  | some t =>
      have hsign : ∀ c ∈ ('=' :: t.toList).head?, (c != '=') = false := by simp
      obtain ⟨hbefore, hbehind⟩ := Text.cut_append (fun c hc => h.name_ne_sign hc) hsign
      have hname : Text.strip name.toList = name.toList :=
        hblank _ fun c hc => List.mem_append_left _ hc
      have htext : Text.strip t.toList = t.toList :=
        hblank _ fun c hc => List.mem_append_right _ (List.mem_cons_of_mem _ hc)
      simp only [entryOf?, plainLine, hbefore, hbehind, hname, htext, String.ofList_toList]

end Entry

section File

variable {entries : List (String × Option String)} (h : ∀ entry ∈ entries, IsPlain entry)

include h

/-- The lines of a plain file are those that were written, and an empty one at its end. -/
theorem plainLines_plainFile :
    plainLines (plainFile entries).toList = entries.map plainLine ++ [[]] := by
  rw [plainFile, String.toList_ofList, plainLines, Source.splitLines]
  induction entries with
  | nil => rfl
  | cons entry entries ih =>
      have hline := fun c (hc : c ∈ plainLine entry) =>
        (h entry List.mem_cons_self).toNat_mem hc
      have hbreak : '\n' ∉ plainLine entry := fun hmem => absurd (hline _ hmem) (by decide)
      have hsame : (plainLine entry).map (fun c => if c = '\r' then '\n' else c) =
          plainLine entry := by
        refine (List.map_congr_left fun c hc => if_neg ?_).trans (List.map_id' _)
        rintro rfl
        exact absurd (hline _ hc) (by decide)
      rw [List.flatMap_cons, List.map_append, List.map_append, hsame, List.append_assoc]
      rw [List.map_singleton, if_neg (by decide), List.singleton_append,
        Source.splitFrom_break hbreak, ih fun e he => h e (List.mem_cons_of_mem _ he)]
      rfl

/-- **A plain file is read as it was written**, in any environment. -/
theorem readPlain_plainFile (e : Environment) :
    readPlain e (plainFile entries) = setAll entries := by
  have hentries : (entries.map plainLine).filterMap entryOf? = entries := by
    rw [List.filterMap_map]
    refine (List.filterMap_congr fun entry hentry => ?_).trans List.filterMap_some
    exact (h entry hentry).entryOf?_eq
  have hempty : entryOf? [] = none := rfl
  rw [readPlain, plainLines_plainFile h, List.filterMap_append, hentries, List.filterMap_cons,
    hempty, List.filterMap_nil, List.append_nil]

end File

end Environment

/-! ### Conventions -/

namespace Settings

/-- What is known of conventions. -/
structure Conventions.Documented (c : Conventions) : Prop where
  /-- Truth values are named by themselves, by zero and one, and by the words for them. -/
  truth : ∀ value b, c.readTruth value = .ok b ↔ NamesTruth value b
  /-- A file without a dollar sign refers to no variable. -/
  literal : ∀ e e' file, '$' ∉ file.toList → c.readFile e file = c.readFile e' file
  /-- The lines of a plain file set names one after the other. -/
  plain : ∀ e entries, (∀ entry ∈ entries, Environment.IsPlain entry) →
    c.readFile e (Environment.plainFile entries) = Environment.setAll entries

/-- **Plain conventions are as documented.** -/
theorem Conventions.plain_documented : Conventions.plain.Documented where
  truth _ _ := plainTruth_eq_ok_iff
  literal _ _ _ _ := rfl
  plain e _ h := Environment.readPlain_plainFile h e

end Settings

end Waymark
