/-
**The keyword that is suggested is the most similar one.**

A line that starts with no keyword is answered with a suggestion, the keyword most similar to its
first word.  What is promised is that there is no better one: among the keywords whose similarity to
the word is three fifths at least, none is more similar, and of those as similar none is a greater
text.  And a line that does start with a keyword gets no suggestion.  It need not be asked for that
first: a word is similar to itself as no other word is, so that a keyword is its own closest one.

Similarities are compared here as the fractions they are; the reader compares them without a
division.

Main definitions:

* `Similarity.ratio` — the similarity of two words as a rational number;
* `Keyword.IsBest` — the candidate that is to be suggested;
* `Text.IsFirstWord` — the first word of a text.

Main results:

* `Similarity.eq_of_ratio_eq_one` — only equal words are wholly similar;
* `Keyword.closest?_eq_some_iff` — the search finds the best candidate;
* `Keyword.suggestions_are_optimal` — **a suggestion is the best keyword for a word that is none**.
-/
import Mathlib.Algebra.Order.Field.Rat
import Mathlib.Data.List.TakeWhile
import Mathlib.Data.Prod.Lex
import Mathlib.Data.String.Basic
import Mathlib.Tactic.Linarith
import Waymark.Keyword
import Waymark.Proofs.MatchingBlocks

set_option relaxedAutoImplicit false
set_option autoImplicit false

namespace Waymark

/-! ### Similarities as numbers -/

namespace Similarity

/-- The similarity of two words: twice the matched length over the length of both. -/
def ratio (a b : List Char) : ℚ := 2 * matched a b / (a.length + b.length)

section

variable {a a' b : List Char}

theorem total_pos (a : List Char) (hb : b ≠ []) : (0 : ℚ) < a.length + b.length := by
  have hpos : 0 < a.length + b.length := by
    have := List.length_pos_iff.2 hb
    omega
  exact_mod_cast hpos

theorem below_iff (hb : b ≠ []) :
    (score a b).below (score a' b) = true ↔ ratio a b < ratio a' b := by
  rw [ratio, ratio, div_lt_div_iff₀ (total_pos a hb) (total_pos a' hb), Score.below,
    decide_eq_true_eq, mul_assoc, mul_assoc, mul_lt_mul_iff_right₀ two_pos]
  exact_mod_cast Iff.rfl

theorem level_iff (hb : b ≠ []) :
    (score a b).level (score a' b) = true ↔ ratio a b = ratio a' b := by
  rw [ratio, ratio, div_eq_div_iff (total_pos a hb).ne' (total_pos a' hb).ne', Score.level,
    decide_eq_true_eq, mul_assoc, mul_assoc, mul_right_inj' two_ne_zero]
  exact_mod_cast Iff.rfl

theorem isClose_iff (hb : b ≠ []) : (score a b).isClose = true ↔ 3 / 5 ≤ ratio a b := by
  rw [ratio, div_le_div_iff₀ (by norm_num) (total_pos a hb), Score.isClose, decide_eq_true_eq]
  have hcast : (3 * (a.length + b.length) ≤ 10 * matched a b) ↔
      (3 * (a.length + b.length) : ℚ) ≤ 10 * matched a b := by exact_mod_cast Iff.rfl
  rw [score, hcast]
  constructor <;> intro h <;> linarith

/-- A similarity is at most one. -/
theorem ratio_le_one (hb : b ≠ []) : ratio a b ≤ 1 := by
  rw [ratio, div_le_one₀ (total_pos a hb)]
  have hmin := Nat.le_min.1 (matched_le_min a b)
  have hle : 2 * matched a b ≤ a.length + b.length := by omega
  exact_mod_cast hle

/-- **Only equal words are wholly similar.** -/
theorem eq_of_ratio_eq_one (h : ratio a b = 1) : a = b := by
  have hne : (a.length + b.length : ℚ) ≠ 0 := by
    intro hzero
    rw [ratio, hzero, div_zero] at h
    exact zero_ne_one h
  rw [ratio, div_eq_one_iff_eq hne] at h
  exact (matched_eq_iff a b).1 (by exact_mod_cast h)

theorem ratio_self (hb : b ≠ []) : ratio b b = 1 := by
  rw [ratio, div_eq_one_iff_eq (total_pos b hb).ne']
  exact_mod_cast (matched_eq_iff b b).2 rfl

end

end Similarity

/-! ### The closest keyword -/

namespace Keyword

open Similarity (ratio)

/-- The candidate to suggest for a word: it is similar enough, no other one is more similar, and of
those as similar none is greater. -/
structure IsBest (candidates : List String) (word : List Char) (k : String) : Prop where
  mem : k ∈ candidates
  close : 3 / 5 ≤ ratio k.toList word
  best : ∀ k' ∈ candidates, ratio k'.toList word < ratio k.toList word ∨
    ratio k'.toList word = ratio k.toList word ∧ k' ≤ k

/-- Candidates in the order in which they are preferred for a word. -/
def rank (word : List Char) (k : String) : ℚ ×ₗ String := toLex (ratio k.toList word, k)

theorem rank_le_iff {word : List Char} {k k' : String} :
    rank word k' ≤ rank word k ↔ ratio k'.toList word < ratio k.toList word ∨
      ratio k'.toList word = ratio k.toList word ∧ k' ≤ k :=
  Prod.Lex.toLex_le_toLex

theorem rank_injective (word : List Char) : Function.Injective (rank word) := by
  intro k k' h
  exact (Prod.mk.inj (toLex.injective h)).2

theorem isBetter_iff {word : List Char} (hword : word ≠ []) (best next : String) :
    isBetter word best next = true ↔ rank word best < rank word next := by
  rw [rank, rank, Prod.Lex.toLex_lt_toLex, isBetter, Bool.or_eq_true, Bool.and_eq_true,
    Similarity.below_iff hword, Similarity.level_iff hword, decide_eq_true_eq]

theorem IsBest.unique {candidates : List String} {word : List Char} {k k' : String}
    (h : IsBest candidates word k) (h' : IsBest candidates word k') : k = k' := by
  apply rank_injective word
  exact le_antisymm (rank_le_iff.2 (h'.best k h.mem)) (rank_le_iff.2 (h.best k' h'.mem))

/-- A search that keeps the better of two candidates ends with the best. -/
theorem foldl_isBetter {word : List Char} (hword : word ≠ []) (ks : List String) (k : String) :
    let best := ks.foldl (fun best next => if isBetter word best next then next else best) k
    best ∈ k :: ks ∧ ∀ k' ∈ k :: ks, rank word k' ≤ rank word best := by
  induction ks generalizing k with
  | nil => simp
  | cons next ks ih =>
      simp only [List.foldl_cons]
      split
      · rename_i hbetter
        have hlt := (isBetter_iff hword k next).1 hbetter
        obtain ⟨hmem, hall⟩ := ih next
        refine ⟨List.mem_cons_of_mem k hmem, List.forall_mem_cons.2 ⟨?_, hall⟩⟩
        exact hlt.le.trans (hall next List.mem_cons_self)
      · rename_i hbetter
        have hle : rank word next ≤ rank word k :=
          not_lt.1 fun hlt => hbetter ((isBetter_iff hword k next).2 hlt)
        obtain ⟨hmem, hall⟩ := ih k
        obtain ⟨hk, hks⟩ := List.forall_mem_cons.1 hall
        refine ⟨?_, List.forall_mem_cons.2 ⟨hk, List.forall_mem_cons.2 ⟨hle.trans hk, hks⟩⟩⟩
        rcases List.mem_cons.1 hmem with heq | hmem
        · rw [heq]
          exact List.mem_cons_self
        · exact List.mem_cons_of_mem k (List.mem_cons_of_mem next hmem)

/-- What the search finds is the best candidate. -/
theorem isBest_of_closest? {candidates : List String} {word : List Char} {k : String}
    (hword : word ≠ []) (h : closest? candidates word = some k) : IsBest candidates word k := by
  rw [closest?] at h
  split at h
  · simp at h
  · rename_i first rest hfilter
    obtain ⟨hmem, hall⟩ := foldl_isBetter hword rest first
    rw [← hfilter, Option.some.inj h] at hmem hall
    obtain ⟨hk, hclose⟩ := List.mem_filter.1 hmem
    rw [Similarity.isClose_iff hword] at hclose
    refine ⟨hk, hclose, fun k' hk' => ?_⟩
    by_cases hclose' : 3 / 5 ≤ ratio k'.toList word
    · exact rank_le_iff.1
        (hall k' (List.mem_filter.2 ⟨hk', (Similarity.isClose_iff hword).2 hclose'⟩))
    · exact .inl (lt_of_lt_of_le (not_le.1 hclose') hclose)

/-- The search finds something if there is a candidate that is similar enough. -/
theorem exists_closest? {candidates : List String} {word : List Char} {k : String}
    (hword : word ≠ []) (hk : k ∈ candidates) (hclose : 3 / 5 ≤ ratio k.toList word) :
    ∃ k', closest? candidates word = some k' := by
  have hmem : k ∈ candidates.filter fun k => (Similarity.score k.toList word).isClose :=
    List.mem_filter.2 ⟨hk, (Similarity.isClose_iff hword).2 hclose⟩
  rw [closest?]
  split
  · rename_i hfilter
    rw [hfilter] at hmem
    simp at hmem
  · exact ⟨_, rfl⟩

/-- **The search finds the best candidate**, if there is one. -/
theorem closest?_eq_some_iff {candidates : List String} {word : List Char} (hword : word ≠ [])
    (k : String) : closest? candidates word = some k ↔ IsBest candidates word k := by
  constructor
  · exact isBest_of_closest? hword
  · intro hbest
    obtain ⟨k', hk'⟩ := exists_closest? hword hbest.mem hbest.close
    rw [hk', (isBest_of_closest? hword hk').unique hbest]

/-- **A candidate is the best one for itself.** -/
theorem isBest_self {candidates : List String} {k : String} (hne : k.toList ≠ [])
    (hk : k ∈ candidates) : IsBest candidates k.toList k := by
  have hself := Similarity.ratio_self hne
  refine ⟨hk, by rw [hself]; norm_num, fun k' _ => ?_⟩
  rw [hself]
  rcases (Similarity.ratio_le_one (a := k'.toList) hne).lt_or_eq with hlt | heq
  · exact .inl hlt
  · exact .inr ⟨heq, (String.toList_injective (Similarity.eq_of_ratio_eq_one heq)).le⟩

end Keyword

/-! ### The first word of a text -/

namespace Text

/-- The first word of a text: blanks come before it and a blank behind it, if anything. -/
def IsFirstWord (cs word : List Char) : Prop :=
  ∃ before behind, cs = before ++ word ++ behind ∧ (∀ c ∈ before, isBlank c = true) ∧
    word ≠ [] ∧ (∀ c ∈ word, isBlank c = false) ∧ ∀ c ∈ behind.head?, isBlank c = true

/-- A text with a character that is no blank has a first word, and it is found. -/
theorem exists_firstWord? {cs : List Char} (h : ∃ c ∈ cs, isBlank c = false) :
    ∃ word, firstWord? cs = some word ∧ IsFirstWord cs word := by
  have hsolid : cs.dropWhile isBlank ≠ [] := by
    obtain ⟨c, hc, hblank⟩ := h
    intro hnil
    have hall := List.dropWhile_eq_nil_iff.1 hnil c hc
    rw [hblank] at hall
    exact Bool.false_ne_true hall
  obtain ⟨c, rest, hcons⟩ := List.exists_cons_of_ne_nil hsolid
  have hc : isBlank c = false := by
    have hhead := List.head?_dropWhile_not isBlank cs
    rw [hcons] at hhead
    simpa using hhead
  refine ⟨c :: rest.takeWhile (fun c => !isBlank c), ?_, cs.takeWhile isBlank,
    rest.dropWhile (fun c => !isBlank c), ?_, ?_, by simp, ?_, ?_⟩
  · simp [firstWord?, hcons, hc]
  · rw [List.append_assoc, List.cons_append, List.takeWhile_append_dropWhile, ← hcons,
      List.takeWhile_append_dropWhile]
  · exact fun x hx => List.mem_takeWhile_imp hx
  · refine List.forall_mem_cons.2 ⟨hc, fun x hx => ?_⟩
    simpa using List.mem_takeWhile_imp hx
  · intro x hx
    have hhead := List.head?_dropWhile_not (fun c => !isBlank c) rest
    rw [Option.mem_def.1 hx] at hhead
    simpa using hhead

theorem lower_ne_nil {cs : List Char} (h : cs ≠ []) : lower cs ≠ [] := by
  obtain ⟨c, rest, rfl⟩ := List.exists_cons_of_ne_nil h
  have hne : lowerChar c ≠ [] := by
    unfold lowerChar
    split
    · simp
    · split <;> simp
  simp [hne]

end Text

/-! ### Suggestions -/

namespace Keyword

open Similarity (ratio matched Matching)

/-- The suggestion for a text is the closest keyword to its first word, unless it is that word. -/
theorem suggest_eq {table : Table} {text : String} {first : List Char}
    (h : Text.firstWord? text.toList = some first) :
    suggest table text = .ok ((closest? table.words (Text.lower first)).filter
      fun k => k.toList ≠ Text.lower first) := by
  have hne : text.toList ≠ [] := by
    intro hnil
    rw [hnil] at h
    simp [Text.firstWord?] at h
  rw [suggest]
  split
  · contradiction
  · simp only [h]
    cases hclosest : closest? table.words (Text.lower first) with
    | none => rfl
    | some k => by_cases hk : k.toList = Text.lower first <;> simp [hk, Option.filter]

/-- The best candidate for a word is another one exactly if the word is no candidate. -/
theorem isBest_and_ne_iff {candidates : List String} {word : List Char} (hword : word ≠ [])
    (k : String) : IsBest candidates word k ∧ k.toList ≠ word ↔
      String.ofList word ∉ candidates ∧ IsBest candidates word k := by
  have htoList : (String.ofList word).toList = word := String.toList_ofList
  constructor
  · rintro ⟨hbest, hne⟩
    refine ⟨fun hmem => hne ?_, hbest⟩
    have hself := isBest_self (by rwa [htoList]) hmem
    rw [htoList] at hself
    rw [hbest.unique hself, htoList]
  · rintro ⟨hnot, hbest⟩
    refine ⟨hbest, fun heq => hnot ?_⟩
    rw [← heq, String.ofList_toList]
    exact hbest.mem

/-- **A suggestion is the best keyword for a word that is none.**  For a text with a first word, the
keyword `k` is suggested exactly if that word, in lower case, is no keyword of the table and `k` is
the best one for it, and nothing is suggested otherwise.  Similarities rest on the matching of two
words, which is unique: the matched length is its total length, at most that of either word, and
only equal words are wholly similar. -/
theorem suggestions_are_optimal (table : Table) (text : String)
    (h : ∃ c ∈ text.toList, Text.isBlank c = false) :
    (∃ first, Text.IsFirstWord text.toList first ∧
      (∀ k, suggest table text = .ok (some k) ↔
        String.ofList (Text.lower first) ∉ table.words ∧
          IsBest table.words (Text.lower first) k) ∧
      (suggest table text = .ok none ↔
        ¬ ∃ k, String.ofList (Text.lower first) ∉ table.words ∧
          IsBest table.words (Text.lower first) k)) ∧
    ∀ a b, (∃! blocks, Matching a b blocks) ∧
      (∀ blocks, Matching a b blocks → (blocks.map List.length).sum = matched a b) ∧
      matched a b ≤ min a.length b.length ∧ (ratio a b = 1 → a = b) := by
  constructor
  · obtain ⟨first, hfirst, hword⟩ := Text.exists_firstWord? h
    have hne : Text.lower first ≠ [] := by
      obtain ⟨-, -, -, -, hne, -⟩ := hword
      exact Text.lower_ne_nil hne
    have hsome : ∀ k, suggest table text = .ok (some k) ↔
        String.ofList (Text.lower first) ∉ table.words ∧
          IsBest table.words (Text.lower first) k := by
      intro k
      rw [suggest_eq hfirst, Except.ok.injEq, Option.filter_eq_some_iff,
        closest?_eq_some_iff hne, decide_eq_true_eq, isBest_and_ne_iff hne]
    refine ⟨first, hword, hsome, ?_⟩
    simp only [← hsome]
    rw [suggest_eq hfirst]
    simp [Option.eq_none_iff_forall_ne_some]
  · intro a b
    obtain ⟨blocks, hmatching, -⟩ := Similarity.exists_matching a b
    refine ⟨⟨blocks, hmatching, fun blocks' h' => h'.unique hmatching⟩, ?_,
      Similarity.matched_le_min a b, Similarity.eq_of_ratio_eq_one⟩
    intro blocks h
    rw [← List.length_flatten]
    exact h.length_eq

/-- For a misspelled keyword the best one is suggested. -/
theorem suggestions_are_optimal_misspelled :
    suggest .statement " SHWO x" = .ok (some "show") ∧
      ∃ first, Text.IsFirstWord " SHWO x".toList first ∧
        String.ofList (Text.lower first) ∉ statements ∧
        IsBest statements (Text.lower first) "show" := by
  have hsuggest : suggest .statement " SHWO x" = .ok (some "show") := by decide +kernel
  obtain ⟨⟨first, hfirst, hsome, -⟩, -⟩ :=
    suggestions_are_optimal .statement " SHWO x" ⟨'S', by decide, by decide⟩
  exact ⟨hsuggest, first, hfirst, (hsome "show").1 hsuggest⟩

end Keyword

end Waymark
