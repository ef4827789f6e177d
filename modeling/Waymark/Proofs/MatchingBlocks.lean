/-
**Matching blocks, said without the search for them.**

`Similarity.matched` compares two words by a search: it lists a block for every pair of places,
takes the first of the longest and goes on to its left and to its right.  This module says what the
search finds.  A block is a text that stands in both words; the one that is taken is at least as
long as any other, and of those as long it stands first in the first word and then first in the
second.  The blocks that are taken in this way, from left to right, are the *matching* of two words.

There is exactly one matching, and the matched length is its total length.  Put together, the blocks
of a matching are a text that can be had from either word by leaving characters out.  All that is
needed of the matched length follows from this: it is at most the length of either word, and if it
is the length of both, the two words are one.

Main definitions:

* `Similarity.IsShared` — a text at a place of each of two words;
* `Similarity.IsFirstLongest` — the first of the longest shared texts;
* `Similarity.Matching` — the blocks that two words share.

Main results:

* `Similarity.isFirstLongest_longest` — the search for a block finds the first of the longest;
* `Similarity.exists_matching`, `Similarity.Matching.unique`, `Similarity.Matching.length_eq` — two
  words have one matching, and its length is the matched length;
* `Similarity.matched_le_min`, `Similarity.matched_eq_iff` — the matched length is at most that of
  either word, and that of both for equal words only.
-/
import Mathlib.Data.List.Infix
import Waymark.Similarity

set_option relaxedAutoImplicit false
set_option autoImplicit false

namespace Waymark

namespace Similarity

/-! ### Shared texts -/

/-- `IsShared a b i j s`: the text `s` stands in `a` at place `i` and in `b` at place `j`. -/
def IsShared (a b : List Char) (i j : Nat) (s : List Char) : Prop :=
  s <+: a.drop i ∧ s <+: b.drop j

/-- The first of the longest texts that two words share. -/
structure IsFirstLongest (a b : List Char) (i j : Nat) (s : List Char) : Prop where
  ne_nil : s ≠ []
  shared : IsShared a b i j s
  longest : ∀ i' j' t, IsShared a b i' j' t → t.length ≤ s.length
  /-- Of those as long it stands first in the first word, then first in the second. -/
  first : ∀ i' j' t, IsShared a b i' j' t → t.length = s.length → i < i' ∨ i = i' ∧ j ≤ j'

/-- `Matching a b blocks`: the blocks that `a` and `b` share, from left to right. -/
inductive Matching : List Char → List Char → List (List Char) → Prop
  | none {a b : List Char} : List.Disjoint a b → Matching a b []
  | block {a b : List Char} {i j : Nat} {s : List Char} {left right : List (List Char)} :
      IsFirstLongest a b i j s → Matching (a.take i) (b.take j) left →
      Matching (a.drop (i + s.length)) (b.drop (j + s.length)) right →
      Matching a b (left ++ s :: right)

/-! ### The search for a block -/

theorem take_commonStart (a b : List Char) :
    a.take (commonStart a b) = b.take (commonStart a b) := by
  fun_induction commonStart a b <;> simp_all

/-- A common start of two words is not longer than they agree. -/
theorem length_le_commonStart {s a b : List Char} (ha : s <+: a) (hb : s <+: b) :
    s.length ≤ commonStart a b := by
  induction s generalizing a b with
  | nil => exact Nat.zero_le _
  | cons c s ih =>
      obtain ⟨a', rfl, ha'⟩ := List.cons_prefix_iff.1 ha
      obtain ⟨b', rfl, hb'⟩ := List.cons_prefix_iff.1 hb
      rw [commonStart, if_pos rfl, List.length_cons]
      exact Nat.succ_le_succ (ih ha' hb')

theorem places_eq (n : Nat) (cs : List Char) :
    places n cs = (List.range cs.length).map fun i => (n + i, cs.drop i) := by
  induction cs generalizing n with
  | nil => rfl
  | cons c cs ih =>
      rw [places, ih, List.length_cons, List.range_succ_eq_map, List.map_cons, List.map_map]
      refine congrArg _ (List.map_congr_left fun i _ => ?_)
      simp only [Function.comp_apply, List.drop_succ_cons, Prod.mk.injEq, and_true]
      omega

/-- The text of a block of two words. -/
def Block.text (m : Block) (a : List Char) : List Char := (a.drop m.left).take m.size

/-- The blocks of two words, by their places. -/
theorem blocks_eq (a b : List Char) :
    blocks a b = (List.range a.length).flatMap fun i =>
      (List.range b.length).map fun j => ⟨i, j, commonStart (a.drop i) (b.drop j)⟩ := by
  simp only [blocks, places_eq, List.flatMap_map, List.map_map, Nat.zero_add]
  rfl

/-- The order of blocks by their places. -/
def Block.Before (m n : Block) : Prop := m.left < n.left ∨ m.left = n.left ∧ m.right < n.right

theorem pairwise_blocks (a b : List Char) : (blocks a b).Pairwise Block.Before := by
  rw [blocks_eq, List.pairwise_flatMap]
  constructor
  · intro i _
    rw [List.pairwise_map]
    exact List.pairwise_lt_range.imp fun hlt => .inr ⟨rfl, hlt⟩
  · refine List.pairwise_lt_range.imp fun hlt => ?_
    intro m hm n hn
    obtain ⟨_, -, rfl⟩ := List.mem_map.1 hm
    obtain ⟨_, -, rfl⟩ := List.mem_map.1 hn
    exact .inl hlt

/-- A search that keeps the greater of two blocks ends with its start, or with the first of the
greatest. -/
theorem foldl_greater_cases (bs : List Block) (best : Block) :
    (bs.foldl greater best = best ∧ ∀ m ∈ bs, m.size ≤ best.size) ∨
      ∃ before after, bs = before ++ bs.foldl greater best :: after ∧
        best.size < (bs.foldl greater best).size ∧
        (∀ m ∈ before, m.size < (bs.foldl greater best).size) ∧
        ∀ m ∈ after, m.size ≤ (bs.foldl greater best).size := by
  induction bs generalizing best with
  | nil => simp
  | cons b bs ih =>
      rw [List.foldl_cons]
      by_cases hb : best.size < b.size
      · have hgreater : greater best b = b := if_pos hb
        rw [hgreater]
        right
        rcases ih b with ⟨heq, hall⟩ | ⟨before, after, heq, hlt, hbefore, hafter⟩
        · rw [heq]
          exact ⟨[], bs, rfl, hb, by simp, hall⟩
        · refine ⟨b :: before, after, congrArg _ heq, by omega, ?_, hafter⟩
          simpa using ⟨hlt, hbefore⟩
      · have hgreater : greater best b = best := if_neg hb
        rw [hgreater]
        rcases ih best with ⟨heq, hall⟩ | ⟨before, after, heq, hlt, hbefore, hafter⟩
        · exact .inl ⟨heq, by simpa using ⟨Nat.le_of_not_lt hb, hall⟩⟩
        · refine .inr ⟨b :: before, after, congrArg _ heq, hlt, ?_, hafter⟩
          have hsize : b.size < (bs.foldl greater best).size := by omega
          simpa using ⟨hsize, hbefore⟩

/-- A shared text starts where a block starts that is as long at least. -/
theorem IsShared.mem_blocks {a b : List Char} {i j : Nat} {t : List Char}
    (h : IsShared a b i j t) (hne : t ≠ []) :
    ⟨i, j, commonStart (a.drop i) (b.drop j)⟩ ∈ blocks a b := by
  have hpos : 0 < t.length := List.length_pos_iff.2 hne
  have ha := h.1.length_le
  have hb := h.2.length_le
  rw [List.length_drop] at ha hb
  rw [blocks_eq, List.mem_flatMap]
  refine ⟨i, List.mem_range.2 (by omega), List.mem_map.2 ⟨j, List.mem_range.2 (by omega), rfl⟩⟩

theorem size_le_longest {a b : List Char} {m : Block} (h : m ∈ blocks a b) :
    m.size ≤ (longest a b).size := by
  rcases foldl_greater_cases (blocks a b) ⟨0, 0, 0⟩ with
    ⟨heq, hall⟩ | ⟨before, after, heq, -, hbefore, hafter⟩
  · rw [longest, heq]
    exact hall m h
  · rw [heq] at h
    rcases List.mem_append.1 h with h | h
    · exact Nat.le_of_lt (hbefore m h)
    · rcases List.mem_cons.1 h with rfl | h
      · exact Nat.le_refl _
      · exact hafter m h

/-- No shared text is longer than the block that is found. -/
theorem IsShared.length_le {a b : List Char} {i j : Nat} {t : List Char}
    (h : IsShared a b i j t) : t.length ≤ (longest a b).size := by
  by_cases hne : t = []
  · simp [hne]
  · exact Nat.le_trans (length_le_commonStart h.1 h.2) (size_le_longest (h.mem_blocks hne))

/-- A block that is found stands before all others that are as long. -/
theorem longest_before {a b : List Char} {m : Block} (hm : m ∈ blocks a b)
    (hpos : (longest a b).size ≠ 0) (hsize : m.size = (longest a b).size) :
    m = longest a b ∨ (longest a b).Before m := by
  rcases foldl_greater_cases (blocks a b) ⟨0, 0, 0⟩ with
    ⟨heq, -⟩ | ⟨before, after, heq, -, hbefore, -⟩
  · rw [longest, heq] at hpos
    exact absurd rfl hpos
  · change blocks a b = before ++ longest a b :: after at heq
    have hpairwise := pairwise_blocks a b
    rw [heq, List.pairwise_append, List.pairwise_cons] at hpairwise
    rw [heq] at hm
    rcases List.mem_append.1 hm with hm | hm
    · have hlt : m.size < (longest a b).size := hbefore m hm
      omega
    · rcases List.mem_cons.1 hm with rfl | hm
      · exact .inl rfl
      · exact .inr (hpairwise.2.1.1 m hm)

/-- The text of the block that is found stands at its places in both words. -/
theorem isShared_longest (a b : List Char) :
    IsShared a b (longest a b).left (longest a b).right ((longest a b).text a) := by
  refine ⟨List.take_prefix _ _, ?_⟩
  rcases List.mem_cons.1 (foldl_greater_mem (blocks a b) ⟨0, 0, 0⟩) with h | h
  · have hempty : (longest a b).text a = [] := by
      rw [Block.text, longest, h, List.take_zero]
    rw [hempty]
    exact List.nil_prefix
  · change longest a b ∈ blocks a b at h
    rw [blocks_eq] at h
    obtain ⟨i, -, h⟩ := List.mem_flatMap.1 h
    obtain ⟨j, -, h⟩ := List.mem_map.1 h
    rw [← h, Block.text, take_commonStart]
    exact List.take_prefix _ _

theorem length_text_longest (a b : List Char) :
    ((longest a b).text a).length = (longest a b).size := by
  have hle := (longest_le a b).1
  rw [Block.text, List.length_take, List.length_drop]
  omega

/-- **The block that is found is the first of the longest.** -/
theorem isFirstLongest_longest {a b : List Char} (h : (longest a b).size ≠ 0) :
    IsFirstLongest a b (longest a b).left (longest a b).right ((longest a b).text a) where
  ne_nil := by
    rw [← List.length_pos_iff, length_text_longest]
    omega
  shared := isShared_longest a b
  longest := by
    intro i j t ht
    rw [length_text_longest]
    exact ht.length_le
  first := by
    intro i j t ht hlength
    rw [length_text_longest] at hlength
    have hne : t ≠ [] := by
      rw [← List.length_pos_iff]
      omega
    -- the block that starts with the text is as long as the text, hence one of the longest
    have hmem := ht.mem_blocks hne
    have hge := length_le_commonStart ht.1 ht.2
    have hle := size_le_longest hmem
    rcases longest_before hmem h (by simp only at hle ⊢; omega) with heq | hbefore | ⟨hi, hj⟩
    · rw [← heq]
      exact .inr ⟨rfl, Nat.le_refl _⟩
    · exact .inl hbefore
    · exact .inr ⟨hi, Nat.le_of_lt hj⟩

/-- Without a block two words have no character in common. -/
theorem disjoint_of_longest {a b : List Char} (h : (longest a b).size = 0) : List.Disjoint a b := by
  intro c ha hb
  obtain ⟨s, s', rfl⟩ := List.append_of_mem ha
  obtain ⟨t, t', rfl⟩ := List.append_of_mem hb
  have hshared : IsShared (s ++ c :: s') (t ++ c :: t') s.length t.length [c] := by
    constructor <;> simp
  have hle := hshared.length_le
  rw [h] at hle
  simp at hle

/-! ### The matching of two words -/

theorem IsFirstLongest.unique {a b : List Char} {i j i' j' : Nat} {s s' : List Char}
    (h : IsFirstLongest a b i j s) (h' : IsFirstLongest a b i' j' s') :
    i = i' ∧ j = j' ∧ s = s' := by
  have hlength : s.length = s'.length :=
    Nat.le_antisymm (h'.longest i j s h.shared) (h.longest i' j' s' h'.shared)
  have hfirst := h.first i' j' s' h'.shared hlength.symm
  have hfirst' := h'.first i j s h.shared hlength
  obtain rfl : i = i' := by omega
  refine ⟨rfl, by omega, ?_⟩
  exact (List.prefix_of_prefix_length_le h.shared.1 h'.shared.1 (by omega)).eq_of_length hlength

theorem IsFirstLongest.not_disjoint {a b : List Char} {i j : Nat} {s : List Char}
    (h : IsFirstLongest a b i j s) : ¬ List.Disjoint a b := by
  intro hdisjoint
  obtain ⟨c, hc⟩ := List.exists_mem_of_ne_nil s h.ne_nil
  have ha : c ∈ a := List.mem_of_mem_drop (h.shared.1.subset hc)
  have hb : c ∈ b := List.mem_of_mem_drop (h.shared.2.subset hc)
  exact hdisjoint ha hb

/-- Two words have one matching at most. -/
theorem Matching.unique {a b : List Char} {blocks blocks' : List (List Char)}
    (h : Matching a b blocks) (h' : Matching a b blocks') : blocks = blocks' := by
  induction h generalizing blocks' with
  | none hdisjoint =>
      cases h' with
      | none _ => rfl
      | block hblock _ _ => exact absurd hdisjoint hblock.not_disjoint
  | block hblock _ _ ihleft ihright =>
      cases h' with
      | none hdisjoint => exact absurd hdisjoint hblock.not_disjoint
      | block hblock' hleft' hright' =>
          obtain ⟨rfl, rfl, rfl⟩ := hblock.unique hblock'
          rw [ihleft hleft', ihright hright']

/-- The matched length is that of the block that is found and of what lies on its two sides. -/
theorem matched_eq (a b : List Char) :
    matched a b = if (longest a b).size = 0 then 0 else
      (longest a b).size + matched (a.take (longest a b).left) (b.take (longest a b).right)
        + matched (a.drop ((longest a b).left + (longest a b).size))
          (b.drop ((longest a b).right + (longest a b).size)) := by
  rw [matched]

/-- Two words have a matching, as long as the matched length says. -/
theorem exists_matching (a b : List Char) :
    ∃ blocks, Matching a b blocks ∧ blocks.flatten.length = matched a b := by
  induction a, b using matched.induct with
  | case1 a b left right hlongest =>
      have hzero : (longest a b).size = 0 := by rw [hlongest]
      refine ⟨[], .none (disjoint_of_longest hzero), ?_⟩
      rw [matched_eq, if_pos hzero]
      rfl
  | case2 a b left right size hlongest hsize ihleft ihright =>
      obtain ⟨before, hbefore, hlength⟩ := ihleft
      obtain ⟨behind, hbehind, hlength'⟩ := ihright
      have hpos : (longest a b).size ≠ 0 := by rwa [hlongest]
      have hblock := isFirstLongest_longest hpos
      have htext := length_text_longest a b
      rw [matched_eq, if_neg hpos]
      simp only [hlongest] at hblock htext ⊢
      rw [← htext] at hbehind
      refine ⟨_, .block hblock hbefore hbehind, ?_⟩
      simp only [List.flatten_append, List.flatten_cons, List.length_append, hlength, hlength',
        htext]
      omega

/-- **The total length of a matching is the matched length.** -/
theorem Matching.length_eq {a b : List Char} {blocks : List (List Char)}
    (h : Matching a b blocks) : blocks.flatten.length = matched a b := by
  obtain ⟨blocks', h', hlength⟩ := exists_matching a b
  rw [h.unique h', hlength]

/-! ### The matched length -/

theorem eq_append_of_isPrefix_drop {s a : List Char} {i : Nat} (h : s <+: a.drop i) :
    a.take i ++ (s ++ a.drop (i + s.length)) = a := by
  obtain ⟨rest, hrest⟩ := h
  have hdrop : a.drop (i + s.length) = rest := by
    rw [← List.drop_drop, ← hrest, List.drop_left]
  rw [hdrop, hrest, List.take_append_drop]

/-- Put together, the blocks of a matching are what is left of either word when characters are left
out. -/
theorem Matching.sublist {a b : List Char} {blocks : List (List Char)} (h : Matching a b blocks) :
    blocks.flatten.Sublist a ∧ blocks.flatten.Sublist b := by
  induction h with
  | none _ => exact ⟨List.nil_sublist _, List.nil_sublist _⟩
  | @block a b i j s left right hblock _ _ ihleft ihright =>
      rw [List.flatten_append, List.flatten_cons]
      constructor
      · rw [← eq_append_of_isPrefix_drop hblock.shared.1]
        exact ihleft.1.append ((List.Sublist.refl s).append ihright.1)
      · rw [← eq_append_of_isPrefix_drop hblock.shared.2]
        exact ihleft.2.append ((List.Sublist.refl s).append ihright.2)

/-- The matched length is at most the length of either word. -/
theorem matched_le_min (a b : List Char) : matched a b ≤ min a.length b.length := by
  obtain ⟨blocks, hmatching, hlength⟩ := exists_matching a b
  rw [← hlength]
  exact Nat.le_min.2 ⟨hmatching.sublist.1.length_le, hmatching.sublist.2.length_le⟩

/-- A word that is compared with itself is one block. -/
theorem matched_self (a : List Char) : matched a a = a.length := by
  cases a with
  | nil =>
      have hmatching : Matching [] [] [] := .none (List.disjoint_nil_left [])
      exact hmatching.length_eq.symm
  | cons c a =>
      have hblock : IsFirstLongest (c :: a) (c :: a) 0 0 (c :: a) := by
        refine ⟨by simp, ⟨List.prefix_rfl, List.prefix_rfl⟩, ?_, ?_⟩
        · intro i j t ht
          have hle := ht.1.length_le
          rw [List.length_drop] at hle
          omega
        · intro i j t _ _
          omega
      have hmatching : Matching (c :: a) (c :: a) ([] ++ (c :: a) :: []) := by
        refine .block hblock (.none ?_) (.none ?_) <;> simp
      rw [← hmatching.length_eq]
      simp

/-- **The matched length is that of both words for equal words only.** -/
theorem matched_eq_iff (a b : List Char) : 2 * matched a b = a.length + b.length ↔ a = b := by
  constructor
  · intro h
    obtain ⟨blocks, hmatching, hlength⟩ := exists_matching a b
    obtain ⟨ha, hb⟩ := hmatching.sublist
    have hle := ha.length_le
    have hle' := hb.length_le
    rw [← ha.eq_of_length (by omega)]
    exact hb.eq_of_length (by omega)
  · rintro rfl
    rw [matched_self]
    omega

end Similarity

end Waymark
