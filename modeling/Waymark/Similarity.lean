/-
**Similarity of words by matching blocks.**

Two words are compared by the blocks of characters that they share.  The longest block that occurs
in both is taken first, of several the one that starts earliest in the first word and then earliest
in the second; what lies to the left of it in both words is compared in the same way, and so is what
lies to the right.  The *matched length* of two words is the total length of all blocks, and their
similarity is twice that length over the sum of their lengths.

Main definitions:

* `Similarity.longest` — the first of the longest shared blocks;
* `Similarity.matched` — the matched length of two words;
* `Similarity.Score` — a similarity as a fraction, with its order.
-/

set_option relaxedAutoImplicit false
set_option autoImplicit false

namespace Waymark

namespace Similarity

/-- The number of characters in which two words agree from their starts on. -/
def commonStart (a b : List Char) : Nat :=
  match a, b with
  | c :: a, d :: b => if c = d then commonStart a b + 1 else 0
  | _, _ => 0

/-- A block of characters that two words share. -/
structure Block where
  /-- Where the block starts in the first word. -/
  left : Nat
  /-- Where the block starts in the second word. -/
  right : Nat
  /-- The number of characters of the block. -/
  size : Nat
deriving DecidableEq

/-- The places of a word, counted from `n` on, each with what follows it. -/
def places (n : Nat) (cs : List Char) : List (Nat × List Char) :=
  match cs with
  | [] => []
  | c :: rest => (n, c :: rest) :: places (n + 1) rest

/-- The greatest shared block at each pair of places, ordered by the place in the first word and
then by the place in the second. -/
def blocks (a b : List Char) : List Block :=
  (places 0 a).flatMap fun (i, a') =>
    (places 0 b).map fun (j, b') => ⟨i, j, commonStart a' b'⟩

/-- The greater of two blocks, the first one if they are equally great. -/
def greater (best next : Block) : Block :=
  if best.size < next.size then next else best

/-- The first of the longest blocks that two words share. -/
def longest (a b : List Char) : Block :=
  (blocks a b).foldl greater ⟨0, 0, 0⟩

/-! ### The longest block lies in both words -/

theorem commonStart_le_left (a b : List Char) : commonStart a b ≤ a.length := by
  fun_induction commonStart a b <;> simp_all

theorem commonStart_le_right (a b : List Char) : commonStart a b ≤ b.length := by
  fun_induction commonStart a b <;> simp_all

theorem add_length_of_mem_places {n i : Nat} {cs rest : List Char} (h : (i, rest) ∈ places n cs) :
    i + rest.length = n + cs.length := by
  induction cs generalizing n with
  | nil => simp [places] at h
  | cons c cs ih =>
    simp only [places, List.mem_cons, Prod.mk.injEq] at h
    rcases h with ⟨rfl, rfl⟩ | h
    · rfl
    · have := ih h
      simp only [List.length_cons]
      omega

/-- A block of two words ends within both of them. -/
theorem le_of_mem_blocks {a b : List Char} {m : Block} (h : m ∈ blocks a b) :
    m.left + m.size ≤ a.length ∧ m.right + m.size ≤ b.length := by
  simp only [blocks, List.mem_flatMap, List.mem_map] at h
  obtain ⟨⟨i, a'⟩, hi, ⟨j, b'⟩, hj, rfl⟩ := h
  have h1 := add_length_of_mem_places hi
  have h2 := add_length_of_mem_places hj
  have h3 := commonStart_le_left a' b'
  have h4 := commonStart_le_right a' b'
  simp only
  omega

theorem foldl_greater_mem (bs : List Block) (best : Block) :
    bs.foldl greater best ∈ best :: bs := by
  induction bs generalizing best with
  | nil => simp
  | cons b bs ih =>
    have h := ih (greater best b)
    simp only [List.foldl_cons, List.mem_cons] at h ⊢
    rcases h with h | h
    · rw [h]
      unfold greater
      split <;> simp
    · exact .inr (.inr h)

/-- The longest block of two words ends within both of them. -/
theorem longest_le (a b : List Char) :
    (longest a b).left + (longest a b).size ≤ a.length ∧
      (longest a b).right + (longest a b).size ≤ b.length := by
  have h := foldl_greater_mem (blocks a b) ⟨0, 0, 0⟩
  rcases List.mem_cons.1 h with h | h
  · rw [longest, h]; simp
  · exact le_of_mem_blocks h

/-! ### The matched length -/

/-- The total length of the blocks that two words share. -/
def matched (a b : List Char) : Nat :=
  match _hm : longest a b with
  | ⟨left, right, size⟩ =>
    if size = 0 then 0
    else
      size + matched (a.take left) (b.take right)
        + matched (a.drop (left + size)) (b.drop (right + size))
termination_by a.length
decreasing_by
  all_goals
    have h := (longest_le a b).1
    simp only [_hm] at h
    simp only [List.length_take, List.length_drop]
    omega

/-! ### Scores -/

/-- The similarity of two words as a fraction: twice the matched length over the length of both. -/
structure Score where
  /-- The matched length. -/
  matched : Nat
  /-- The length of both words together. -/
  total : Nat
deriving DecidableEq

/-- The similarity of two words. -/
def score (a b : List Char) : Score := ⟨matched a b, a.length + b.length⟩

namespace Score

/-- Whether one score is below another, compared as fractions. -/
def below (s t : Score) : Bool := decide (s.matched * t.total < t.matched * s.total)

/-- Whether two scores are equal as fractions. -/
def level (s t : Score) : Bool := decide (s.matched * t.total = t.matched * s.total)

/-- Whether a score is at least three fifths. -/
def isClose (s : Score) : Bool := decide (3 * s.total ≤ 10 * s.matched)

end Score

end Similarity

end Waymark
