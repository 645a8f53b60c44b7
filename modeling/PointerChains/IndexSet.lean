/-!
# Sets of indices

A set of small numbers is kept as the bits of 64-bit words.

* `IndexSet` with `withCapacity?`, `contains` and `insert`;
* `IndexSet.contains_eq` — a number is tested by shifting its bit to the lowest place;
* `IndexSet.contains_of_withCapacity?` — a new set is empty;
* `IndexSet.contains_insert` — inserting adds one number and changes nothing else.
-/

namespace PointerChains

/-- A set of numbers; number `i` is bit `i % 64` of word `i / 64`. -/
structure IndexSet where
  words : Array (BitVec 64) := #[]
  deriving Inhabited

namespace IndexSet

/-- The empty set, with words for the numbers below `count`; `none` if the number of words is found
by a sum that leaves the range of words. -/
def withCapacity? (count : Nat) : Option IndexSet :=
  if count + 63 < 2 ^ 64 then some ⟨Array.replicate ((count + 63) / 64) 0⟩ else none

/-- Whether a number is in the set. -/
def contains (s : IndexSet) (i : Nat) : Bool :=
  s.words[i / 64]?.any fun word : BitVec 64 => (1#64 &&& (word >>> (i % 64))) == 1#64

/-- The words, with zero words added until there are `count`. -/
def grow (s : IndexSet) (count : Nat) : Array (BitVec 64) :=
  s.words ++ Array.replicate (count - s.words.size) 0

/-- The set with one more number. -/
def insert (s : IndexSet) (i : Nat) : IndexSet :=
  ⟨(s.grow (i / 64 + 1)).modify (i / 64) (· ||| 1#64 <<< (i % 64))⟩

/-- The lowest bit of a shifted word is the bit that was shifted there. -/
theorem contains_eq (s : IndexSet) (i : Nat) :
    s.contains i = s.words[i / 64]?.any fun word => word.getLsbD (i % 64) := by
  have hbit : ∀ word : BitVec 64,
      ((1#64 &&& (word >>> (i % 64))) == 1#64) = word.getLsbD (i % 64) := by
    intro word
    rw [BitVec.and_comm, BitVec.and_one_eq_setWidth_ofBool_getLsbD, BitVec.getLsbD_ushiftRight,
      Nat.add_zero]
    cases word.getLsbD (i % 64) <;> rfl
  simp only [contains, hbit]

theorem contains_empty (i : Nat) : ({} : IndexSet).contains i = false := rfl

theorem contains_of_withCapacity? {count : Nat} {s : IndexSet} (h : withCapacity? count = some s)
    (i : Nat) : s.contains i = false := by
  rw [withCapacity?] at h
  split at h
  · cases h
    simp only [contains_eq, Array.getElem?_replicate]
    split <;> simp
  · cases h

theorem lt_size_grow (s : IndexSet) (n : Nat) : n < (s.grow (n + 1)).size := by
  simp only [grow, Array.size_append, Array.size_replicate]
  omega

theorem any_grow (s : IndexSet) (count i : Nat) :
    ((s.grow count)[i / 64]?.any fun word => word.getLsbD (i % 64)) = s.contains i := by
  simp only [grow, contains_eq]
  rcases Nat.lt_or_ge (i / 64) s.words.size with h | h
  · rw [Array.getElem?_append_left h]
  · rw [Array.getElem?_append_right h, Array.getElem?_eq_none h, Array.getElem?_replicate]
    split <;> simp

theorem contains_insert (s : IndexSet) (i j : Nat) :
    (s.insert i).contains j = (decide (i = j) || s.contains j) := by
  rw [← any_grow s (i / 64 + 1) j]
  simp only [insert, contains_eq, Array.getElem?_modify]
  by_cases hw : i / 64 = j / 64
  · have hlt : j / 64 < (s.grow (i / 64 + 1)).size := by
      rw [← hw]
      exact lt_size_grow s (i / 64)
    rw [if_pos hw, Array.getElem?_eq_getElem hlt]
    have hshift : ∀ word : BitVec 64, (word ||| 1#64 <<< (i % 64)).getLsbD (j % 64) =
        (word.getLsbD (j % 64) || decide (i % 64 = j % 64)) := by
      intro word
      rw [BitVec.getLsbD_or, ← BitVec.twoPow_eq, BitVec.getLsbD_twoPow]
      simp [Nat.mod_lt]
    simp only [Option.map_some, Option.any_some, hshift]
    have hiff : (i % 64 = j % 64) ↔ i = j := by omega
    simp [hiff, Bool.or_comm]
  · have hne : i ≠ j := fun h => hw (by rw [h])
    simp [hw, hne]

end IndexSet

end PointerChains
