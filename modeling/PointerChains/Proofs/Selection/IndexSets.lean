import PointerChains.IndexSet

/-!
# Sets of indices are sets

Numbers are kept as bits, and a number is found by a division and a remainder.  No two numbers share
both, so that setting the bit of one never sets that of another, whether they lie in one word, on
either side of the border of two words, or behind the words that there are.

* `IndexSet.contains_insertAll` — a run of insertions adds just the numbers inserted;
* `IndexSet.contains_inserted_iff` — **a set contains exactly what was inserted.**
-/

namespace PointerChains.IndexSet

/-- The set after numbers were inserted one after the other. -/
def insertAll (s : IndexSet) (numbers : List Nat) : IndexSet := numbers.foldl insert s

/-- Inserting one number after the other adds these and no others. -/
theorem contains_insertAll (s : IndexSet) (numbers : List Nat) (i : Nat) :
    (s.insertAll numbers).contains i = (decide (i ∈ numbers) || s.contains i) := by
  induction numbers generalizing s with
  | nil => simp [insertAll]
  | cons j numbers ih =>
    have hrest : (s.insertAll (j :: numbers)).contains i =
        (decide (i ∈ numbers) || (s.insert j).contains i) := ih (s.insert j)
    rw [hrest, contains_insert]
    simp only [List.mem_cons, eq_comm (a := i), Bool.decide_or]
    rw [← Bool.or_assoc, Bool.or_comm (decide (i ∈ numbers))]

/-- **A set contains exactly what was inserted**, whatever room there was at first and in whatever
order the numbers came.  There is a set unless the number of its words cannot be found by a sum of
words. -/
theorem contains_inserted_iff (capacity : Nat) (numbers : List Nat) (i : Nat) :
    (withCapacity? capacity).map (fun s => (s.insertAll numbers).contains i) =
      if capacity + 63 < 2 ^ 64 then some (decide (i ∈ numbers)) else none := by
  cases hmade : withCapacity? capacity with
  | none =>
    rw [withCapacity?] at hmade
    split at hmade
    · cases hmade
    · rename_i hlarge
      rw [if_neg hlarge]
      rfl
  | some s =>
    have hempty := contains_of_withCapacity? hmade i
    rw [withCapacity?] at hmade
    split at hmade
    · rename_i hfits
      rw [if_pos hfits, Option.map_some, contains_insertAll, hempty, Bool.or_false]
    · cases hmade

/-- Numbers behind the room that there was at first, with their neighbours in other words. -/
example : ((withCapacity? 4).map fun s => [0, 1, 63, 64, 65, 200].filter
    (s.insertAll [1, 64, 200]).contains) = some [1, 64, 200] := by
  decide

end PointerChains.IndexSet
