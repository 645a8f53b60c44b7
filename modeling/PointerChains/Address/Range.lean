import PointerChains.Address.Text
import PointerChains.Bisect

/-!
# Address ranges

A range is half-open: it holds its start and the addresses up to its end.  A range need not be
well-formed; an inverted or empty one has size zero and holds nothing.

* `AddressRange` with `size`, `contains`, `covers` and its text;
* `AddressRange.find?` — the range that holds an address, among ranges in order of their starts.
-/

namespace PointerChains

/-- The addresses from `start` up to, and not including, `stop`. -/
structure AddressRange where
  start : Address
  /-- The address after the last one. -/
  stop : Address
  deriving DecidableEq, Hashable, Inhabited, Repr

namespace AddressRange

/-- The number of addresses in the range. -/
def size (r : AddressRange) : Nat := r.stop.toNat - r.start.toNat

/-- Whether an address lies in the range. -/
def contains (r : AddressRange) (a : Address) : Bool := r.start ≤ a && a < r.stop

/-- Whether `other` lies between the ends of this range. -/
def covers (r other : AddressRange) : Bool := r.start ≤ other.start && other.stop ≤ r.stop

/-- The shown form of a range. -/
def text (r : AddressRange) : String := s!"{r.start.text}-{r.stop.text}"

instance : ToString AddressRange := ⟨text⟩

/-- Ranges are ordered by their starts, and by their ends where those agree. -/
def le (r s : AddressRange) : Bool := r.start < s.start || (r.start == s.start && r.stop ≤ s.stop)

theorem size_lt (r : AddressRange) : r.size < 2 ^ 64 :=
  Nat.lt_of_le_of_lt (Nat.sub_le _ _) r.stop.toNat_lt

theorem contains_iff {r : AddressRange} {a : Address} :
    r.contains a ↔ r.start.toNat ≤ a.toNat ∧ a.toNat < r.stop.toNat := by
  simp [contains, Address.le_iff_toNat_le, Address.lt_iff_toNat_lt]

/-- The position of the element whose range holds `a`, for elements in order of their starts.
Only the last one that starts at or before `a` can be it. -/
def findIdx? {α : Type} (range : α → AddressRange) (things : Array α) (a : Address) :
    Option Nat :=
  match bisect (fun x => (range x).start ≤ a) things with
  | 0 => none
  | n + 1 => if (things[n]?.any fun x => (range x).contains a) then some n else none

/-- The element whose range holds `a`, for elements in order of their starts. -/
def find? {α : Type} (range : α → AddressRange) (things : Array α) (a : Address) : Option α :=
  (findIdx? range things a).bind fun n => things[n]?

end AddressRange

end PointerChains
