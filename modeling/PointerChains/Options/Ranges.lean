import PointerChains.Error

/-!
# Lists of ranges

A list of ranges as a setting is kept in order, and its ranges are non-empty and disjoint.

* `Ranges.normalize` — sorts a list, or reports an empty range or two that overlap;
* `Ranges.firstEmpty?_eq_none_iff`, `Ranges.firstOverlap?_eq_none_iff` — when nothing is reported.
-/

namespace PointerChains.Ranges

/-- The first range without an address. -/
def firstEmpty? (ranges : List AddressRange) : Option AddressRange :=
  ranges.find? fun r => r.stop ≤ r.start

/-- The first two neighbours of which the second starts before the first ends. -/
def firstOverlap? : List AddressRange → Option (AddressRange × AddressRange)
  | r :: s :: rest => if s.start < r.stop then some (r, s) else firstOverlap? (s :: rest)
  | _ => none

/-- The ranges in order, if none is empty and no two overlap; touching ranges do not. -/
def normalize (setting : RangeSetting) (ranges : List AddressRange) :
    Except Error (List AddressRange) :=
  let sorted := ranges.mergeSort AddressRange.le
  match firstEmpty? sorted with
  | some r => .error (.invalidOption (.emptyRange setting r))
  | none =>
    match firstOverlap? sorted with
    | some (r, s) => .error (.invalidOption (.overlappingRanges setting r s))
    | none => .ok sorted

theorem firstEmpty?_eq_none_iff {ranges : List AddressRange} :
    firstEmpty? ranges = none ↔ ∀ r ∈ ranges, ¬r.stop ≤ r.start := by
  simp [firstEmpty?, List.find?_eq_none]

theorem firstOverlap?_eq_none_iff {ranges : List AddressRange} :
    firstOverlap? ranges = none ↔
      ∀ n r s, ranges[n]? = some r → ranges[n + 1]? = some s → ¬s.start < r.stop := by
  fun_induction firstOverlap? ranges with
  | case1 r s rest h =>
    simp only [reduceCtorEq, false_iff]
    exact fun hall => hall 0 r s rfl rfl h
  | case2 r s rest h ih =>
    rw [ih]
    constructor
    · intro hall n x y hx hy
      cases n with
      | zero =>
        cases hx; cases hy
        exact h
      | succ n => exact hall n x y hx hy
    · exact fun hall n x y hx hy => hall (n + 1) x y hx hy
  | case3 ranges h =>
    simp only [true_iff]
    intro n r s hr hs
    exfalso
    match ranges, h with
    | [], _ => simp at hr
    | [_], _ => simp at hs
    | r :: s :: rest, h => exact h r s rest rfl

end PointerChains.Ranges
