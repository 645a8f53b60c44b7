/-!
# Bisection

Where a test holds on a first part of an array and fails on the rest, the border between the two
is found by halving.

* `bisect` — the border;
* `bisect_le` — the border lies in the array, at its end at most;
* `bisect_spec` — every element before the border passes, and none from it on;
* `bisect_eq_of_border` — there is no other border.
-/

namespace PointerChains

variable {α : Type}

/-- Halves the part of the array from `lo` to `hi` until the border is left. -/
def bisectIn (p : α → Bool) (xs : Array α) (lo hi : Nat) (h : hi ≤ xs.size) : Nat :=
  if hlt : lo < hi then
    let mid := lo + (hi - lo) / 2
    have hmid : mid < xs.size := by omega
    if p xs[mid] then bisectIn p xs (mid + 1) hi h
    else bisectIn p xs lo mid (by omega)
  else lo
termination_by hi - lo

/-- The number of elements before the border, for a test that no element passes after one that
fails. -/
def bisect (p : α → Bool) (xs : Array α) : Nat :=
  bisectIn p xs 0 xs.size (Nat.le_refl _)

/-- A test passes on a first part of the array only. -/
def Splits (p : α → Bool) (xs : Array α) : Prop :=
  ∀ i j (_ : i ≤ j) (hi : i < xs.size) (hj : j < xs.size), p xs[j] → p xs[i]

theorem bisectIn_spec {p : α → Bool} {xs : Array α} (hs : Splits p xs) (lo hi : Nat)
    (h : hi ≤ xs.size) (hle : lo ≤ hi)
    (hlo : ∀ i (_ : i < xs.size), i < lo → p xs[i])
    (hhi : ∀ i (_ : i < xs.size), hi ≤ i → ¬p xs[i]) :
    bisectIn p xs lo hi h ≤ hi ∧
      ∀ i (_ : i < xs.size), p xs[i] ↔ i < bisectIn p xs lo hi h := by
  fun_induction bisectIn p xs lo hi h with
  | case1 lo hi h hlt mid hmid hp ih =>
    exact ih (by omega) (fun i hi _ => hs i mid (by omega) hi hmid hp) hhi
  | case2 lo hi h hlt mid hmid hp ih =>
    have := ih (by omega) hlo fun i hi hmi hpi => hp (hs mid i hmi hmid hi hpi)
    exact ⟨by omega, this.2⟩
  | case3 lo hi h hlt =>
    refine ⟨hle, fun i hi => ⟨fun hpi => ?_, hlo i hi⟩⟩
    rcases Nat.lt_or_ge i lo with hl | hl
    · exact hl
    · exact absurd hpi (hhi i hi (by omega))

theorem bisect_le {p : α → Bool} {xs : Array α} (hs : Splits p xs) : bisect p xs ≤ xs.size :=
  (bisectIn_spec hs 0 xs.size _ (Nat.zero_le _) (fun _ _ h => absurd h (Nat.not_lt_zero _))
    fun _ h h' => absurd h (Nat.not_lt.2 h')).1

theorem bisect_spec {p : α → Bool} {xs : Array α} (hs : Splits p xs) {i : Nat}
    (hi : i < xs.size) : p xs[i] ↔ i < bisect p xs :=
  (bisectIn_spec hs 0 xs.size _ (Nat.zero_le _) (fun _ _ h => absurd h (Nat.not_lt_zero _))
    fun _ h h' => absurd h (Nat.not_lt.2 h')).2 i hi

theorem bisect_eq_of_border {p : α → Bool} {xs : Array α} {n : Nat} (hn : n ≤ xs.size)
    (hborder : ∀ i (_ : i < xs.size), p xs[i] ↔ i < n) : bisect p xs = n := by
  have hs : Splits p xs := by
    intro i j hle hi hj hpass
    rw [hborder j hj] at hpass
    exact (hborder i hi).2 (Nat.lt_of_le_of_lt hle hpass)
  have hsize := bisect_le hs
  -- either border would be an element that passes and does not
  rcases Nat.lt_trichotomy (bisect p xs) n with hlt | heq | hlt
  · have hiff := (bisect_spec hs (Nat.lt_of_lt_of_le hlt hn)).symm.trans (hborder _ _)
    omega
  · exact heq
  · have hiff := (bisect_spec hs (Nat.lt_of_lt_of_le hlt hsize)).symm.trans (hborder _ _)
    omega

end PointerChains
