import PointerChains.Address.Basic
import PointerChains.Bisect

/-!
# Searches among starts

A search for an address among rising starts answers with the place where the address stands, or
with the place where it would have to be put.  How it goes about that is of no account: the starts
settle the answer, and what a look-up needs of it is one number, that of the starts at or below the
address.

* `Sought` — the answer of a search, and `Sought.IsFor`, that it is right;
* `Sought.exists_isFor`, `Sought.IsFor.le_iff_lt_upTo` — there is a right answer, and it tells which
  starts lie at or below the address;
* `Sought.IsFor.bisect_eq`, `Sought.IsFor.takeWhile_eq` — halving and going through the starts one
  by one tell the same.
-/

namespace PointerChains

/-- What a search among things in rising order answers. -/
inductive Sought where
  /-- The thing stands at this place. -/
  | found (n : Nat)
  /-- The thing is not there, and would have to be put at this place. -/
  | missing (n : Nat)
  deriving DecidableEq, Repr

namespace Sought

variable {α : Type} {starts : List Address} {a : Address} {w : Sought}

/-- The answer is right for an address among starts: the address stands at the place, or what
stands before the place is below it and what stands from there on is above it. -/
def IsFor (starts : List Address) (a : Address) : Sought → Prop
  | found n => starts[n]? = some a
  | missing n => n ≤ starts.length ∧ (∀ b ∈ starts.take n, b < a) ∧ ∀ b ∈ starts.drop n, a < b

instance (starts : List Address) (a : Address) : (w : Sought) → Decidable (w.IsFor starts a)
  | found n => inferInstanceAs (Decidable (starts[n]? = some a))
  | missing n => inferInstanceAs (Decidable
      (n ≤ starts.length ∧ (∀ b ∈ starts.take n, b < a) ∧ ∀ b ∈ starts.drop n, a < b))

/-- The number of things at or below the one that was sought. -/
def upTo : Sought → Nat
  | found n => n + 1
  | missing n => n

/-- The place of the last thing at or below the one that was sought. -/
def last? : Sought → Option Nat
  | found n => some n
  | missing 0 => none
  | missing (n + 1) => some n

/-- Puts a thing at the place of the one that was sought, or in front of what is there. -/
def put (x : α) (xs : List α) : Sought → List α
  | found n => xs.set n x
  | missing n => xs.insertIdx n x

theorem last?_eq_some_iff {n : Nat} : w.last? = some n ↔ w.upTo = n + 1 := by
  cases w with
  | found m => simp [last?, upTo]
  | missing m => cases m <;> simp [last?, upTo]

theorem last?_eq_none_iff : w.last? = none ↔ w.upTo = 0 := by
  cases w with
  | found m => simp [last?, upTo]
  | missing m => cases m <;> simp [last?, upTo]

theorem eq_missing_of_upTo (h : w.upTo = 0) : w = missing 0 := by
  cases w with
  | found n => cases h
  | missing n => exact congrArg missing h

/-! ### Right answers -/

/-- A place behind the first start is right exactly if that start is below the address, and the
place is right for the others. -/
theorem isFor_missing_cons_iff {b : Address} {n : Nat} :
    (missing (n + 1)).IsFor (b :: starts) a ↔ b < a ∧ (missing n).IsFor starts a := by
  simp only [IsFor, List.length_cons, Nat.add_le_add_iff_right, List.take_succ_cons,
    List.forall_mem_cons, List.drop_succ_cons]
  constructor
  · rintro ⟨hn, ⟨hb, hbelow⟩, habove⟩
    exact ⟨hb, hn, hbelow, habove⟩
  · rintro ⟨hb, hn, hbelow, habove⟩
    exact ⟨hn, ⟨hb, hbelow⟩, habove⟩

/-- There is a right answer. -/
theorem exists_isFor (hrising : starts.Pairwise (· < ·)) (a : Address) :
    ∃ w : Sought, w.IsFor starts a := by
  induction starts with
  | nil => exact ⟨missing 0, by simp [IsFor]⟩
  | cons b starts ih =>
    obtain ⟨habove, hrising⟩ := List.pairwise_cons.1 hrising
    simp only [Address.lt_iff_toNat_lt] at habove
    rcases Nat.lt_trichotomy a.toNat b.toNat with hlt | heq | hlt
    · refine ⟨missing 0, Nat.zero_le _, by simp, ?_⟩
      intro c hc
      rw [Address.lt_iff_toNat_lt]
      rcases List.mem_cons.1 hc with rfl | hc
      · exact hlt
      · exact Nat.lt_trans hlt (habove c hc)
    · exact ⟨found 0, congrArg some (Address.toNat_injective heq.symm)⟩
    · obtain ⟨w, hw⟩ := ih hrising
      cases w with
      | found n => exact ⟨found (n + 1), hw⟩
      | missing n =>
        exact ⟨missing (n + 1), isFor_missing_cons_iff.2 ⟨Address.lt_iff_toNat_lt.2 hlt, hw⟩⟩

theorem IsFor.upTo_le (h : w.IsFor starts a) : w.upTo ≤ starts.length := by
  cases w with
  | found n => exact (List.getElem?_eq_some_iff.1 h).1
  | missing n => exact h.1

/-- The starts at or below the address are the first ones, and the answer tells their number. -/
theorem IsFor.le_iff_lt_upTo (h : w.IsFor starts a) (hrising : starts.Pairwise (· < ·)) {i : Nat}
    (hi : i < starts.length) : starts[i] ≤ a ↔ i < w.upTo := by
  rw [Address.le_iff_toNat_le]
  cases w with
  | found n =>
    obtain ⟨hn, rfl⟩ := List.getElem?_eq_some_iff.1 h
    have hrising := List.pairwise_iff_getElem.1 hrising
    show _ ↔ i < n + 1
    rcases Nat.lt_trichotomy i n with hlt | rfl | hlt
    · have := Address.lt_iff_toNat_lt.1 (hrising i n hi hn hlt)
      omega
    · omega
    · have := Address.lt_iff_toNat_lt.1 (hrising n i hn hi hlt)
      omega
  | missing n =>
    obtain ⟨hn, hbelow, habove⟩ := h
    show _ ↔ i < n
    rcases Nat.lt_or_ge i n with hlt | hge
    · have hmem : starts[i] ∈ starts.take n := List.mem_take_iff_getElem.2 ⟨i, by omega, rfl⟩
      have := Address.lt_iff_toNat_lt.1 (hbelow starts[i] hmem)
      omega
    · have hmem : starts[i] ∈ starts.drop n :=
        List.mem_drop_iff_getElem.2 ⟨i - n, by omega, by simp [Nat.add_sub_cancel' hge]⟩
      have := Address.lt_iff_toNat_lt.1 (habove starts[i] hmem)
      omega

/-- All right answers tell the same number. -/
theorem IsFor.upTo_eq {v : Sought} (hv : v.IsFor starts a) (hw : w.IsFor starts a)
    (hrising : starts.Pairwise (· < ·)) : v.upTo = w.upTo := by
  have hle := hv.upTo_le
  have hle' := hw.upTo_le
  rcases Nat.lt_trichotomy v.upTo w.upTo with hlt | heq | hlt
  · have hi : v.upTo < starts.length := by omega
    have hiff := (hv.le_iff_lt_upTo hrising hi).symm.trans (hw.le_iff_lt_upTo hrising hi)
    omega
  · exact heq
  · have hi : w.upTo < starts.length := by omega
    have hiff := (hv.le_iff_lt_upTo hrising hi).symm.trans (hw.le_iff_lt_upTo hrising hi)
    omega

/-- An address that stands among the starts is found. -/
theorem IsFor.eq_found (h : w.IsFor starts a) (hrising : starts.Pairwise (· < ·)) {n : Nat}
    (hn : starts[n]? = some a) : w = found n := by
  have hfound : (found n).IsFor starts a := hn
  have hupTo : w.upTo = n + 1 := h.upTo_eq hfound hrising
  cases w with
  | found m => exact congrArg found (Nat.succ.inj hupTo)
  | missing m =>
    -- the address would stand before the place where it is missing
    obtain rfl : m = n + 1 := hupTo
    obtain ⟨hlt, heq⟩ := List.getElem?_eq_some_iff.1 hn
    have hbelow := h.2.1 a (List.mem_take_iff_getElem.2 ⟨n, by omega, heq⟩)
    exact absurd rfl (Address.ne_of_lt hbelow)

/-- Halving finds the number of starts at or below the address. -/
theorem IsFor.bisect_eq {start : α → Address} {things : Array α}
    (h : w.IsFor (things.toList.map start) a)
    (hrising : (things.toList.map start).Pairwise (· < ·)) :
    bisect (fun x => start x ≤ a) things = w.upTo := by
  have hle := h.upTo_le
  rw [List.length_map, Array.length_toList] at hle
  refine bisect_eq_of_border hle ?_
  intro i hi
  have hiff := h.le_iff_lt_upTo hrising (i := i) (by simpa using hi)
  rw [List.getElem_map, Array.getElem_toList] at hiff
  rw [decide_eq_true_eq, hiff]

theorem takeWhile_eq_take {p : α → Bool} {xs : List α} {n : Nat} (hn : n ≤ xs.length)
    (hborder : ∀ i (_ : i < xs.length), p xs[i] ↔ i < n) : xs.takeWhile p = xs.take n := by
  induction xs generalizing n with
  | nil => simp
  | cons x xs ih =>
    have hx : p x ↔ 0 < n := hborder 0 (Nat.zero_lt_succ _)
    cases n with
    | zero => rw [List.takeWhile_cons_of_neg (by simpa using hx), List.take_zero]
    | succ n =>
      rw [List.takeWhile_cons_of_pos (hx.2 (Nat.zero_lt_succ n)), List.take_succ_cons]
      refine congrArg (x :: ·) (ih (Nat.le_of_succ_le_succ hn) ?_)
      intro i hi
      have hnext := hborder (i + 1) (Nat.succ_lt_succ hi)
      rwa [List.getElem_cons_succ, Nat.add_lt_add_iff_right] at hnext

/-- Going through the starts one by one finds it too. -/
theorem IsFor.takeWhile_eq {start : α → Address} {things : List α}
    (h : w.IsFor (things.map start) a) (hrising : (things.map start).Pairwise (· < ·)) :
    things.takeWhile (fun x => start x ≤ a) = things.take w.upTo := by
  have hle := h.upTo_le
  rw [List.length_map] at hle
  refine takeWhile_eq_take hle ?_
  intro i hi
  have hiff := h.le_iff_lt_upTo hrising (i := i) (by simpa using hi)
  rw [List.getElem_map] at hiff
  rw [decide_eq_true_eq, hiff]

end Sought

end PointerChains
