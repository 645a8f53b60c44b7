import Mathlib
import PointerChains.Options.Basic
import PointerChains.Proofs.Map.Construction

/-!
# Lists of ranges as settings

A list of ranges is sorted before it is looked at, by starts and then by ends.  Only neighbours are
compared then.  That is enough, since no range is empty: a range that ends where its neighbour
starts, or before, ends before all that follow.

* `AddressRange.pairwise_mergeSort` — the order that the ranges are put in;
* `Ranges.pairwise_stop_le`, `Ranges.firstOverlap?_of_apart` — neighbours and all others;
* `Ranges.exists_normalize_iff` — which lists are taken;
* `Ranges.refused_of_normalize` — what a refusal names;
* `Options.changeRanges_spec` — **a setting takes exactly the lists of non-empty ranges that are
  apart, keeps them in order, and stays as it is otherwise.**
-/

namespace PointerChains

/-! ### Ranges in order -/

namespace AddressRange

theorem le_iff {r s : AddressRange} : r.le s ↔ r.start.toNat < s.start.toNat ∨
    (r.start.toNat = s.start.toNat ∧ r.stop.toNat ≤ s.stop.toNat) := by
  have heq : r.start = s.start ↔ r.start.toNat = s.start.toNat :=
    ⟨congrArg Address.toNat, Address.toNat_injective⟩
  simp only [le, Bool.or_eq_true, Bool.and_eq_true, decide_eq_true_eq, beq_iff_eq,
    Address.lt_iff_toNat_lt, Address.le_iff_toNat_le, heq]

theorem pairwise_mergeSort (ranges : List AddressRange) :
    (ranges.mergeSort le).Pairwise fun r s => r.le s := by
  refine List.pairwise_mergeSort ?_ ?_ ranges
  · intro r s t hrs hst
    rw [le_iff] at hrs hst ⊢
    omega
  · intro r s
    rw [Bool.or_eq_true, le_iff, le_iff]
    omega

theorem start_le_of_le {r s : AddressRange} (h : r.le s) : r.start.toNat ≤ s.start.toNat := by
  rw [le_iff] at h
  omega

end AddressRange

namespace Ranges

variable {setting : RangeSetting} {ranges stored : List AddressRange} {cause : Error}

/-! ### Neighbours -/

/-- Where no range is empty, ranges that do not overlap their neighbours end before all that
follow. -/
theorem pairwise_stop_le (hproper : ∀ r ∈ ranges, r.start < r.stop)
    (h : firstOverlap? ranges = none) :
    ranges.Pairwise fun r s => r.stop.toNat ≤ s.start.toNat := by
  fun_induction firstOverlap? ranges with
  | case1 r s rest hlt => cases h
  | case2 r s rest hge ih =>
    have hrest := ih (fun t ht => hproper t (List.mem_cons_of_mem r ht)) h
    have hstop : r.stop.toNat ≤ s.start.toNat := by
      rw [Address.lt_iff_toNat_lt] at hge
      omega
    have hsize : s.start.toNat < s.stop.toNat :=
      Address.lt_iff_toNat_lt.1 (hproper s (by simp))
    refine .cons ?_ hrest
    intro t ht
    rcases List.mem_cons.1 ht with rfl | ht
    · exact hstop
    · -- the range between them holds an address
      have hnext := (List.pairwise_cons.1 hrest).1 t ht
      omega
  | case3 ranges hshort =>
    cases ranges with
    | nil => exact .nil
    | cons r rest =>
      cases rest with
      | nil => exact List.pairwise_singleton ..
      | cons s rest => exact absurd rfl (hshort r s rest)

/-- Ranges in order that are apart do not overlap their neighbours. -/
theorem firstOverlap?_of_apart (hproper : ∀ r ∈ ranges, r.start < r.stop)
    (hsorted : ranges.Pairwise fun r s => r.le s)
    (hapart : ranges.Pairwise fun r s => r.Apart s) : firstOverlap? ranges = none := by
  rw [firstOverlap?_eq_none_iff]
  intro n r s hr hs
  have hstarts := hsorted.imp AddressRange.start_le_of_le
  exact AddressRange.not_overlap_of_apart hproper hstarts hapart hr hs

theorem firstOverlap?_eq_some {r s : AddressRange} (h : firstOverlap? ranges = some (r, s)) :
    [r, s].Sublist ranges ∧ s.start < r.stop := by
  fun_induction firstOverlap? ranges with
  | case1 r' s' rest hlt =>
    cases h
    exact ⟨(List.nil_sublist rest).cons_cons _ |>.cons_cons _, hlt⟩
  | case2 r' s' rest hge ih =>
    obtain ⟨hsub, hlt⟩ := ih h
    exact ⟨hsub.cons r', hlt⟩
  | case3 => cases h

/-! ### Lists that are taken -/

theorem normalize_eq_ok_iff : normalize setting ranges = .ok stored ↔
    (∀ r ∈ ranges, r.start < r.stop) ∧ firstOverlap? stored = none ∧
      stored = ranges.mergeSort AddressRange.le := by
  have hproper : firstEmpty? (ranges.mergeSort AddressRange.le) = none ↔
      ∀ r ∈ ranges, r.start < r.stop := by
    rw [firstEmpty?_eq_none_iff]
    simp only [List.mem_mergeSort, Address.le_iff_toNat_le, Address.lt_iff_toNat_lt, Nat.not_le]
  rw [← hproper, normalize]
  cases firstEmpty? (ranges.mergeSort AddressRange.le) with
  | some r => simp
  | none =>
    cases hoverlap : firstOverlap? (ranges.mergeSort AddressRange.le) with
    | some pair =>
      simp only [reduceCtorEq, true_and, false_iff, not_and]
      rintro hnone rfl
      rw [hoverlap] at hnone
      cases hnone
    | none =>
      simp only [Except.ok.injEq, true_and]
      constructor
      · rintro rfl
        exact ⟨hoverlap, rfl⟩
      · exact fun h => h.2.symm

/-- **A list is taken exactly if its ranges hold addresses and are apart.** -/
theorem exists_normalize_iff : (∃ stored, normalize setting ranges = .ok stored) ↔
    (∀ r ∈ ranges, r.start < r.stop) ∧ ranges.Pairwise fun r s => r.Apart s := by
  have hperm := List.mergeSort_perm ranges AddressRange.le
  have hsorted := AddressRange.pairwise_mergeSort ranges
  have hmem : ∀ r ∈ ranges.mergeSort AddressRange.le, r ∈ ranges := fun r => List.mem_mergeSort.1
  simp only [normalize_eq_ok_iff, exists_and_left, exists_eq_right]
  refine and_congr_right fun hproper => ?_
  rw [← hperm.pairwise_iff fun h => h.symm]
  constructor
  · intro hnone
    have hstops := pairwise_stop_le (fun r hr => hproper r (hmem r hr)) hnone
    refine (hsorted.and hstops).imp_of_mem ?_
    intro r s _ hs h
    exact (AddressRange.apart_iff (hproper s (hmem s hs)) (AddressRange.start_le_of_le h.1)).2 h.2
  · exact firstOverlap?_of_apart (fun r hr => hproper r (hmem r hr)) hsorted

/-- The ranges hold addresses, and each ends before the next one starts. -/
def InOrder (ranges : List AddressRange) : Prop :=
  ranges.Pairwise fun r s => r.start < s.start ∧ r.stop ≤ s.start

theorem inOrder_of_normalize (h : normalize setting ranges = .ok stored) :
    stored.Perm ranges ∧ InOrder stored := by
  obtain ⟨hproper, hnone, rfl⟩ := normalize_eq_ok_iff.1 h
  have hproper' : ∀ r ∈ ranges.mergeSort AddressRange.le, r.start < r.stop :=
    fun r hr => hproper r (List.mem_mergeSort.1 hr)
  refine ⟨List.mergeSort_perm .., (pairwise_stop_le hproper' hnone).imp_of_mem ?_⟩
  intro r s hr _ hle
  have hlt := Address.lt_iff_toNat_lt.1 (hproper' r hr)
  exact ⟨Address.lt_iff_toNat_lt.2 (by omega), Address.le_iff_toNat_le.2 hle⟩

/-- Ranges in order have distinct starts, so there is one way to sort them by their starts. -/
theorem InOrder.eq_of_perm {others : List AddressRange} (h : InOrder stored)
    (hperm : others.Perm stored)
    (hsorted : others.Pairwise fun r s => r.start ≤ s.start) : others = stored := by
  have hstarts : (stored.map AddressRange.start).Nodup := by
    rw [List.nodup_iff_pairwise_ne, List.pairwise_map]
    exact h.imp fun hrs => Address.ne_of_lt hrs.1
  have hstored : stored.Pairwise fun r s => r.start ≤ s.start :=
    h.imp fun hrs => Address.le_iff_toNat_le.2 (Nat.le_of_lt (Address.lt_iff_toNat_lt.1 hrs.1))
  refine List.Perm.eq_of_pairwise ?_ hsorted hstored hperm
  intro r s hr hs hrs hsr
  rw [Address.le_iff_toNat_le] at hrs hsr
  exact List.inj_on_of_nodup_map hstarts (hperm.mem_iff.1 hr) hs
    (Address.toNat_injective (Nat.le_antisymm hrs hsr))

/-- What speaks against a list for a setting: a range without addresses, or two that overlap. -/
inductive Refused (setting : RangeSetting) (ranges : List AddressRange) : Error → Prop where
  | empty {r : AddressRange} : r ∈ ranges → ¬r.start < r.stop →
      Refused setting ranges (.invalidOption (.emptyRange setting r))
  | overlap {r s : AddressRange} : [r, s].Subperm ranges → ¬r.Apart s →
      Refused setting ranges (.invalidOption (.overlappingRanges setting r s))

theorem refused_of_normalize (h : normalize setting ranges = .error cause) :
    Refused setting ranges cause := by
  rw [normalize] at h
  cases hempty : firstEmpty? (ranges.mergeSort AddressRange.le) with
  | some r =>
    simp only [hempty, Except.error.injEq] at h
    subst h
    have hmem := List.mem_of_find?_eq_some hempty
    have hstop := List.find?_some hempty
    rw [decide_eq_true_eq, Address.le_iff_toNat_le] at hstop
    refine .empty (List.mem_mergeSort.1 hmem) ?_
    rw [Address.lt_iff_toNat_lt]
    omega
  | none =>
    simp only [hempty] at h
    cases hoverlap : firstOverlap? (ranges.mergeSort AddressRange.le) with
    | none =>
      simp only [hoverlap] at h
      cases h
    | some pair =>
      obtain ⟨r, s⟩ := pair
      simp only [hoverlap, Except.error.injEq] at h
      subst h
      obtain ⟨hsub, hlt⟩ := firstOverlap?_eq_some hoverlap
      refine .overlap (hsub.subperm.trans (List.mergeSort_perm ..).subperm) ?_
      -- the start of the second one lies in both
      have hle := AddressRange.start_le_of_le
        (List.pairwise_iff_forall_sublist.1 (AddressRange.pairwise_mergeSort ranges) hsub)
      have hs : s.start < s.stop := by
        have hnot := firstEmpty?_eq_none_iff.1 hempty s (hsub.subset (by simp))
        rw [Address.le_iff_toNat_le] at hnot
        rw [Address.lt_iff_toNat_lt]
        omega
      rw [AddressRange.apart_iff hs hle, Nat.not_le]
      exact Address.lt_iff_toNat_lt.1 hlt

end Ranges

/-! ### The settings -/

namespace Options

variable {o : Options} {setting : RangeSetting}

/-- **A setting takes exactly the lists of ranges that hold addresses and are apart.**  It keeps
the ranges in order, which can be done in one way only.  A list that is refused leaves the options
as they are, and the refusal names what speaks against it. -/
theorem changeRanges_spec (o : Options) (setting : RangeSetting) (ranges : List AddressRange) :
    ((o.changeRanges setting (some ranges)).1 = .ok () ↔
      (∀ r ∈ ranges, r.start < r.stop) ∧ ranges.Pairwise fun r s => r.Apart s) ∧
    (∀ o', o.changeRanges setting (some ranges) = (.ok (), o') →
      ∃ stored, o' = o.withRanges (some stored) setting ∧ stored.Perm ranges ∧
        Ranges.InOrder stored ∧ ∀ others, others.Perm ranges →
          (others.Pairwise fun r s => r.start ≤ s.start) → others = stored) ∧
    ∀ cause o', o.changeRanges setting (some ranges) = (.error cause, o') →
      o' = o ∧ Ranges.Refused setting ranges cause := by
  rw [changeRanges, ← Ranges.exists_normalize_iff]
  cases hnormalize : Ranges.normalize setting ranges with
  | error cause =>
    refine ⟨by simp only [reduceCtorEq, exists_false], ?_, ?_⟩
    · intro o' h
      simp only [Prod.mk.injEq, reduceCtorEq, false_and] at h
    · intro cause' o' h
      simp only [Prod.mk.injEq, Except.error.injEq] at h
      obtain ⟨rfl, rfl⟩ := h
      exact ⟨rfl, Ranges.refused_of_normalize hnormalize⟩
  | ok stored =>
    refine ⟨by simp only [Except.ok.injEq, exists_eq'], ?_, ?_⟩
    · intro o' h
      simp only [Prod.mk.injEq, true_and] at h
      subst h
      obtain ⟨hperm, horder⟩ := Ranges.inOrder_of_normalize hnormalize
      refine ⟨stored, rfl, hperm, horder, ?_⟩
      intro others hothers hsorted
      exact horder.eq_of_perm (hothers.trans hperm.symm) hsorted
    · intro cause o' h
      simp only [Prod.mk.injEq, reduceCtorEq, false_and] at h

/-- Three ranges in no order, two of which touch. -/
def threeRanges : List AddressRange :=
  [⟨.ofNat 0x30, .ofNat 0x40⟩, ⟨.ofNat 0x10, .ofNat 0x20⟩, ⟨.ofNat 0x20, .ofNat 0x28⟩]

/-- Options that omit the three ranges. -/
def threeOmitted : Options :=
  { omitRanges := some [⟨.ofNat 0x10, .ofNat 0x20⟩, ⟨.ofNat 0x20, .ofNat 0x28⟩,
      ⟨.ofNat 0x30, .ofNat 0x40⟩] }

/-- The ranges are taken, and stay when a list with one that overlaps them is refused. -/
theorem changeRanges_spec_threeRanges :
    (changeRanges {} .omitted (some threeRanges) = (.ok (), threeOmitted) ∧
      changeRanges threeOmitted .omitted
          (some (threeRanges ++ [⟨.ofNat 0x18, .ofNat 0x30⟩])) =
        (.error (.invalidOption (.overlappingRanges .omitted ⟨.ofNat 0x10, .ofNat 0x20⟩
          ⟨.ofNat 0x18, .ofNat 0x30⟩)), threeOmitted)) ∧
    (∃ stored, threeOmitted = withRanges {} (some stored) .omitted ∧ stored.Perm threeRanges ∧
      Ranges.InOrder stored) ∧
    Ranges.Refused .omitted (threeRanges ++ [⟨.ofNat 0x18, .ofNat 0x30⟩])
      (.invalidOption (.overlappingRanges .omitted ⟨.ofNat 0x10, .ofNat 0x20⟩
        ⟨.ofNat 0x18, .ofNat 0x30⟩)) := by
  have htaken : changeRanges {} .omitted (some threeRanges) = (.ok (), threeOmitted) := by cbv
  have hrefused : changeRanges threeOmitted .omitted
        (some (threeRanges ++ [⟨.ofNat 0x18, .ofNat 0x30⟩])) =
      (.error (.invalidOption (.overlappingRanges .omitted ⟨.ofNat 0x10, .ofNat 0x20⟩
        ⟨.ofNat 0x18, .ofNat 0x30⟩)), threeOmitted) := by cbv
  obtain ⟨stored, hstored, hperm, horder, -⟩ :=
    (changeRanges_spec {} .omitted threeRanges).2.1 _ htaken
  have hnamed := (changeRanges_spec threeOmitted .omitted _).2.2 _ _ hrefused
  exact ⟨⟨htaken, hrefused⟩, ⟨stored, hstored, hperm, horder⟩, hnamed.2⟩

end Options

end PointerChains
