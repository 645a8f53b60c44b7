import Mathlib.Data.List.Chain
import PointerChains.Proofs.Address.Sought
import PointerChains.Proofs.Map.Construction

/-!
# Looking addresses up

Among ranges in the order of their starts, the last one that starts at or below an address is the
only one that can hold it: those in front of it end before the next start, and those behind it
start too late.  So one search and one test find the range, or tell that there is none.  Empty and
inverted ranges may stand among the others; they hold nothing, and are never found.

* `AddressRange.Ordered` — the starts rise, and no range reaches behind the next start;
* `AddressRange.findIdxBy?` — the look-up with the answer of any search, and
  `AddressRange.findIdx?_eq_findIdxBy?`: all right answers lead to the same place;
* `AddressRange.findIdx?_eq_some_iff`, `AddressRange.findIdx?_eq_none_iff` — what a look-up finds;
* `MemoryMap.Built.ordered` — the regions of a map with distinct starts are ordered;
* `MemoryMap.lookup_spec` — **a look-up finds the range, or the region, that holds an address.**
-/

namespace PointerChains

namespace AddressRange

variable {α : Type} {range : α → AddressRange} {things : Array α} {a : Address} {n : Nat}

/-- The starts rise, and every range ends at or before the next start. -/
def Ordered (range : α → AddressRange) (things : Array α) : Prop :=
  things.toList.IsChain fun x y =>
    (range x).start < (range y).start ∧ (range x).stop ≤ (range y).start

instance (range : α → AddressRange) (things : Array α) : Decidable (Ordered range things) :=
  inferInstanceAs (Decidable (things.toList.IsChain _))

/-- The starts of the ranges. -/
def starts (range : α → AddressRange) (things : Array α) : List Address :=
  things.toList.map fun x => (range x).start

/-- The look-up with the answer of a search for the address among the starts. -/
def findIdxBy? (range : α → AddressRange) (things : Array α) (a : Address) (w : Sought) :
    Option Nat :=
  w.last?.filter fun n => things[n]?.any fun x => (range x).contains a

/-! ### Ranges in order -/

/-- Every range, and not only the next one, starts behind the ranges in front of it. -/
theorem Ordered.pairwise (h : Ordered range things) : things.toList.Pairwise fun x y =>
    (range x).start < (range y).start ∧ (range x).stop ≤ (range y).start := by
  have htrans : Trans
      (fun x y => (range x).start < (range y).start ∧ (range x).stop ≤ (range y).start)
      (fun x y => (range x).start < (range y).start ∧ (range x).stop ≤ (range y).start)
      (fun x y => (range x).start < (range y).start ∧ (range x).stop ≤ (range y).start) := by
    refine ⟨?_⟩
    intro x y z hxy hyz
    simp only [Address.lt_iff_toNat_lt, Address.le_iff_toNat_le] at hxy hyz ⊢
    omega
  exact List.isChain_iff_pairwise.1 h

theorem Ordered.pairwise_starts (h : Ordered range things) :
    (starts range things).Pairwise (· < ·) :=
  List.pairwise_map.2 (h.pairwise.imp And.left)

/-- A range in order that holds an address is the last one that starts at or below it. -/
theorem Ordered.le_iff (h : Ordered range things) (hn : n < things.size)
    (hholds : (range things[n]).contains a) {i : Nat} (hi : i < things.size) :
    (range things[i]).start ≤ a ↔ i < n + 1 := by
  have hpairwise := List.pairwise_iff_getElem.1 h.pairwise
  simp only [Array.getElem_toList, Array.length_toList, Address.lt_iff_toNat_lt,
    Address.le_iff_toNat_le] at hpairwise
  rw [contains_iff] at hholds
  rw [Address.le_iff_toNat_le]
  rcases Nat.lt_trichotomy i n with hlt | rfl | hlt
  · have := hpairwise i n hi hn hlt
    omega
  · omega
  · have := hpairwise n i hn hi hlt
    omega

/-! ### What a look-up finds -/

/-- What is found holds the address, whatever the order. -/
theorem contains_of_findIdx? (h : findIdx? range things a = some n) :
    ∃ x, things[n]? = some x ∧ (range x).contains a := by
  rw [findIdx?] at h
  split at h
  · cases h
  · split at h
    · rename_i hany
      cases h
      exact (Option.any_eq_true ..).1 hany
    · cases h

/-- A look-up finds the one range that holds the address. -/
theorem findIdx?_eq_some_iff (h : Ordered range things) :
    findIdx? range things a = some n ↔ ∃ x, things[n]? = some x ∧ (range x).contains a := by
  refine ⟨contains_of_findIdx?, ?_⟩
  rintro ⟨x, hx, hholds⟩
  obtain ⟨hn, rfl⟩ := Array.getElem?_eq_some_iff.1 hx
  have hborder : bisect (fun x => (range x).start ≤ a) things = n + 1 := by
    refine bisect_eq_of_border hn ?_
    intro i hi
    rw [decide_eq_true_eq]
    exact h.le_iff hn hholds hi
  rw [findIdx?, hborder]
  show (if (things[n]?.any fun x => (range x).contains a) then some n else none) = some n
  rw [hx, Option.any_some, if_pos hholds]

theorem findIdx?_eq_none_iff (h : Ordered range things) :
    findIdx? range things a = none ↔ ∀ x ∈ things, ¬(range x).contains a := by
  rw [Option.eq_none_iff_forall_ne_some]
  constructor
  · intro hnone x hx hholds
    obtain ⟨n, hn, rfl⟩ := Array.getElem_of_mem hx
    exact hnone n ((findIdx?_eq_some_iff h).2 ⟨_, Array.getElem?_eq_getElem hn, hholds⟩)
  · intro hall n hfound
    obtain ⟨x, hx, hholds⟩ := contains_of_findIdx? hfound
    exact hall x (Array.mem_of_getElem? hx) hholds

/-- Every right answer of a search leads to the same range. -/
theorem findIdx?_eq_findIdxBy? (hrising : (starts range things).Pairwise (· < ·)) {w : Sought}
    (hw : w.IsFor (starts range things) a) :
    findIdx? range things a = findIdxBy? range things a w := by
  rw [findIdx?, hw.bisect_eq hrising, findIdxBy?]
  cases hlast : w.last? with
  | none =>
    rw [Sought.last?_eq_none_iff.1 hlast]
    rfl
  | some n =>
    rw [Sought.last?_eq_some_iff.1 hlast, Option.filter_some]

theorem find?_eq_some_iff (h : Ordered range things) {x : α} :
    find? range things a = some x ↔ x ∈ things ∧ (range x).contains a := by
  rw [find?, Option.bind_eq_some_iff]
  constructor
  · rintro ⟨n, hfound, hx⟩
    obtain ⟨y, hy, hholds⟩ := contains_of_findIdx? hfound
    cases hy.symm.trans hx
    exact ⟨Array.mem_of_getElem? hx, hholds⟩
  · rintro ⟨hx, hholds⟩
    obtain ⟨n, hn, rfl⟩ := Array.getElem_of_mem hx
    have hget := Array.getElem?_eq_getElem hn
    exact ⟨n, (findIdx?_eq_some_iff h).2 ⟨_, hget, hholds⟩, hget⟩

theorem find?_eq_none_iff (h : Ordered range things) :
    find? range things a = none ↔ ∀ x ∈ things, ¬(range x).contains a := by
  simp only [Option.eq_none_iff_forall_ne_some, ne_eq, find?_eq_some_iff h, not_and]

end AddressRange

/-! ### Regions of a map -/

namespace MemoryMap

/-- No two regions share a start. -/
def DistinctStarts (m : MemoryMap) : Prop :=
  (AddressRange.starts Region.range m.regions).Nodup

instance (m : MemoryMap) : Decidable m.DistinctStarts :=
  inferInstanceAs (Decidable (List.Nodup _))

/-- The regions of a map come in the order of their starts, and no region reaches behind the next
start; with distinct starts these rise. -/
theorem Built.ordered {m : MemoryMap} (h : m.Built) (hdistinct : m.DistinctStarts) :
    AddressRange.Ordered Region.range m.regions := by
  obtain ⟨entries, hbuild⟩ := h
  obtain ⟨hnone, rfl⟩ := build_eq_ok_iff.1 hbuild
  have hsorted := Mapping.pairwise_startsBy entries
  have hstops := Mapping.pairwise_stop_le hsorted hnone
  have hranges := map_range_toRegions (entries.mergeSort Mapping.startsBy)
  have hstarts : ((Mapping.toRegions (entries.mergeSort Mapping.startsBy)).map
      Region.range).Pairwise fun r s => r.start ≠ s.start :=
    List.pairwise_map.2 (List.pairwise_map.1 hdistinct)
  rw [hranges, List.pairwise_map] at hstarts
  have hordered : ((Mapping.toRegions (entries.mergeSort Mapping.startsBy)).map
      Region.range).Pairwise fun r s => r.start < s.start ∧ r.stop ≤ s.start := by
    rw [hranges, List.pairwise_map]
    refine ((hsorted.and hstops).and hstarts).imp ?_
    rintro d e ⟨⟨hle, hstop⟩, hne⟩
    rw [Mapping.startsBy_iff] at hle
    have hne' := mt Address.toNat_injective hne
    rw [Address.lt_iff_toNat_lt, Address.le_iff_toNat_le]
    omega
  exact (List.pairwise_map.1 hordered).isChain

/-- **A look-up finds the range, or the region, that holds an address**, and finds none exactly if
there is none.  It makes no difference which search it uses. -/
theorem lookup_spec :
    (∀ {α : Type} (range : α → AddressRange) (things : Array α) (a : Address),
      AddressRange.Ordered range things →
        (∀ n, AddressRange.findIdx? range things a = some n ↔
          ∃ x, things[n]? = some x ∧ (range x).contains a) ∧
        (AddressRange.findIdx? range things a = none ↔ ∀ x ∈ things, ¬(range x).contains a) ∧
        (∃ w : Sought, w.IsFor (AddressRange.starts range things) a) ∧
        ∀ w : Sought, w.IsFor (AddressRange.starts range things) a →
          AddressRange.findIdxBy? range things a w = AddressRange.findIdx? range things a) ∧
    ∀ (m : MemoryMap) (a : Address), m.Built → m.DistinctStarts →
      (∀ r, m.findRegion? a = some r ↔ r ∈ m.regions ∧ r.range.contains a) ∧
      (m.findRegion? a = none ↔ ∀ r ∈ m.regions, ¬r.range.contains a) := by
  refine ⟨?_, ?_⟩
  · intro α range things a hordered
    refine ⟨fun n => AddressRange.findIdx?_eq_some_iff hordered,
      AddressRange.findIdx?_eq_none_iff hordered,
      Sought.exists_isFor hordered.pairwise_starts a, ?_⟩
    intro w hw
    exact (AddressRange.findIdx?_eq_findIdxBy? hordered.pairwise_starts hw).symm
  · intro m a hm hdistinct
    have hordered := hm.ordered hdistinct
    exact ⟨fun r => AddressRange.find?_eq_some_iff hordered,
      AddressRange.find?_eq_none_iff hordered⟩

/-- Two ranges, with an inverted one and an empty one between them. -/
def fourSpans : Array AddressRange :=
  #[⟨.ofNat 0x1000, .ofNat 0x2000⟩, ⟨.ofNat 0x2000, .ofNat 0x1800⟩,
    ⟨.ofNat 0x3000, .ofNat 0x3000⟩, ⟨.ofNat 0x4000, .ofNat 0x5000⟩]

/-- The map with these ranges. -/
def spanned : MemoryMap := ofOrdered (fourSpans.toList.map fun range => ⟨range, .none, ""⟩)

theorem built_spanned : spanned.Built :=
  ⟨fourSpans.toList.reverse.map fun range => ⟨range, .none, ""⟩, by cbv⟩

theorem lookup_spec_fourSpans :
    (AddressRange.Ordered id fourSpans ∧
      (Sought.missing 2).IsFor (AddressRange.starts id fourSpans) (.ofNat 0x2FFF) ∧
      spanned.DistinctStarts) ∧
    AddressRange.findIdx? id fourSpans (.ofNat 0x4FFF) = some 3 ∧
    AddressRange.findIdx? id fourSpans (.ofNat 0x3000) = none ∧
    AddressRange.findIdxBy? id fourSpans (.ofNat 0x2FFF) (.missing 2) =
      AddressRange.findIdx? id fourSpans (.ofNat 0x2FFF) ∧
    (∃ r, spanned.findRegion? (.ofNat 0x1FFF) = some r ∧ r.range = fourSpans[0]) ∧
    spanned.findRegion? (.ofNat 0x2000) = none := by
  have hordered : AddressRange.Ordered id fourSpans := by decide
  have hanswer : (Sought.missing 2).IsFor (AddressRange.starts id fourSpans) (.ofNat 0x2FFF) := by
    decide
  have hdistinct : spanned.DistinctStarts := by decide
  have hlast := (lookup_spec.1 id fourSpans (.ofNat 0x4FFF) hordered).1 3
  have hnone := (lookup_spec.1 id fourSpans (.ofNat 0x3000) hordered).2.1
  have hby := (lookup_spec.1 id fourSpans (.ofNat 0x2FFF) hordered).2.2.2 _ hanswer
  have hfirst := (lookup_spec.2 spanned (.ofNat 0x1FFF) built_spanned hdistinct).1
  have hgap := (lookup_spec.2 spanned (.ofNat 0x2000) built_spanned hdistinct).2
  refine ⟨⟨hordered, hanswer, hdistinct⟩, hlast.2 ⟨_, rfl, by decide⟩, hnone.2 (by decide), hby,
    ⟨_, (hfirst _).2 ⟨Array.getElem_mem (by decide : 0 < spanned.regions.size), by decide⟩, rfl⟩,
    hgap.2 (by decide)⟩

end MemoryMap

end PointerChains
