import PointerChains.Proofs.Balance.Dealing
import PointerChains.Proofs.Pool.Coverage

/-!
# Partitions of regions

A partition deals known regions out by their sizes.  It is refused only for want of workers or for a
region that is not in the map, and it keeps the order of equally large regions, since a stable sort
does.  The regions of a built map do not overlap, so that any of them together have less bytes than
there are addresses, and no total ever leaves a word.

* `exists_partition_error_iff` — when there is no partition;
* `filter_largestFirst` — equally large items keep their order;
* `MemoryMap.Built.sum_bytesOf_lt` — distinct regions have less bytes than there are addresses;
* `partition_exact` — **a partition loses and repeats nothing, is in order, and has exact totals.**
-/

namespace PointerChains

variable {α : Type} {m : MemoryMap} {ids regions : List RegionId} {workers : Nat}

theorem exists_partition_error_iff :
    (∃ cause, partition m regions workers = .error cause) ↔
      workers = 0 ∨ ∃ id ∈ regions, m.region? id = none := by
  have hok : (∃ shares, partition m regions workers = .ok shares) ↔
      workers ≠ 0 ∧ m.Knows regions := by
    simp only [partition_eq_ok_iff, exists_and_left, exists_eq, and_true]
  have hnot : (∃ cause, partition m regions workers = .error cause) ↔
      ¬∃ shares, partition m regions workers = .ok shares := by
    cases partition m regions workers with
    | error cause => simp
    | ok shares => simp
  rw [hnot, hok, not_and_or, not_not, MemoryMap.Knows]
  push Not
  simp only [← Option.eq_none_iff_forall_ne_some]

theorem totalSize_sized (m : MemoryMap) (ids : List RegionId) :
    totalSize (m.sized ids) = (ids.map m.bytesOf).sum := by
  rw [totalSize, MemoryMap.sized, List.map_map]
  rfl

/-! ### The order of a share -/

/-- Items of one size keep their order. -/
theorem filter_largestFirst (items : List (α × Nat)) (size : Nat) :
    (largestFirst items).filter (fun item => item.2 = size) =
      items.filter fun item => item.2 = size := by
  have hequal : (items.filter fun item => item.2 = size).Pairwise
      fun a b => decide (b.2 ≤ a.2) := by
    refine List.pairwise_of_forall_mem_list ?_
    intro a ha b hb
    rw [List.mem_filter, decide_eq_true_eq] at ha hb
    rw [decide_eq_true_eq, ha.2, hb.2]
  have hsub : (items.filter fun item => item.2 = size).Sublist (largestFirst items) := by
    refine List.sublist_mergeSort ?_ ?_ hequal List.filter_sublist
    · intro a b c hab hbc
      rw [decide_eq_true_eq] at hab hbc ⊢
      exact Nat.le_trans hbc hab
    · intro a b
      rw [Bool.or_eq_true, decide_eq_true_eq, decide_eq_true_eq]
      exact Nat.le_total ..
  have hfiltered := hsub.filter fun item => decide (item.2 = size)
  rw [List.filter_filter] at hfiltered
  simp only [Bool.and_self] at hfiltered
  refine (hfiltered.eq_of_length ?_).symm
  exact (((largestFirst_perm items).filter _).length_eq).symm

/-- A share has its larger regions first, and equally large ones in the order of the selection. -/
theorem pairwise_share {held : List (RegionId × Nat)}
    (h : held.Sublist (largestFirst (m.sized regions))) :
    ((held.map Prod.fst).Pairwise fun i j => m.bytesOf j ≤ m.bytesOf i) ∧
    ∀ size, ((held.map Prod.fst).filter fun id => m.bytesOf id = size).Sublist regions := by
  have hsnd : ∀ item ∈ held, item.2 = m.bytesOf item.1 := fun item hitem =>
    snd_of_mem_sized ((largestFirst_perm _).mem_iff.1 (h.subset hitem))
  constructor
  · rw [List.pairwise_map]
    refine ((pairwise_largestFirst _).sublist h).imp_of_mem ?_
    intro a b ha hb hle
    rw [← hsnd a ha, ← hsnd b hb]
    exact hle
  · intro size
    have hsame : (held.map Prod.fst).filter (fun id => m.bytesOf id = size) =
        (held.filter fun item => item.2 = size).map Prod.fst := by
      rw [List.filter_map]
      refine congrArg _ (List.filter_congr ?_)
      intro item hitem
      show decide (m.bytesOf item.1 = size) = decide (item.2 = size)
      rw [hsnd item hitem]
    have hsub := h.filter fun item => decide (item.2 = size)
    rw [filter_largestFirst] at hsub
    have hall := (hsub.trans List.filter_sublist).map Prod.fst
    rw [map_fst_sized] at hall
    rw [hsame]
    exact hall

/-! ### Exact totals -/

/-- The sizes of known regions. -/
theorem MemoryMap.map_size_areas (h : m.Knows ids) :
    (m.areas ids).map Area.size = ids.map m.bytesOf := by
  induction ids with
  | nil => rfl
  | cons id ids ih =>
    obtain ⟨⟨r, hr⟩, hrest⟩ := List.forall_mem_cons.1 h
    have hareas : m.areas (id :: ids) = r.area :: m.areas ids := by
      rw [areas, areas, List.filterMap_cons, hr]
      rfl
    have hsize : m.bytesOf id = r.area.size := by
      rw [bytesOf, hr]
      rfl
    rw [hareas, List.map_cons, List.map_cons, ih hrest, hsize]

/-- Regions of a map, each of them once, have less bytes than there are addresses. -/
theorem MemoryMap.Built.sum_bytesOf_lt (hm : m.Built) (hnodup : ids.Nodup)
    (hknows : m.Knows ids) : (ids.map m.bytesOf).sum < 2 ^ 64 := by
  rw [← MemoryMap.map_size_areas hknows]
  exact Area.sum_size_lt (hm.pairwise_apart hnodup)

/-- At any moment of the dealing the totals are the sizes of what is held. -/
theorem total_eq_sum_bytesOf {order : List (RegionId × Nat)}
    (hsnd : ∀ item ∈ order, item.2 = m.bytesOf item.1) (hsize : totalSize order < 2 ^ 64)
    {b : Bucket RegionId} (hb : b ∈ dealt workers order) :
    b.total = (b.items.map m.bytesOf).sum := by
  rw [dealt_eq_map] at hb
  obtain ⟨c, hc, rfl⟩ := List.mem_map.1 hb
  show c.total = ((c.items.map Prod.fst).map m.bytesOf).sum
  rw [total_dealt hsize hc, totalSize, List.map_map]
  refine congrArg List.sum (List.map_congr_left ?_)
  intro item hitem
  exact hsnd item ((sublist_of_mem_dealt hc).subset hitem)

/-- **A partition loses and repeats nothing.**  It is refused exactly if there is no worker or a
region is not in the map.  Otherwise each worker has a share, all shares together are the given
regions, and each has its larger regions first and equally large ones in the given order.  Of
distinct regions of a built map the totals are exact all the time. -/
theorem partition_exact (m : MemoryMap) (regions : List RegionId) (workers : Nat) :
    ((∃ cause, partition m regions workers = .error cause) ↔
      workers = 0 ∨ ∃ id ∈ regions, m.region? id = none) ∧
    ∀ shares, partition m regions workers = .ok shares →
      shares.length = workers ∧ shares.flatten.Perm regions ∧
      (∀ share ∈ shares, (share.Pairwise fun i j => m.bytesOf j ≤ m.bytesOf i) ∧
        ∀ size, (share.filter fun id => m.bytesOf id = size).Sublist regions) ∧
      (m.Built → regions.Nodup →
        (regions.map m.bytesOf).sum < 2 ^ 64 ∧
        shares = (dealt workers (largestFirst (m.sized regions))).map Bucket.items ∧
        ∀ n, ∀ b ∈ dealt workers ((largestFirst (m.sized regions)).take n),
          b.total = (b.items.map m.bytesOf).sum) := by
  refine ⟨exists_partition_error_iff, ?_⟩
  intro shares h
  obtain ⟨hlength, hperm⟩ := partition_eq_ok h
  obtain ⟨-, hknows, rfl⟩ := partition_eq_ok_iff.1 h
  refine ⟨hlength, hperm, ?_, ?_⟩
  · intro share hshare
    obtain ⟨b, hb, rfl⟩ := List.mem_map.1 hshare
    rw [balance_eq_dealt] at hb
    obtain ⟨c, hc, rfl⟩ := List.mem_map.1 hb
    exact pairwise_share (sublist_of_mem_dealt hc)
  · intro hm hnodup
    have hsum := hm.sum_bytesOf_lt hnodup hknows
    refine ⟨hsum, rfl, ?_⟩
    intro n b hb
    have hsub := List.take_sublist n (largestFirst (m.sized regions))
    refine total_eq_sum_bytesOf ?_ ?_ hb
    · intro item hitem
      exact snd_of_mem_sized ((largestFirst_perm _).mem_iff.1 (hsub.subset hitem))
    · refine Nat.lt_of_le_of_lt (totalSize_le_of_sublist hsub) ?_
      rw [totalSize_largestFirst, totalSize_sized]
      exact hsum

/-- Regions of 16, 64, 32 and again 16 bytes. -/
def MemoryMap.fourRegions : MemoryMap where
  regions := #[⟨⟨0⟩, ⟨.ofNat 0x1000, .ofNat 0x1010⟩, .none, none⟩,
    ⟨⟨1⟩, ⟨.ofNat 0x2000, .ofNat 0x2040⟩, .none, none⟩,
    ⟨⟨2⟩, ⟨.ofNat 0x3000, .ofNat 0x3020⟩, .none, none⟩,
    ⟨⟨3⟩, ⟨.ofNat 0x4000, .ofNat 0x4010⟩, .none, none⟩]
  objects := #[]

theorem MemoryMap.built_fourRegions : MemoryMap.fourRegions.Built :=
  ⟨[⟨⟨.ofNat 0x1000, .ofNat 0x1010⟩, .none, ""⟩, ⟨⟨.ofNat 0x2000, .ofNat 0x2040⟩, .none, ""⟩,
    ⟨⟨.ofNat 0x3000, .ofNat 0x3020⟩, .none, ""⟩, ⟨⟨.ofNat 0x4000, .ofNat 0x4010⟩, .none, ""⟩],
    by cbv⟩

theorem partition_exact_fourRegions :
    (partition .fourRegions [⟨3⟩, ⟨0⟩, ⟨1⟩, ⟨2⟩] 2 = .ok [[⟨1⟩], [⟨2⟩, ⟨3⟩, ⟨0⟩]] ∧
      MemoryMap.fourRegions.Built ∧ [(⟨3⟩ : RegionId), ⟨0⟩, ⟨1⟩, ⟨2⟩].Nodup) ∧
    (∃ cause, partition .fourRegions [⟨3⟩, ⟨7⟩] 2 = .error cause) ∧
    [[(⟨1⟩ : RegionId)], [⟨2⟩, ⟨3⟩, ⟨0⟩]].flatten.Perm [⟨3⟩, ⟨0⟩, ⟨1⟩, ⟨2⟩] ∧
    ([(⟨2⟩ : RegionId), ⟨3⟩, ⟨0⟩].filter fun id => MemoryMap.fourRegions.bytesOf id = 16).Sublist
      [⟨3⟩, ⟨0⟩, ⟨1⟩, ⟨2⟩] ∧
    ∀ n, ∀ b ∈ dealt 2 ((largestFirst
        (MemoryMap.fourRegions.sized [⟨3⟩, ⟨0⟩, ⟨1⟩, ⟨2⟩])).take n),
      b.total = (b.items.map MemoryMap.fourRegions.bytesOf).sum := by
  have hok : partition .fourRegions [⟨3⟩, ⟨0⟩, ⟨1⟩, ⟨2⟩] 2 = .ok [[⟨1⟩], [⟨2⟩, ⟨3⟩, ⟨0⟩]] := by cbv
  have hnodup : [(⟨3⟩ : RegionId), ⟨0⟩, ⟨1⟩, ⟨2⟩].Nodup := by decide
  have hunknown := (partition_exact .fourRegions [⟨3⟩, ⟨7⟩] 2).1
  obtain ⟨-, hperm, hshares, htotals⟩ :=
    (partition_exact .fourRegions [⟨3⟩, ⟨0⟩, ⟨1⟩, ⟨2⟩] 2).2 _ hok
  have hsecond := (hshares [⟨2⟩, ⟨3⟩, ⟨0⟩] (by simp)).2 16
  obtain ⟨-, -, hrunning⟩ := htotals MemoryMap.built_fourRegions hnodup
  exact ⟨⟨hok, MemoryMap.built_fourRegions, hnodup⟩,
    hunknown.2 (.inr ⟨⟨7⟩, by simp, rfl⟩), hperm, hsecond, hrunning⟩

end PointerChains
