import Mathlib.Data.List.Perm.Basic
import PointerChains.Proofs.Causes
import PointerChains.Proofs.Map.Built
import PointerChains.Balance

/-!
# Partitions lose and repeat nothing

* `Bucket.flatten_deal` — dealing an item out puts it into one bucket;
* `flatten_foldl_deal_empty`, `flatten_balance` — the buckets together hold the dealt items;
* `MemoryMap.bytesOf`, `MemoryMap.sized` — regions with their sizes;
* `partition_eq_ok_iff` — when there is a partition, and which;
* `partition_eq_ok` — a partition shares all regions out among the workers;
* `Partition.FitsStamps` — a kept partition shares out the selection of its stamp, and
  `Partition.FitsStamps.update` — so does the one that an update makes or keeps.
-/

namespace PointerChains

variable {α : Type}

theorem Bucket.leastLoaded_lt {buckets : List (Bucket α)} (h : buckets ≠ []) :
    leastLoaded buckets < buckets.length := by
  have hne : buckets.map Bucket.total ≠ [] := by
    rw [ne_eq, List.map_eq_nil_iff]
    exact h
  obtain ⟨least, hleast⟩ := Option.isSome_iff_exists.1 (List.isSome_min?_of_ne_nil hne)
  have hmem := List.min?_mem hleast
  have hlt := List.idxOf_lt_length_of_mem hmem
  rw [List.length_map] at hlt
  rw [leastLoaded, hleast, Option.getD_some]
  exact hlt

/-- If an update in place puts an item behind those of one list, then that item and all others are
there. -/
theorem perm_flatMap_modify {β : Type} {g : β → List α} {f : β → β} {item : α}
    (h : ∀ b, g (f b) = g b ++ [item]) {bs : List β} {n : Nat} (hn : n < bs.length) :
    ((bs.modify n f).flatMap g).Perm (item :: bs.flatMap g) := by
  induction bs generalizing n with
  | nil => cases hn
  | cons b bs ih =>
    cases n with
    | zero =>
      rw [List.modify_zero_cons, List.flatMap_cons, List.flatMap_cons, h, List.append_assoc]
      exact List.perm_middle
    | succ n =>
      rw [List.modify_succ_cons, List.flatMap_cons, List.flatMap_cons]
      exact ((ih (Nat.lt_of_succ_lt_succ hn)).append_left (g b)).trans List.perm_middle

/-- Dealing an item out puts it into one bucket, and leaves the rest as it is. -/
theorem Bucket.flatten_deal (buckets : List (Bucket α)) (item : α × Nat) (h : buckets ≠ []) :
    ((deal buckets item).flatMap Bucket.items).Perm
      (item.1 :: buckets.flatMap Bucket.items) :=
  perm_flatMap_modify (fun _ => rfl) (leastLoaded_lt h)

theorem flatten_foldl_deal (items : List (α × Nat)) (buckets : List (Bucket α))
    (h : buckets ≠ []) :
    ((items.foldl Bucket.deal buckets).flatMap Bucket.items).Perm
      (items.map Prod.fst ++ buckets.flatMap Bucket.items) := by
  induction items generalizing buckets with
  | nil => exact List.Perm.refl _
  | cons item items ih =>
    have hne : Bucket.deal buckets item ≠ [] := by
      intro hnil
      have hlength := Bucket.length_deal buckets item
      rw [hnil, List.length_nil] at hlength
      exact h (List.length_eq_zero_iff.1 hlength.symm)
    have hdeal := (Bucket.flatten_deal buckets item h).append_left (items.map Prod.fst)
    exact ((ih _ hne).trans hdeal).trans List.perm_middle

/-- Empty buckets into which items are dealt hold these items then. -/
theorem flatten_foldl_deal_empty (items : List (α × Nat)) {count : Nat} (h : 0 < count) :
    ((items.foldl Bucket.deal (List.replicate count {})).flatMap Bucket.items).Perm
      (items.map Prod.fst) := by
  have hne : List.replicate count ({} : Bucket α) ≠ [] := by
    rw [ne_eq, List.replicate_eq_nil_iff]
    omega
  have hempty : (List.replicate count ({} : Bucket α)).flatMap Bucket.items = [] := by
    rw [List.flatMap_eq_nil_iff]
    intro b hb
    rw [List.eq_of_mem_replicate hb]
  have hdealt := flatten_foldl_deal items _ hne
  rw [hempty, List.append_nil] at hdealt
  exact hdealt

/-- The buckets together hold the dealt items. -/
theorem flatten_balance (items : List (α × Nat)) {count : Nat} (h : 0 < count) :
    ((balance items count).flatMap Bucket.items).Perm (items.map Prod.fst) :=
  (flatten_foldl_deal_empty _ h).trans ((List.mergeSort_perm ..).map _)

/-! ### When there is a partition -/

section Regions

variable {m : MemoryMap} {ids regions : List RegionId} {workers : Nat}
  {shares : List (List RegionId)}

/-- All references are those of regions. -/
def MemoryMap.Knows (m : MemoryMap) (ids : List RegionId) : Prop :=
  ∀ id ∈ ids, ∃ r, m.region? id = some r

/-- The number of bytes in a region, zero if it is not in the map. -/
def MemoryMap.bytesOf (m : MemoryMap) (id : RegionId) : Nat :=
  ((m.region? id).map Region.size).getD 0

/-- Regions with their sizes. -/
def MemoryMap.sized (m : MemoryMap) (ids : List RegionId) : List (RegionId × Nat) :=
  ids.map fun id => (id, m.bytesOf id)

theorem map_fst_sized (m : MemoryMap) (ids : List RegionId) :
    (m.sized ids).map Prod.fst = ids := by
  rw [MemoryMap.sized, List.map_map]
  exact List.map_id _

theorem snd_of_mem_sized {item : RegionId × Nat} (h : item ∈ m.sized ids) :
    item.2 = m.bytesOf item.1 := by
  obtain ⟨id, -, rfl⟩ := List.mem_map.1 h
  rfl

/-- Regions have sizes exactly if they are in the map. -/
theorem sizedRegions_eq_ok_iff {sized : List (RegionId × Nat)} :
    sizedRegions m ids = .ok sized ↔ m.Knows ids ∧ sized = m.sized ids := by
  induction ids generalizing sized with
  | nil =>
    show Except.ok [] = Except.ok sized ↔ _
    rw [Except.ok.injEq, eq_comm]
    exact (and_iff_right fun id hid => absurd hid List.not_mem_nil).symm
  | cons id ids ih =>
    rw [sizedRegions]
    cases hregion : m.region? id with
    | none =>
      simp only [reduceCtorEq, false_iff]
      rintro ⟨hknows, -⟩
      obtain ⟨r, hr⟩ := hknows id (List.mem_cons_self ..)
      rw [hregion] at hr
      cases hr
    | some region =>
      have hknows : m.Knows (id :: ids) ↔ m.Knows ids :=
        List.forall_mem_cons.trans (and_iff_right ⟨region, hregion⟩)
      have hsize : m.bytesOf id = region.size := by rw [MemoryMap.bytesOf, hregion]; rfl
      have hsized : m.sized (id :: ids) = (id, region.size) :: m.sized ids := by
        rw [← hsize]
        rfl
      rw [hknows, hsized]
      constructor
      · intro h
        obtain ⟨rest, hrest, hall⟩ := exists_of_bind_eq_ok h
        cases hall
        obtain ⟨hids, rfl⟩ := ih.1 hrest
        exact ⟨hids, rfl⟩
      · rintro ⟨hids, rfl⟩
        simp only [ih.2 ⟨hids, rfl⟩]
        rfl

/-- There is a partition if there are workers and all regions are in the map. -/
theorem partition_eq_ok_iff :
    partition m regions workers = .ok shares ↔ workers ≠ 0 ∧ m.Knows regions ∧
      shares = (balance (m.sized regions) workers).map Bucket.items := by
  rw [partition]
  by_cases hworkers : workers = 0
  · simp [hworkers]
  · rw [if_neg hworkers]
    constructor
    · intro h
      obtain ⟨sized, hsized, hshares⟩ := exists_of_bind_eq_ok h
      obtain ⟨hknows, rfl⟩ := sizedRegions_eq_ok_iff.1 hsized
      cases hshares
      exact ⟨hworkers, hknows, rfl⟩
    · rintro ⟨-, hknows, rfl⟩
      rw [sizedRegions_eq_ok_iff.2 ⟨hknows, rfl⟩]
      rfl

/-- A partition shares all regions out among the workers. -/
theorem partition_eq_ok (h : partition m regions workers = .ok shares) :
    shares.length = workers ∧ shares.flatten.Perm regions := by
  obtain ⟨hworkers, -, rfl⟩ := partition_eq_ok_iff.1 h
  refine ⟨by rw [List.length_map, length_balance], ?_⟩
  have hperm := flatten_balance (m.sized regions) (Nat.pos_of_ne_zero hworkers)
  rw [map_fst_sized, List.flatMap_def] at hperm
  exact hperm

end Regions

/-! ### Kept partitions -/

/-- The partition shares out the selection of its stamp, if it has one. -/
def Partition.FitsStamps (p : Partition) (given : Selections) : Prop :=
  ∀ stamp, p.stamp = some stamp → p.shares.flatten.Perm (given.regions stamp)

namespace Partition

variable {p q : Partition} {given : Selections} {m : MemoryMap} {areas : AreaSet} {workers : Nat}
  {force made : Bool}

theorem fitsStamps_default (given : Selections) : ({} : Partition).FitsStamps given := by
  intro stamp h
  cases h

/-- All that an update can do: it keeps a partition for this stamp and this number of workers, or
makes one. -/
theorem update_eq_ok {regions : List RegionId} {stamp : Nat}
    (h : p.update m regions stamp workers force = .ok (made, q)) :
    (q = p ∧ p.stamp = some stamp ∧ p.shares.length = workers) ∨
      (q.stamp = some stamp ∧ partition m regions workers = .ok q.shares) := by
  rw [Partition.update] at h
  split at h
  · rename_i hkeep
    cases h
    rw [Bool.and_eq_true, isFor, Bool.and_eq_true, beq_iff_eq, beq_iff_eq] at hkeep
    exact .inl ⟨rfl, hkeep.2⟩
  · obtain ⟨shares, hshares, hmade⟩ := exists_of_bind_eq_ok h
    cases hmade
    exact .inr ⟨rfl, hshares⟩

theorem length_update {regions : List RegionId} {stamp : Nat}
    (h : p.update m regions stamp workers force = .ok (made, q)) : q.shares.length = workers := by
  obtain ⟨rfl, -, hlength⟩ | ⟨-, hshares⟩ := update_eq_ok h
  · exact hlength
  · exact (partition_eq_ok hshares).1

/-- An update makes or keeps a partition of the selection among the workers. -/
theorem FitsStamps.update (h : p.FitsStamps given) (hareas : areas.IsFrom given)
    (hupdate : p.update m areas.regions areas.generation workers force = .ok (made, q)) :
    q.FitsStamps given ∧ q.shares.length = workers ∧ q.shares.flatten.Perm areas.regions := by
  have hlength := length_update hupdate
  obtain ⟨rfl, hstamp, -⟩ | ⟨hstamp, hshares⟩ := update_eq_ok hupdate
  · refine ⟨h, hlength, ?_⟩
    rw [hareas]
    exact h _ hstamp
  · have hperm := (partition_eq_ok hshares).2
    refine ⟨?_, hlength, hperm⟩
    intro stamp hmade
    rw [hstamp] at hmade
    cases hmade
    rw [← hareas]
    exact hperm

/-- A partition with a stamp was made for some worker. -/
def Dealt (p : Partition) : Prop := p.stamp ≠ none → p.shares ≠ []

theorem dealt_default : ({} : Partition).Dealt := fun h => absurd rfl h

theorem Dealt.update {regions : List RegionId} {stamp : Nat} (h : p.Dealt)
    (hupdate : p.update m regions stamp workers force = .ok (made, q)) : q.Dealt := by
  obtain ⟨rfl, -, -⟩ | ⟨-, hshares⟩ := update_eq_ok hupdate
  · exact h
  · intro _ hempty
    have hlength := (partition_eq_ok hshares).1
    rw [hempty, List.length_nil] at hlength
    subst hlength
    cases hshares

end Partition

end PointerChains
