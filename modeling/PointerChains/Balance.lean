import PointerChains.Map.Basic

/-!
# Sharing regions among workers

The regions of a scan are dealt out, largest first, each to the worker with the fewest bytes so
far.  A partition is kept as long as it is asked for with the same stamp and worker count.

* `Bucket`, `balance` — dealing out sized items;
* `partition` — dealing out the regions of a map;
* `Partition`, `Partition.update` — a partition that is kept.
-/

namespace PointerChains

variable {α : Type}

/-- What one worker is given. -/
structure Bucket (α : Type) where
  /-- The items, in the order in which they were given. -/
  items : List α := []
  /-- Their sizes together, kept within a word. -/
  total : Nat := 0
  deriving DecidableEq, Repr, Inhabited

namespace Bucket

/-- The bucket with one more item. -/
def push (b : Bucket α) (item : α) (size : Nat) : Bucket α :=
  { items := b.items ++ [item], total := min (b.total + size) (2 ^ 64 - 1) }

/-- The first of the least loaded buckets. -/
def leastLoaded (buckets : List (Bucket α)) : Nat :=
  let totals := buckets.map total
  totals.idxOf (totals.min?.getD 0)

/-- The buckets after an item has been given to the first of the least loaded. -/
def deal (buckets : List (Bucket α)) (item : α × Nat) : List (Bucket α) :=
  buckets.modify (leastLoaded buckets) fun b => b.push item.1 item.2

end Bucket

/-- Deals sized items out to so many buckets, the largest first; items of one size keep their
order. -/
def balance (items : List (α × Nat)) (count : Nat) : List (Bucket α) :=
  (items.mergeSort fun a b => b.2 ≤ a.2).foldl Bucket.deal (List.replicate count {})

@[simp] theorem Bucket.length_deal (buckets : List (Bucket α)) (item : α × Nat) :
    (Bucket.deal buckets item).length = buckets.length := by
  simp [Bucket.deal]

theorem length_foldl_deal (items : List (α × Nat)) (buckets : List (Bucket α)) :
    (items.foldl Bucket.deal buckets).length = buckets.length := by
  induction items generalizing buckets with
  | nil => rfl
  | cons item items ih => rw [List.foldl_cons, ih, Bucket.length_deal]

@[simp] theorem length_balance (items : List (α × Nat)) (count : Nat) :
    (balance items count).length = count := by
  rw [balance, length_foldl_deal, List.length_replicate]

/-! ### Partitions of regions -/

/-- The regions with their sizes, all of which must be in the map. -/
def sizedRegions (m : MemoryMap) : List RegionId → Except Error (List (RegionId × Nat))
  | [] => .ok []
  | id :: ids =>
    match m.region? id with
    | none => .error (.unknownRegion id)
    | some region => do
      let rest ← sizedRegions m ids
      return (id, region.size) :: rest

/-- Deals regions out to so many workers, of which there must be one at least. -/
def partition (m : MemoryMap) (regions : List RegionId) (workers : Nat) :
    Except Error (List (List RegionId)) :=
  if workers = 0 then .error .noSessions
  else do
    let sized ← sizedRegions m regions
    return (balance sized workers).map Bucket.items

/-- A partition that is kept, with the stamp that it was made for. -/
structure Partition where
  shares : List (List RegionId) := []
  /-- The stamp of the selection; `none` before the first partition. -/
  stamp : Option Nat := none
  deriving DecidableEq, Repr, Inhabited

namespace Partition

/-- Whether the partition was made for this stamp and worker count. -/
def isFor (p : Partition) (stamp workers : Nat) : Bool :=
  p.stamp == some stamp && p.shares.length == workers

/-- The partition for a selection, and whether it had to be made. -/
def update (p : Partition) (m : MemoryMap) (regions : List RegionId) (stamp workers : Nat)
    (force : Bool) : Except Error (Bool × Partition) :=
  if !force && p.isFor stamp workers then .ok (false, p)
  else do
    let shares ← partition m regions workers
    return (true, { shares, stamp := some stamp })

end Partition

end PointerChains
