import PointerChains.Proofs.Balance.Dealing

/-!
# Shares are fair

An item goes to a bucket that is loaded no more than any other, so that at this moment the bucket
exceeds no other one by more than the item.  Later the others only grow, until the bucket gets
another item and the same holds of that one.  With the largest items first the last item of a share
is also its smallest, and summing up over all workers bounds the largest share by the average.

* `Bucket.Fair` — no bucket exceeds another one by more than its last item, and `Bucket.Fair.deal`,
  `fair_dealt` — one more item keeps it so;
* `peak` — the largest of some numbers;
* `length_mul_le` — numbers that none exceeds by much are near their average;
* `balance_fair` — **no share exceeds another by more than its smallest item, and the largest one
  exceeds the average by no more than the largest item.**
-/

namespace PointerChains

variable {α : Type} {count : Nat}

/-! ### One bucket and another -/

namespace Bucket

variable {buckets : List (Bucket (α × Nat))}

/-- No bucket exceeds another one by more than its last item. -/
def Fair (buckets : List (Bucket (α × Nat))) : Prop :=
  ∀ b ∈ buckets, ∀ last, b.items.getLast? = some last →
    ∀ c ∈ buckets, b.total ≤ c.total + last.2

/-- A bucket with one more item has no smaller total than before. -/
theorem le_total_push {b : Bucket α} (h : b.total < 2 ^ 64) (item : α) (size : Nat) :
    b.total ≤ (b.push item size).total := by
  show b.total ≤ min (b.total + size) (2 ^ 64 - 1)
  omega

theorem Fair.deal (h : Fair buckets) (hwords : ∀ c ∈ buckets, c.total < 2 ^ 64)
    (item : α × Nat) : Fair (deal buckets (item, item.2)) := by
  by_cases hne : buckets = []
  · subst hne
    intro b hb
    cases hb
  obtain ⟨before, b, after, hsplit, hdeal, -, hleast⟩ := exists_deal hne (item, item.2)
  have hb : b ∈ buckets := by
    rw [hsplit]
    exact List.mem_append_right _ (List.mem_cons_self ..)
  have hgrown : b.total ≤ (b.push item item.2).total := le_total_push (hwords b hb) ..
  -- every bucket stands where one with no larger total stood
  have hold : ∀ c ∈ Bucket.deal buckets (item, item.2), ∃ c' ∈ buckets, c'.total ≤ c.total := by
    intro c hc
    rcases mem_deal hc with hc | ⟨c', hc', rfl⟩
    · exact ⟨c, hc, Nat.le_refl _⟩
    · exact ⟨c', hc', le_total_push (hwords c' hc') ..⟩
  intro d hd last hlast c hc
  obtain ⟨c', hc', hle⟩ := hold c hc
  rw [hdeal, List.mem_append, List.mem_cons] at hd
  have hother : d ∈ buckets → d.total ≤ c.total + last.2 := by
    intro hd
    exact Nat.le_trans (h d hd last hlast c' hc') (Nat.add_le_add_right hle _)
  rcases hd with hbefore | rfl | hafter
  · exact hother (by rw [hsplit]; simp [hbefore])
  · -- the bucket that got the item was loaded least
    have hitem : item = last := by
      have hlast' : (b.items ++ [item]).getLast? = some last := hlast
      rw [List.getLast?_concat, Option.some.injEq] at hlast'
      exact hlast'
    subst hitem
    have hleast' := hleast c' hc'
    show min (b.total + item.2) (2 ^ 64 - 1) ≤ c.total + item.2
    omega
  · exact hother (by rw [hsplit]; simp [hafter])

end Bucket

theorem total_lt_of_mem_dealt {order : List (α × Nat)} {b : Bucket (α × Nat)}
    (h : b ∈ dealt count (labelled order)) : b.total < 2 ^ 64 := by
  rw [total_eq_min h]
  omega

/-- Whenever the dealing is stopped, the buckets are fair. -/
theorem fair_dealt (count : Nat) (order : List (α × Nat)) :
    Bucket.Fair (dealt count (labelled order)) := by
  induction order using List.reverseRecOn with
  | nil =>
    intro b hb last hlast
    rw [List.eq_of_mem_replicate hb] at hlast
    cases hlast
  | append_singleton order item ih =>
    have hstep := ih.deal (fun c => total_lt_of_mem_dealt) item
    rw [labelled_append]
    exact dealt_concat count (labelled order) (item, item.2) ▸ hstep

/-! ### The largest of some numbers -/

/-- The largest of some numbers, zero if there are none. -/
def peak (loads : List Nat) : Nat := loads.foldr max 0

theorem peak_le_iff {loads : List Nat} {n : Nat} : peak loads ≤ n ↔ ∀ x ∈ loads, x ≤ n := by
  induction loads with
  | nil => simp [peak]
  | cons x loads ih =>
    rw [List.forall_mem_cons, ← ih]
    exact Nat.max_le

theorem le_peak {loads : List Nat} {x : Nat} (h : x ∈ loads) : x ≤ peak loads :=
  peak_le_iff.1 (Nat.le_refl _) x h

/-- A number that exceeds none of some others by more than `d` is at most `d` above their
average. -/
theorem length_mul_le {loads : List Nat} {x d : Nat} (h : ∀ y ∈ loads, x ≤ y + d) :
    loads.length * x ≤ loads.sum + loads.length * d := by
  induction loads with
  | nil => simp
  | cons y loads ih =>
    obtain ⟨hy, hloads⟩ := List.forall_mem_cons.1 h
    have hrest := ih hloads
    rw [List.length_cons, List.sum_cons, Nat.succ_mul, Nat.succ_mul]
    omega

/-- The number itself counts among them without a difference. -/
theorem length_mul_le_of_mem {loads : List Nat} {x d : Nat} (hx : x ∈ loads)
    (h : ∀ y ∈ loads, x ≤ y + d) :
    loads.length * x ≤ loads.sum + (loads.length - 1) * d := by
  obtain ⟨before, after, rfl⟩ := List.append_of_mem hx
  have hothers : ∀ y ∈ before ++ after, x ≤ y + d := by
    intro y hy
    refine h y ?_
    rw [List.mem_append] at hy
    rw [List.mem_append, List.mem_cons]
    exact hy.imp id .inr
  have hrest := length_mul_le hothers
  have hlength : (before ++ x :: after).length = (before ++ after).length + 1 := by
    simp only [List.length_append, List.length_cons]
    omega
  rw [hlength, Nat.add_sub_cancel, Nat.succ_mul]
  rw [List.sum_append] at hrest
  rw [List.sum_append, List.sum_cons]
  omega

/-! ### The shares of a balance -/

variable {items share : List (α × Nat)} {last : α × Nat}

/-- The last item of a share is its smallest. -/
theorem last_le_of_mem_sizedShares (hshare : share ∈ sizedShares items count)
    (hlast : share.getLast? = some last) : ∀ item ∈ share, last.2 ≤ item.2 := by
  have hsorted := (pairwise_largestFirst items).sublist (sublist_of_mem_sizedShares hshare)
  obtain ⟨init, rfl⟩ := List.getLast?_eq_some_iff.1 hlast
  intro item hitem
  rcases List.mem_append.1 hitem with hitem | hitem
  · exact (List.pairwise_append.1 hsorted).2.2 item hitem last (List.mem_singleton_self _)
  · rw [List.mem_singleton.1 hitem]

/-- No share exceeds another one by more than its last item. -/
theorem totalSize_share_le (hsize : totalSize items < 2 ^ 64)
    (hshare : share ∈ sizedShares items count) (hlast : share.getLast? = some last)
    {other : List (α × Nat)} (hother : other ∈ sizedShares items count) :
    totalSize share ≤ totalSize other + last.2 := by
  have hsize' : totalSize (largestFirst items) < 2 ^ 64 := by
    rw [totalSize_largestFirst]
    exact hsize
  rw [sizedShares_eq] at hshare hother
  obtain ⟨b, hb, rfl⟩ := List.mem_map.1 hshare
  obtain ⟨c, hc, rfl⟩ := List.mem_map.1 hother
  rw [← total_dealt hsize' hb, ← total_dealt hsize' hc]
  exact fair_dealt count _ b hb last hlast c hc

theorem sum_totalSize_sizedShares (items : List (α × Nat)) (hcount : 0 < count) :
    ((sizedShares items count).map totalSize).sum = totalSize items := by
  rw [← totalSize_of_perm (flatten_sizedShares items hcount)]
  exact (sum_map_flatten Prod.snd _).symm

theorem totals_balance (hsize : totalSize items < 2 ^ 64) (count : Nat) :
    (balance items count).map Bucket.total = (sizedShares items count).map totalSize := by
  rw [balance_eq_map hsize, List.map_map]
  rfl

/-- All items together, and the largest item once for each other worker, bound every share. -/
theorem mul_totalSize_le (hcount : 0 < count) (hsize : totalSize items < 2 ^ 64)
    (hshare : share ∈ sizedShares items count) :
    count * totalSize share ≤ totalSize items + (count - 1) * peak (items.map Prod.snd) := by
  have hnear : ∀ y ∈ (sizedShares items count).map totalSize,
      totalSize share ≤ y + peak (items.map Prod.snd) := by
    intro y hy
    obtain ⟨other, hother, rfl⟩ := List.mem_map.1 hy
    cases hlast : share.getLast? with
    | none =>
      rw [List.getLast?_eq_none_iff.1 hlast]
      exact Nat.zero_le _
    | some last =>
      have hle := totalSize_share_le hsize hshare hlast hother
      have hitem : last ∈ items :=
        (largestFirst_perm items).mem_iff.1
          ((sublist_of_mem_sizedShares hshare).subset (List.mem_of_getLast? hlast))
      exact Nat.le_trans hle (Nat.add_le_add_left (le_peak (List.mem_map_of_mem hitem)) _)
  have hmul := length_mul_le_of_mem (List.mem_map_of_mem hshare) hnear
  rw [List.length_map, length_sizedShares, sum_totalSize_sizedShares items hcount] at hmul
  exact hmul

theorem mul_peak_le (hcount : 0 < count) (hsize : totalSize items < 2 ^ 64) :
    count * peak ((balance items count).map Bucket.total) ≤
      totalSize items + (count - 1) * peak (items.map Prod.snd) := by
  rw [totals_balance hsize, Nat.mul_comm, ← Nat.le_div_iff_mul_le hcount, peak_le_iff]
  intro total htotal
  obtain ⟨share, hshare, rfl⟩ := List.mem_map.1 htotal
  rw [Nat.le_div_iff_mul_le hcount, Nat.mul_comm]
  exact mul_totalSize_le hcount hsize hshare

/-- The two largest items together are no smaller than the largest. -/
theorem peak_le_twoLargest (items : List (α × Nat)) :
    peak (items.map Prod.snd) ≤ totalSize ((largestFirst items).take 2) := by
  rw [peak_le_iff]
  intro size hsize
  obtain ⟨item, hitem, rfl⟩ := List.mem_map.1 hsize
  rw [← (largestFirst_perm items).mem_iff] at hitem
  have hsorted := pairwise_largestFirst items
  cases hall : largestFirst items with
  | nil =>
    rw [hall] at hitem
    cases hitem
  | cons first rest =>
    rw [hall] at hitem hsorted
    have hfirst : item.2 ≤ first.2 := by
      rcases List.mem_cons.1 hitem with rfl | hitem
      · exact Nat.le_refl _
      · exact (List.pairwise_cons.1 hsorted).1 item hitem
    have htake : (first :: rest).take 2 = [first] ++ rest.take 1 := rfl
    rw [htake, totalSize_append, totalSize_singleton]
    omega

/-- **Shares are fair.**  The buckets of a balance hold its items, and their totals are exact.  No
share exceeds another one by more than its last item, which is its smallest.  So the largest share
exceeds the average by no more than the largest item, less its part of the average, and all the more
by no more than the two largest items together. -/
theorem balance_fair (hcount : 0 < count) (hsize : totalSize items < 2 ^ 64) :
    balance items count = (sizedShares items count).map Bucket.ofShare ∧
    (sizedShares items count).flatten.Perm items ∧
    (∀ share ∈ sizedShares items count, ∀ last, share.getLast? = some last →
      (∀ item ∈ share, last.2 ≤ item.2) ∧
      ∀ other ∈ sizedShares items count, totalSize share - last.2 ≤ totalSize other) ∧
    count * peak ((balance items count).map Bucket.total) ≤
      totalSize items + (count - 1) * peak (items.map Prod.snd) ∧
    peak ((balance items count).map Bucket.total) ≤
      totalSize items / count + totalSize ((largestFirst items).take 2) := by
  have hpeak := mul_peak_le hcount hsize
  refine ⟨balance_eq_map hsize count, flatten_sizedShares items hcount, ?_, hpeak, ?_⟩
  · intro share hshare last hlast
    refine ⟨last_le_of_mem_sizedShares hshare hlast, ?_⟩
    intro other hother
    have hle := totalSize_share_le hsize hshare hlast hother
    omega
  · have htwo := peak_le_twoLargest items
    have hmul : (count - 1) * peak (items.map Prod.snd) ≤
        count * totalSize ((largestFirst items).take 2) :=
      Nat.mul_le_mul (Nat.sub_le ..) htwo
    rw [← Nat.sub_le_iff_le_add, Nat.le_div_iff_mul_le hcount, Nat.sub_mul, Nat.mul_comm,
      Nat.mul_comm _ count]
    omega

/-- Six items, the larger three of which differ little. -/
def sixItems : List (Char × Nat) :=
  [('a', 100), ('b', 90), ('c', 80), ('d', 40), ('e', 40), ('f', 10)]

theorem balance_fair_sixItems :
    (0 < 3 ∧ totalSize sixItems < 2 ^ 64 ∧
      ∃ share ∈ sizedShares sixItems 3, share.getLast? = some ('e', 40)) ∧
    balance sixItems 3 = (sizedShares sixItems 3).map Bucket.ofShare ∧
    (∀ share ∈ sizedShares sixItems 3, ∀ last, share.getLast? = some last →
      (∀ item ∈ share, last.2 ≤ item.2) ∧
      ∀ other ∈ sizedShares sixItems 3, totalSize share - last.2 ≤ totalSize other) ∧
    3 * peak ((balance sixItems 3).map Bucket.total) ≤ 360 + 2 * 100 ∧
    peak ((balance sixItems 3).map Bucket.total) ≤ 360 / 3 + 190 := by
  have hsize : totalSize sixItems < 2 ^ 64 := by decide
  obtain ⟨hbuckets, -, hfair, hpeak, htwo⟩ := balance_fair (show 0 < 3 by decide) hsize
  have htwoLargest : totalSize ((largestFirst sixItems).take 2) = 190 := by cbv
  rw [htwoLargest] at htwo
  have hshares : sizedShares sixItems 3 =
      [[('a', 100), ('f', 10)], [('b', 90), ('e', 40)], [('c', 80), ('d', 40)]] := by cbv
  refine ⟨⟨by decide, hsize, ?_⟩, hbuckets, hfair, hpeak, htwo⟩
  rw [hshares]
  exact ⟨_, List.mem_cons_of_mem _ (List.mem_cons_self ..), rfl⟩

/-- The totals of three workers, the middle one of which is above the average of 120. -/
example : (balance sixItems 3).map Bucket.total = [110, 130, 120] := by cbv

end PointerChains
