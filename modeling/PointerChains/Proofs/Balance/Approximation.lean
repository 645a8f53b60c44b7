import PointerChains.Proofs.Balance.Fairness

/-!
# A balance is close to the best one

Let `most` be the largest share of any other way to give the items to the workers.  The next item,
of size `s`, goes to the least loaded bucket.  If `3 * s ≤ most`, it does little to a bucket that is
at most at the average.  If `most < 3 * s`, at most two items of this size fit into a share, so that
an item takes up one half of a share if another of size `s` fits beside it, and both halves if not.
The other way has two halves for each worker.  The items before are no smaller than the next one,
and buckets without room for it would take up all halves already, so that one of them has room.

* `FitsInto` — items fit into so many shares of so much;
* `halves`, `takenUp` — the halves of a share that items take up, `takenUp_le_two` and
  `two_le_takenUp` — no more than both, and both if there is no room beside them;
* `exists_room` — a large item finds a bucket with room for it;
* `three_mul_total_le` — the bound for any moment of the dealing, by induction on the items;
* `three_mul_peak_le` — **the largest total of a balance is within 4/3 of that of any other way to
  give the items to the workers.**
-/

namespace PointerChains

variable {α : Type} {count most least : Nat} {items share order : List (α × Nat)}

/-! ### Items that fit -/

/-- The items fit into so many shares with at most so much in each. -/
def FitsInto (items : List (α × Nat)) (count most : Nat) : Prop :=
  ∃ shares : List (List (α × Nat)), shares.length = count ∧ items.Subperm shares.flatten ∧
    ∀ share ∈ shares, totalSize share ≤ most

theorem FitsInto.of_sublist {others : List (α × Nat)} (h : FitsInto items count most)
    (hsub : others.Sublist items) : FitsInto others count most := by
  obtain ⟨shares, hlength, hsubperm, hmost⟩ := h
  exact ⟨shares, hlength, hsub.subperm.trans hsubperm, hmost⟩

/-- What each share has at most, the items have together at most so many times. -/
theorem FitsInto.sum_map_le (h : FitsInto items count most) (f : α × Nat → Nat) {n : Nat}
    (hn : ∀ share, totalSize share ≤ most → (share.map f).sum ≤ n) :
    (items.map f).sum ≤ count * n := by
  obtain ⟨shares, rfl, hsubperm, hmost⟩ := h
  refine (sum_map_le_of_subperm f hsubperm).trans ?_
  have hshares : ∀ x ∈ shares.map fun share => (share.map f).sum, x ≤ n := by
    intro x hx
    obtain ⟨share, hshare, rfl⟩ := List.mem_map.1 hx
    exact hn share (hmost share hshare)
  have hsum := List.sum_le_card_nsmul _ n hshares
  rw [List.length_map, smul_eq_mul] at hsum
  rw [sum_map_flatten]
  exact hsum

theorem FitsInto.totalSize_le (h : FitsInto items count most) :
    totalSize items ≤ count * most :=
  h.sum_map_le Prod.snd fun _ => id

theorem FitsInto.le_most (h : FitsInto items count most) {item : α × Nat} (hitem : item ∈ items) :
    item.2 ≤ most := by
  obtain ⟨shares, -, hsubperm, hmost⟩ := h
  obtain ⟨share, hshare, hitem⟩ := List.mem_flatten.1 (hsubperm.subset hitem)
  have hle := totalSize_le_of_sublist (List.singleton_sublist.2 hitem)
  rw [totalSize_singleton] at hle
  exact hle.trans (hmost share hshare)

/-! ### Halves of a share -/

/-- How many halves of a share of `most` an item takes up, if another one is to have at least
`least`: both if it leaves no room for that, and none if it is smaller than that. -/
def halves (least most size : Nat) : Nat :=
  if size < least then 0 else if size + least ≤ most then 1 else 2

/-- The halves that items take up together. -/
def takenUp (least most : Nat) (items : List (α × Nat)) : Nat :=
  (items.map fun item => halves least most item.2).sum

theorem takenUp_cons (least most : Nat) (item : α × Nat) (items : List (α × Nat)) :
    takenUp least most (item :: items) = halves least most item.2 + takenUp least most items :=
  rfl

theorem one_le_halves {size : Nat} (h : least ≤ size) : 1 ≤ halves least most size := by
  rw [halves, if_neg (Nat.not_lt_of_le h)]
  split
  · exact Nat.le_refl _
  · exact Nat.le_succ _

/-- Items with one half between them have an item of `least`, those with two leave no room or are
two of these, and those with three do not fit. -/
theorem totalSize_of_takenUp (hmost : most < 3 * least) (share : List (α × Nat)) :
    (1 ≤ takenUp least most share → least ≤ totalSize share) ∧
    (2 ≤ takenUp least most share →
      2 * least ≤ totalSize share ∨ most < totalSize share + least) ∧
    (3 ≤ takenUp least most share → most < totalSize share) := by
  induction share with
  | nil => simp [takenUp]
  | cons item share ih =>
    have hsize : totalSize (item :: share) = item.2 + totalSize share := rfl
    rw [takenUp_cons, hsize, halves]
    by_cases hsmall : item.2 < least
    · rw [if_pos hsmall]
      omega
    · rw [if_neg hsmall]
      by_cases hroom : item.2 + least ≤ most
      · rw [if_pos hroom]
        omega
      · rw [if_neg hroom]
        omega

/-- What fits into a share takes up both halves at most, if three items of `least` do not fit. -/
theorem takenUp_le_two (hmost : most < 3 * least) (hshare : totalSize share ≤ most) :
    takenUp least most share ≤ 2 := by
  have hthree := (totalSize_of_takenUp hmost share).2.2
  omega

/-- Large items that leave no room for another one take up both halves. -/
theorem two_le_takenUp (hleast : least ≤ most) (hlarge : ∀ item ∈ share, least ≤ item.2)
    (hfull : most < totalSize share + least) : 2 ≤ takenUp least most share := by
  match share with
  | [] =>
    have hzero : totalSize ([] : List (α × Nat)) = 0 := rfl
    omega
  | [item] =>
    have hge := hlarge item (List.mem_singleton_self _)
    rw [totalSize_singleton] at hfull
    rw [takenUp_cons, halves, if_neg (Nat.not_lt_of_le hge), if_neg (Nat.not_le_of_lt hfull)]
    exact Nat.le_add_right ..
  | first :: second :: rest =>
    have hfirst : 1 ≤ halves least most first.2 := one_le_halves (hlarge first (by simp))
    have hsecond : 1 ≤ halves least most second.2 := one_le_halves (hlarge second (by simp))
    rw [takenUp_cons, takenUp_cons]
    omega

theorem FitsInto.takenUp_le (h : FitsInto items count most) (hmost : most < 3 * least) :
    takenUp least most items ≤ count * 2 :=
  h.sum_map_le _ fun _ => takenUp_le_two hmost

/-! ### Room for the next item -/

/-- **A large item finds room**: if it fits with the items before, none of which is smaller, and
three of its size do not fit into a share, then it fits into some bucket. -/
theorem exists_room (hcount : 0 < count) (hsize : totalSize order < 2 ^ 64) {item : α × Nat}
    (hlarge : ∀ before ∈ order, item.2 ≤ before.2) (hmost : most < 3 * item.2)
    (hfits : FitsInto (order ++ [item]) count most) :
    ∃ b ∈ dealt count (labelled order), b.total + item.2 ≤ most := by
  have hleast : item.2 ≤ most := hfits.le_most (by simp)
  by_contra hnone
  push Not at hnone
  -- all buckets are full, and take up all halves there are
  have hfull : ∀ taken ∈ ((dealt count (labelled order)).map Bucket.items).map
      (takenUp item.2 most), 2 ≤ taken := by
    intro taken htaken
    rw [List.map_map] at htaken
    obtain ⟨b, hb, rfl⟩ := List.mem_map.1 htaken
    have htotal := hnone b hb
    rw [total_dealt hsize hb] at htotal
    have hlarge' : ∀ before ∈ b.items, item.2 ≤ before.2 := fun before hbefore =>
      hlarge before ((sublist_of_mem_dealt hb).subset hbefore)
    exact two_le_takenUp hleast hlarge' htotal
  have htaken := List.card_nsmul_le_sum _ 2 hfull
  rw [List.length_map, List.length_map, length_dealt, smul_eq_mul] at htaken
  have hbefore : (((dealt count (labelled order)).map Bucket.items).map (takenUp item.2 most)).sum =
      takenUp item.2 most order := by
    have hperm := (dealt_perm hcount order).map fun before => halves item.2 most before.2
    rw [takenUp, ← hperm.sum_eq, List.flatMap_def]
    exact (sum_map_flatten _ _).symm
  rw [hbefore] at htaken
  have hnext : 1 ≤ halves item.2 most item.2 := one_le_halves (Nat.le_refl _)
  have hall := hfits.takenUp_le hmost
  rw [takenUp, List.map_append, List.sum_append, ← takenUp, List.map_singleton,
    List.sum_singleton] at hall
  omega

/-- A small item on top of the least loaded bucket, in numbers. -/
theorem three_mul_add_le {low size : Nat} (hcount : 0 < count)
    (havg : count * low + size ≤ count * most) (hsmall : 3 * size ≤ most) :
    3 * count * (low + size) ≤ (4 * count - 1) * most := by
  obtain ⟨others, rfl⟩ := Nat.exists_eq_succ_of_ne_zero (Nat.ne_of_gt hcount)
  have hfour : 4 * (others + 1) - 1 = 3 * (others + 1) + others := by omega
  calc 3 * (others + 1) * (low + size)
      = 3 * ((others + 1) * low + size) + others * (3 * size) := by ring
    _ ≤ 3 * ((others + 1) * most) + others * most :=
        Nat.add_le_add (Nat.mul_le_mul_left _ havg) (Nat.mul_le_mul_left _ hsmall)
    _ = (3 * (others + 1) + others) * most := by ring
    _ = (4 * (others + 1) - 1) * most := by rw [hfour]

/-- With room for the item there is nothing to lose. -/
theorem three_mul_le_of_le {total : Nat} (hcount : 0 < count) (hle : total ≤ most) :
    3 * count * total ≤ (4 * count - 1) * most :=
  Nat.mul_le_mul (by omega) hle

/-! ### The bound -/

/-- The totals at any moment, for items that come in falling order. -/
theorem three_mul_total_le (hcount : 0 < count) (hsize : totalSize order < 2 ^ 64)
    (hsorted : order.Pairwise fun a b => b.2 ≤ a.2) (hfits : FitsInto order count most)
    {b : Bucket (α × Nat)} (hb : b ∈ dealt count (labelled order)) :
    3 * count * b.total ≤ (4 * count - 1) * most := by
  induction order using List.reverseRecOn generalizing b with
  | nil =>
    rw [List.eq_of_mem_replicate hb]
    exact Nat.zero_le _
  | append_singleton order item ih =>
    have hbefore : order.Sublist (order ++ [item]) := List.sublist_append_left ..
    obtain ⟨hsorted', -, hlarge⟩ := List.pairwise_append.1 hsorted
    have hsize' := Nat.lt_of_le_of_lt (totalSize_le_of_sublist hbefore) hsize
    have hold : ∀ c ∈ dealt count (labelled order), 3 * count * c.total ≤ (4 * count - 1) * most :=
      fun c => ih hsize' hsorted' (hfits.of_sublist hbefore)
    have hstep : dealt count (labelled (order ++ [item])) =
        Bucket.deal (dealt count (labelled order)) (item, item.2) := by
      rw [labelled_append]
      exact dealt_concat ..
    obtain ⟨front, low, back, hsplit, hdeal, -, hleast⟩ :=
      Bucket.exists_deal (dealt_ne_nil hcount (labelled order)) (item, item.2)
    rw [hstep, hdeal, List.mem_append, List.mem_cons] at hb
    rcases hb with hfront | rfl | hback
    · exact hold b (by rw [hsplit]; simp [hfront])
    · -- the bucket that got the item
      have hgrown : (low.push item item.2).total ≤ low.total + item.2 := Nat.min_le_left ..
      refine (Nat.mul_le_mul_left _ hgrown).trans ?_
      rcases Nat.lt_or_ge most (3 * item.2) with hlargeItem | hsmall
      · have hlarge' : ∀ before ∈ order, item.2 ≤ before.2 := fun before hmem =>
          hlarge before hmem item (List.mem_singleton_self _)
        obtain ⟨c, hc, hroom⟩ := exists_room hcount hsize' hlarge' hlargeItem hfits
        have hlow := hleast c hc
        exact three_mul_le_of_le hcount (by omega)
      · have htotals : ∀ total ∈ (dealt count (labelled order)).map Bucket.total,
            low.total ≤ total := by
          intro total htotal
          obtain ⟨c, hc, rfl⟩ := List.mem_map.1 htotal
          exact hleast c hc
        have havg := List.card_nsmul_le_sum _ low.total htotals
        rw [List.length_map, length_dealt, smul_eq_mul, sum_totals hcount hsize'] at havg
        have hall := hfits.totalSize_le
        rw [totalSize_append, totalSize_singleton] at hall
        exact three_mul_add_le hcount (by omega) hsmall
    · exact hold b (by rw [hsplit]; simp [hback])

/-- **A balance is within 4/3 of the best one.**  Its buckets hold the items, with their totals.
However else the items are given to the workers, the largest total of the balance exceeds the
largest share of the other way by a third of it at most, less its part for each worker. -/
theorem three_mul_peak_le (hcount : 0 < count) (hsize : totalSize items < 2 ^ 64)
    {other : List (List (α × Nat))} (hlength : other.length = count)
    (hother : other.flatten.Perm items) :
    balance items count = (sizedShares items count).map Bucket.ofShare ∧
    (sizedShares items count).flatten.Perm items ∧
    3 * count * peak ((balance items count).map Bucket.total) ≤
      (4 * count - 1) * peak (other.map totalSize) := by
  refine ⟨balance_eq_map hsize count, flatten_sizedShares items hcount, ?_⟩
  have hfits : FitsInto (largestFirst items) count (peak (other.map totalSize)) := by
    refine ⟨other, hlength, ?_, ?_⟩
    · exact ((largestFirst_perm items).trans hother.symm).subperm
    · intro share hshare
      exact le_peak (List.mem_map_of_mem hshare)
  have hsize' : totalSize (largestFirst items) < 2 ^ 64 := by
    rw [totalSize_largestFirst]
    exact hsize
  have hpos : 0 < 3 * count := by omega
  rw [Nat.mul_comm, ← Nat.le_div_iff_mul_le hpos, peak_le_iff]
  intro total htotal
  rw [Nat.le_div_iff_mul_le hpos, Nat.mul_comm]
  obtain ⟨b, hb, rfl⟩ := List.mem_map.1 htotal
  rw [balance_eq_dealt] at hb
  obtain ⟨c, hc, rfl⟩ := List.mem_map.1 hb
  exact three_mul_total_le hcount hsize' (pairwise_largestFirst items) hfits hc

/-- Two larger items and three smaller ones. -/
def fiveItems : List (Char × Nat) := [('a', 3), ('b', 3), ('c', 2), ('d', 2), ('e', 2)]

/-- The larger items to one worker, and the smaller ones to the other. -/
def apart : List (List (Char × Nat)) := [[('a', 3), ('b', 3)], [('c', 2), ('d', 2), ('e', 2)]]

theorem three_mul_peak_le_fiveItems :
    (0 < 2 ∧ totalSize fiveItems < 2 ^ 64 ∧ apart.length = 2 ∧ apart.flatten.Perm fiveItems) ∧
    balance fiveItems 2 = (sizedShares fiveItems 2).map Bucket.ofShare ∧
    (sizedShares fiveItems 2).flatten.Perm fiveItems ∧
    3 * 2 * peak ((balance fiveItems 2).map Bucket.total) ≤ (4 * 2 - 1) * 6 := by
  have hsize : totalSize fiveItems < 2 ^ 64 := by decide
  have hlength : apart.length = 2 := rfl
  have hperm : apart.flatten.Perm fiveItems := .refl _
  exact ⟨⟨by decide, hsize, hlength, hperm⟩, three_mul_peak_le (by decide) hsize hlength hperm⟩

/-- The bound is reached: the balance splits up the larger items, and has a worker with 7. -/
example : (balance fiveItems 2).map Bucket.total = [7, 5] := by cbv

end PointerChains
