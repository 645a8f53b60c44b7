import Mathlib
import PointerChains.Proofs.Pool.Partition

/-!
# Dealing items out

A balance deals its items out one at a time, each into the first of the least loaded buckets.  A
bucket does not tell the sizes of what it holds, so they are kept as a part of the items: dealing
looks at the sizes alone, and does the same with items that carry theirs.  Everything here is about
items in any order, and about any moment of the dealing.

* `totalSize`, `dealt`, `labelled` — sizes together, the buckets after some items, and items that
  carry their sizes;
* `Bucket.exists_deal` — what one step does;
* `dealt_eq_map` — carried sizes change nothing but what is shown;
* `total_dealt` — totals are exact, unless they leave a word;
* `sublist_of_mem_dealt`, `dealt_perm`, `sum_totals` — what the buckets hold;
* `sizedShares`, `balance_eq_map` — the shares of a balance with the sizes of their items.
-/

namespace PointerChains

variable {α β : Type}

/-- The sizes of items together. -/
def totalSize (items : List (α × Nat)) : Nat := (items.map Prod.snd).sum

/-- The buckets after items have been dealt out in the given order. -/
def dealt (count : Nat) (order : List (α × Nat)) : List (Bucket α) :=
  order.foldl Bucket.deal (List.replicate count {})

/-- Items that carry their sizes. -/
def labelled (items : List (α × Nat)) : List ((α × Nat) × Nat) :=
  items.map fun item => (item, item.2)

/-- The order in which a balance deals its items out. -/
def largestFirst (items : List (α × Nat)) : List (α × Nat) := items.mergeSort fun a b => b.2 ≤ a.2

@[simp] theorem totalSize_append (items others : List (α × Nat)) :
    totalSize (items ++ others) = totalSize items + totalSize others := by
  simp [totalSize]

@[simp] theorem totalSize_singleton (item : α × Nat) : totalSize [item] = item.2 := by
  simp [totalSize]

theorem totalSize_of_perm {items others : List (α × Nat)} (h : items.Perm others) :
    totalSize items = totalSize others :=
  (h.map Prod.snd).sum_eq

/-- What is summed up over all shares is summed up over each. -/
theorem sum_map_flatten (f : β → Nat) (xss : List (List β)) :
    (xss.flatten.map f).sum = (xss.map fun xs => (xs.map f).sum).sum := by
  rw [List.map_flatten, List.sum_flatten, List.map_map]
  rfl

/-- What is summed up over items is less for fewer of them. -/
theorem sum_map_le_of_subperm (f : β → Nat) {xs ys : List β} (h : xs.Subperm ys) :
    (xs.map f).sum ≤ (ys.map f).sum := by
  obtain ⟨zs, hperm, hsub⟩ := h
  rw [← (hperm.map f).sum_eq]
  exact (hsub.map f).sum_le_sum fun _ _ => Nat.zero_le _

theorem totalSize_le_of_sublist {items others : List (α × Nat)} (h : items.Sublist others) :
    totalSize items ≤ totalSize others :=
  sum_map_le_of_subperm Prod.snd h.subperm

/-! ### One item -/

namespace Bucket

/-- All that a step does: it puts the item into the first of the least loaded buckets. -/
theorem exists_deal {buckets : List (Bucket α)} (h : buckets ≠ []) (item : α × Nat) :
    ∃ before b after, buckets = before ++ b :: after ∧
      deal buckets item = before ++ b.push item.1 item.2 :: after ∧
      (∀ c ∈ before, b.total < c.total) ∧ ∀ c ∈ buckets, b.total ≤ c.total := by
  have hne : buckets.map total ≠ [] := by
    rw [ne_eq, List.map_eq_nil_iff]
    exact h
  obtain ⟨least, hleast⟩ := Option.isSome_iff_exists.1 (List.isSome_min?_of_ne_nil hne)
  have hlt := leastLoaded_lt h
  have hat : leastLoaded buckets = (buckets.map total).idxOf least := by
    rw [leastLoaded, hleast, Option.getD_some]
  have hsplit : buckets = buckets.take (leastLoaded buckets) ++
      buckets[leastLoaded buckets] :: buckets.drop (leastLoaded buckets + 1) := by
    rw [← List.drop_eq_getElem_cons hlt, List.take_append_drop]
  have hmin : ∀ c ∈ buckets, least ≤ c.total := by
    intro c hc
    exact (List.min?_eq_some_iff.1 hleast).2 _ (List.mem_map_of_mem hc)
  have htotal : buckets[leastLoaded buckets].total = least := by
    have hlt' : (buckets.map total).idxOf least < (buckets.map total).length := by
      rw [List.length_map, ← hat]
      exact hlt
    have hget := List.getElem_idxOf hlt'
    simp only [List.getElem_map, ← hat] at hget
    exact hget
  refine ⟨_, _, _, hsplit, List.modify_eq_take_cons_drop hlt, ?_, ?_⟩
  · intro c hc
    rw [htotal]
    refine Nat.lt_of_le_of_ne (hmin c (List.mem_of_mem_take hc)) ?_
    intro hsame
    -- an earlier bucket with this total would be the first one
    have hmem : least ∈ (buckets.take (leastLoaded buckets)).map total :=
      List.mem_map.2 ⟨c, hc, hsame.symm⟩
    have hfirst := List.idxOf_lt_length_of_mem hmem
    have hsame' : (buckets.map total).idxOf least =
        ((buckets.take (leastLoaded buckets)).map total).idxOf least := by
      conv_lhs => rw [hsplit, List.map_append, List.idxOf_append_of_mem hmem]
    rw [← hsame', ← hat, List.length_map, List.length_take] at hfirst
    omega
  · intro c hc
    rw [htotal]
    exact hmin c hc

/-- After a step a bucket is one from before, or has just got the item. -/
theorem mem_deal {buckets : List (Bucket α)} {item : α × Nat} {c : Bucket α}
    (h : c ∈ deal buckets item) :
    c ∈ buckets ∨ ∃ b ∈ buckets, c = b.push item.1 item.2 := by
  by_cases hne : buckets = []
  · subst hne
    exact .inl h
  · obtain ⟨before, b, after, hsplit, hdeal, -, -⟩ := exists_deal hne item
    rw [hdeal, List.mem_append, List.mem_cons] at h
    rcases h with hbefore | rfl | hafter
    · exact .inl (by rw [hsplit]; simp [hbefore])
    · exact .inr ⟨b, by rw [hsplit]; simp, rfl⟩
    · exact .inl (by rw [hsplit]; simp [hafter])

/-- The bucket with other things in place of its items. -/
def map (f : α → β) (b : Bucket α) : Bucket β := { items := b.items.map f, total := b.total }

theorem map_push (f : α → β) (b : Bucket α) (item : α) (size : Nat) :
    (b.push item size).map f = (b.map f).push (f item) size := by
  simp [map, push]

/-- Dealing does not look at the items. -/
theorem map_deal (f : α → β) (buckets : List (Bucket α)) (item : α × Nat) :
    (deal buckets item).map (map f) = deal (buckets.map (map f)) (f item.1, item.2) := by
  have htotals : (buckets.map (map f)).map total = buckets.map total := by
    rw [List.map_map]
    rfl
  have hleast : leastLoaded (buckets.map (map f)) = leastLoaded buckets := by
    simp only [leastLoaded, htotals]
  refine List.ext_getElem? ?_
  intro n
  simp only [deal, hleast, List.getElem?_map, List.getElem?_modify]
  by_cases hn : leastLoaded buckets = n
  · simp [hn, Function.comp_def, map_push]
  · simp [hn]

end Bucket

/-! ### Items one after the other -/

variable {count : Nat} {order : List (α × Nat)}

theorem dealt_concat (count : Nat) (order : List (α × Nat)) (item : α × Nat) :
    dealt count (order ++ [item]) = Bucket.deal (dealt count order) item :=
  List.foldl_concat ..

@[simp] theorem length_dealt (count : Nat) (order : List (α × Nat)) :
    (dealt count order).length = count := by
  rw [dealt, length_foldl_deal, List.length_replicate]

theorem dealt_ne_nil (h : 0 < count) (order : List (α × Nat)) : dealt count order ≠ [] := by
  intro hnil
  have hlength := length_dealt count order
  rw [hnil, List.length_nil] at hlength
  omega

theorem labelled_append (items others : List (α × Nat)) :
    labelled (items ++ others) = labelled items ++ labelled others :=
  List.map_append

@[simp] theorem map_fst_labelled (items : List (α × Nat)) :
    (labelled items).map Prod.fst = items := by
  rw [labelled, List.map_map]
  exact List.map_id _

/-- Items that carry their sizes are dealt out like the items alone. -/
theorem dealt_eq_map (count : Nat) (order : List (α × Nat)) :
    dealt count order = (dealt count (labelled order)).map (Bucket.map Prod.fst) := by
  induction order using List.reverseRecOn with
  | nil =>
    show List.replicate count {} = (List.replicate count {}).map (Bucket.map Prod.fst)
    rw [List.map_replicate]
    rfl
  | append_singleton order item ih =>
    have hlast : labelled (order ++ [item]) = labelled order ++ [(item, item.2)] :=
      labelled_append order [item]
    rw [hlast, dealt_concat, dealt_concat, Bucket.map_deal, ih]

/-! ### What the buckets hold -/

variable {b : Bucket (α × Nat)}

theorem sublist_of_mem_dealt (h : b ∈ dealt count (labelled order)) : b.items.Sublist order := by
  induction order using List.reverseRecOn generalizing b with
  | nil => rw [List.eq_of_mem_replicate h]
  | append_singleton order item ih =>
    rw [labelled_append] at h
    have hcases := Bucket.mem_deal (dealt_concat count (labelled order) (item, item.2) ▸ h)
    rcases hcases with hold | ⟨c, hc, rfl⟩
    · exact (ih hold).trans (List.sublist_append_left ..)
    · exact (ih hc).append (List.Sublist.refl _)

/-- A total is that of the items, as long as that is a word. -/
theorem total_eq_min (h : b ∈ dealt count (labelled order)) :
    b.total = min (totalSize b.items) (2 ^ 64 - 1) := by
  induction order using List.reverseRecOn generalizing b with
  | nil =>
    rw [List.eq_of_mem_replicate h]
    rfl
  | append_singleton order item ih =>
    rw [labelled_append] at h
    have hcases := Bucket.mem_deal (dealt_concat count (labelled order) (item, item.2) ▸ h)
    rcases hcases with hold | ⟨c, hc, rfl⟩
    · exact ih hold
    · show min (c.total + item.2) (2 ^ 64 - 1) = min (totalSize (c.items ++ [item])) (2 ^ 64 - 1)
      rw [ih hc, totalSize_append, totalSize_singleton]
      omega

/-- Items that are less than a word together have exact totals. -/
theorem total_dealt (hsize : totalSize order < 2 ^ 64) (h : b ∈ dealt count (labelled order)) :
    b.total = totalSize b.items := by
  have hle := totalSize_le_of_sublist (sublist_of_mem_dealt h)
  rw [total_eq_min h]
  omega

/-- The buckets together hold the items that were dealt out. -/
theorem dealt_perm (hcount : 0 < count) (order : List (α × Nat)) :
    ((dealt count (labelled order)).flatMap Bucket.items).Perm order := by
  have hdealt := flatten_foldl_deal_empty (labelled order) hcount
  rw [map_fst_labelled] at hdealt
  exact hdealt

/-- The totals together are the sizes of the items together. -/
theorem sum_totals (hcount : 0 < count) (hsize : totalSize order < 2 ^ 64) :
    ((dealt count (labelled order)).map Bucket.total).sum = totalSize order := by
  have hexact : (dealt count (labelled order)).map Bucket.total =
      ((dealt count (labelled order)).map Bucket.items).map totalSize := by
    rw [List.map_map]
    exact List.map_congr_left fun b hb => total_dealt hsize hb
  rw [hexact, ← totalSize_of_perm (dealt_perm hcount order), List.flatMap_def]
  exact (sum_map_flatten Prod.snd _).symm

/-! ### The shares of a balance -/

theorem largestFirst_perm (items : List (α × Nat)) : (largestFirst items).Perm items :=
  List.mergeSort_perm ..

@[simp] theorem totalSize_largestFirst (items : List (α × Nat)) :
    totalSize (largestFirst items) = totalSize items :=
  totalSize_of_perm (largestFirst_perm items)

/-- No item comes before a larger one. -/
theorem pairwise_largestFirst (items : List (α × Nat)) :
    (largestFirst items).Pairwise fun a b => b.2 ≤ a.2 := by
  have hsorted : (largestFirst items).Pairwise fun a b => decide (b.2 ≤ a.2) := by
    refine List.pairwise_mergeSort ?_ ?_ items
    · intro a b c hab hbc
      rw [decide_eq_true_eq] at hab hbc ⊢
      exact Nat.le_trans hbc hab
    · intro a b
      rw [Bool.or_eq_true, decide_eq_true_eq, decide_eq_true_eq]
      exact Nat.le_total ..
  exact hsorted.imp fun h => of_decide_eq_true h

theorem labelled_largestFirst (items : List (α × Nat)) :
    labelled (largestFirst items) = largestFirst (labelled items) :=
  List.map_mergeSort fun _ _ _ _ => rfl

/-- A balance deals out items that carry their sizes. -/
theorem balance_eq_dealt (items : List (α × Nat)) (count : Nat) :
    balance items count =
      (dealt count (labelled (largestFirst items))).map (Bucket.map Prod.fst) :=
  dealt_eq_map count (largestFirst items)

/-- What the workers are given, with the sizes of the items. -/
def sizedShares (items : List (α × Nat)) (count : Nat) : List (List (α × Nat)) :=
  (balance (labelled items) count).map Bucket.items

/-- The bucket that holds items of given sizes. -/
def Bucket.ofShare (share : List (α × Nat)) : Bucket α :=
  { items := share.map Prod.fst, total := totalSize share }

theorem sizedShares_eq (items : List (α × Nat)) (count : Nat) :
    sizedShares items count = (dealt count (labelled (largestFirst items))).map Bucket.items := by
  rw [labelled_largestFirst]
  rfl

theorem length_sizedShares (items : List (α × Nat)) (count : Nat) :
    (sizedShares items count).length = count := by
  rw [sizedShares, List.length_map, length_balance]

/-- The buckets of a balance are its shares, with exact totals. -/
theorem balance_eq_map {items : List (α × Nat)} (hsize : totalSize items < 2 ^ 64) (count : Nat) :
    balance items count = (sizedShares items count).map Bucket.ofShare := by
  have hsize' : totalSize (largestFirst items) < 2 ^ 64 := by
    rw [totalSize_largestFirst]
    exact hsize
  rw [sizedShares_eq, List.map_map, balance_eq_dealt]
  refine List.map_congr_left ?_
  intro b hb
  rw [Bucket.map, total_dealt hsize' hb]
  rfl

/-- The shares of a balance together are its items. -/
theorem flatten_sizedShares (items : List (α × Nat)) {count : Nat} (hcount : 0 < count) :
    (sizedShares items count).flatten.Perm items := by
  rw [sizedShares_eq, ← List.flatMap_def]
  exact (dealt_perm hcount _).trans (largestFirst_perm items)

theorem sublist_of_mem_sizedShares {items share : List (α × Nat)}
    (h : share ∈ sizedShares items count) : share.Sublist (largestFirst items) := by
  rw [sizedShares_eq] at h
  obtain ⟨b, hb, rfl⟩ := List.mem_map.1 h
  exact sublist_of_mem_dealt hb

end PointerChains
