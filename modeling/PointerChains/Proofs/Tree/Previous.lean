import Mathlib.Data.List.Nodup
import PointerChains.Proofs.Tree.Rows

/-!
# The level before

A level in the making looks its parents up on the level before, by bisection in the order of their
addresses.

* `mem_extract_bisect` — what lies between two borders;
* `LevelBuilder.Lists` — the builder lists the nodes of the level before, in order, and
  `Tree.lists_of_levelBuilder` — it does at the start;
* `LevelBuilder.mem_candidatesFor` — **the candidates for a value are the nodes at it or up to
  the given size above it.**
-/

namespace PointerChains

/-! ### Orders -/

namespace NodeRef

variable {m n k : Address × NodeRef}

theorem leAt_iff : NodeRef.leAt m n ↔
    m.1.toNat < n.1.toNat ∨ (m.1.toNat = n.1.toNat ∧ m.2.le n.2) := by
  rw [leAt, Bool.or_eq_true, Bool.and_eq_true, decide_eq_true_eq, beq_iff_eq,
    Address.lt_iff_toNat_lt]
  constructor
  · intro h
    rcases h with hlt | ⟨heq, hle⟩
    · exact .inl hlt
    · exact .inr ⟨congrArg Address.toNat heq, hle⟩
  · intro h
    rcases h with hlt | ⟨heq, hle⟩
    · exact .inl hlt
    · exact .inr ⟨Address.toNat_injective heq, hle⟩

theorem leAt_trans (h : NodeRef.leAt m n) (h' : NodeRef.leAt n k) : NodeRef.leAt m k := by
  rw [leAt_iff] at *
  rcases h with hlt | ⟨heq, hle⟩
  · rcases h' with hlt' | ⟨heq', -⟩
    · exact .inl (Nat.lt_trans hlt hlt')
    · exact .inl (heq' ▸ hlt)
  · rcases h' with hlt' | ⟨heq', hle'⟩
    · exact .inl (heq ▸ hlt')
    · exact .inr ⟨heq.trans heq', NodeRef.le_trans hle hle'⟩

theorem leAt_total (m n : Address × NodeRef) : NodeRef.leAt m n || NodeRef.leAt n m := by
  rw [Bool.or_eq_true, leAt_iff, leAt_iff]
  rcases Nat.lt_trichotomy m.1.toNat n.1.toNat with hlt | heq | hlt
  · exact .inl (.inl hlt)
  · have htotal := NodeRef.le_total m.2 n.2
    rw [Bool.or_eq_true] at htotal
    rcases htotal with hle | hle
    · exact .inl (.inr ⟨heq, hle⟩)
    · exact .inr (.inr ⟨heq.symm, hle⟩)
  · exact .inr (.inl hlt)

theorem fst_le_of_leAt (h : NodeRef.leAt m n) : m.1.toNat ≤ n.1.toNat := by
  rcases leAt_iff.1 h with hlt | ⟨heq, -⟩
  · exact Nat.le_of_lt hlt
  · exact Nat.le_of_eq heq

theorem pairwise_leAt (nodes : List (Address × NodeRef)) :
    (nodes.mergeSort NodeRef.leAt).Pairwise fun m n => NodeRef.leAt m n := by
  refine List.pairwise_mergeSort ?_ ?_ nodes
  · intro m n k
    exact leAt_trans
  · intro m n
    exact leAt_total m n

end NodeRef

/-! ### Between two borders -/

/-- Between the borders of two tests lies what passes the one and not the other. -/
theorem mem_extract_bisect {α : Type} {p q : α → Bool} {xs : Array α} (hp : Splits p xs)
    (hq : Splits q xs) (x : α) :
    x ∈ xs.extract (bisect p xs) (max (bisect q xs) (bisect p xs)) ↔ x ∈ xs ∧ ¬p x ∧ q x := by
  rw [Array.mem_extract_iff_getElem]
  constructor
  · intro h
    obtain ⟨k, hk, rfl⟩ := h
    have hlt : bisect p xs + k < xs.size := by omega
    rw [bisect_spec hp hlt, bisect_spec hq hlt]
    exact ⟨Array.getElem_mem _, by omega, by omega⟩
  · intro h
    obtain ⟨hx, hnot, hpass⟩ := h
    obtain ⟨i, hi, rfl⟩ := Array.getElem_of_mem hx
    rw [bisect_spec hp hi] at hnot
    rw [bisect_spec hq hi] at hpass
    refine ⟨i - bisect p xs, by omega, ?_⟩
    simp only [show bisect p xs + (i - bisect p xs) = i by omega]

/-- A test that never fails before it passes splits an array. -/
theorem splits_of_pairwise {α : Type} {p : α → Bool} {xs : Array α}
    (h : xs.toList.Pairwise fun x y => p y → p x) : Splits p xs := by
  intro i j hle hi hj hpass
  rcases Nat.eq_or_lt_of_le hle with rfl | hlt
  · exact hpass
  · exact List.pairwise_iff_getElem.1 h i j hi hj hlt hpass

/-! ### The builder's list -/

namespace LevelBuilder

variable {b : LevelBuilder} {t : Tree} {value : Address} {size : UInt64}

/-- The builder lists the nodes of the level before its own, in order. -/
structure Lists (b : LevelBuilder) (t : Tree) : Prop where
  pos : 0 < b.depth
  lt : b.depth < t.depth
  sorted : b.previous.toList.Pairwise fun m n => NodeRef.leAt m n
  nodup : (b.previous.toList.map Prod.snd).Nodup
  mem_iff : ∀ n, n ∈ b.previous.toList ↔ n.2.depth + 1 = b.depth ∧ t.own? n.2 = some n.1

/-- **The candidates for a value are the nodes at it or up to the given size above it.** -/
theorem mem_candidatesFor (hsorted : b.previous.toList.Pairwise fun m n => NodeRef.leAt m n)
    (n : Address × NodeRef) :
    n ∈ (b.candidatesFor value size).toList ↔ n ∈ b.previous.toList ∧
      value.toNat ≤ n.1.toNat ∧ n.1.toNat - value.toNat ≤ size.toNat := by
  have hbefore : Splits (fun n : Address × NodeRef => n.1 < value) b.previous := by
    refine splits_of_pairwise (hsorted.imp ?_)
    intro m n hle hlt
    have hle := NodeRef.fst_le_of_leAt hle
    rw [decide_eq_true_eq, Address.lt_iff_toNat_lt] at hlt ⊢
    omega
  have hupto : Splits (fun n : Address × NodeRef => n.1 ≤ value.addSat size) b.previous := by
    refine splits_of_pairwise (hsorted.imp ?_)
    intro m n hle hlt
    have hle := NodeRef.fst_le_of_leAt hle
    rw [decide_eq_true_eq, Address.le_iff_toNat_le] at hlt ⊢
    omega
  have hlast := n.1.toNat_lt
  rw [Array.mem_toList_iff, candidatesFor, mem_extract_bisect hbefore hupto, Array.mem_toList_iff,
    decide_eq_true_eq, decide_eq_true_eq, Address.lt_iff_toNat_lt, Address.le_iff_toNat_le,
    Address.toNat_addSat]
  constructor
  · intro h
    obtain ⟨hmem, hge, hle⟩ := h
    exact ⟨hmem, by omega, by omega⟩
  · intro h
    obtain ⟨hmem, hge, hle⟩ := h
    exact ⟨hmem, by omega, by omega⟩

theorem sublist_candidatesFor (b : LevelBuilder) (value : Address) (size : UInt64) :
    (b.candidatesFor value size).toList.Sublist b.previous.toList := by
  rw [candidatesFor, Array.toList_extract, List.extract_eq_take_drop]
  exact (List.take_sublist ..).trans (List.drop_sublist ..)

end LevelBuilder

namespace Tree

variable {t : Tree} {depth : Nat}

/-- The nodes of a level with their addresses. -/
def addressed (t : Tree) (depth : Nat) : List (Address × NodeRef) :=
  (t.level depth).toList.zipIdx.map fun (node, index) => (node.own, ⟨depth, index⟩)

theorem nodup_addressed (t : Tree) (depth : Nat) :
    ((t.addressed depth).map Prod.snd).Nodup := by
  have hindices : ((t.addressed depth).map Prod.snd).map NodeRef.index =
      List.range' 0 (t.level depth).toList.length := by
    rw [addressed, List.map_map, List.map_map]
    exact List.zipIdx_map_snd ..
  refine List.Nodup.of_map NodeRef.index ?_
  rw [hindices]
  exact List.nodup_range'

theorem mem_addressed_iff {n : Address × NodeRef} :
    n ∈ t.addressed depth ↔ n.2.depth = depth ∧ t.own? n.2 = some n.1 := by
  obtain ⟨own, d, i⟩ := n
  rw [addressed, List.mem_map, own?, node?_eq, Option.map_eq_some_iff]
  constructor
  · intro h
    obtain ⟨⟨node, index⟩, hmem, heq⟩ := h
    rw [Prod.mk.injEq, NodeRef.mk.injEq] at heq
    obtain ⟨rfl, rfl, rfl⟩ := heq
    refine ⟨rfl, node, ?_, rfl⟩
    rw [List.mk_mem_zipIdx_iff_getElem?, Array.getElem?_toList] at hmem
    exact hmem
  · intro h
    obtain ⟨rfl, node, hnode, rfl⟩ := h
    refine ⟨(node, i), ?_, rfl⟩
    rw [List.mk_mem_zipIdx_iff_getElem?, Array.getElem?_toList]
    exact hnode

theorem lists_of_levelBuilder {b : LevelBuilder} (h : t.levelBuilder depth = .ok b) :
    b.depth = depth ∧ b.pending = [] ∧ b.Lists t := by
  rw [levelBuilder] at h
  by_cases hdepth : depth = 0 ∨ t.depth ≤ depth
  · rw [if_pos hdepth] at h
    cases h
  · rw [if_neg hdepth] at h
    cases h
    have hpos : 0 < depth := by omega
    have hlt : depth < t.depth := by omega
    refine ⟨rfl, rfl, hpos, hlt, ?_, ?_, ?_⟩
    · exact NodeRef.pairwise_leAt (t.addressed (depth - 1))
    · have hperm := (List.mergeSort_perm (t.addressed (depth - 1)) NodeRef.leAt).map Prod.snd
      exact hperm.nodup_iff.2 (t.nodup_addressed (depth - 1))
    · intro n
      show n ∈ (t.addressed (depth - 1)).mergeSort NodeRef.leAt ↔ n.2.depth + 1 = depth ∧ _
      rw [List.mem_mergeSort, mem_addressed_iff]
      have hdepths : n.2.depth = depth - 1 ↔ n.2.depth + 1 = depth := by omega
      rw [hdepths]

/-- The builder lists the nodes of the level before, each once. -/
theorem previous_perm {b : LevelBuilder} (h : t.levelBuilder depth = .ok b) :
    b.previous.toList.Perm (t.addressed (depth - 1)) := by
  rw [levelBuilder] at h
  by_cases hdepth : depth = 0 ∨ t.depth ≤ depth
  · rw [if_pos hdepth] at h
    cases h
  · rw [if_neg hdepth] at h
    cases h
    exact List.mergeSort_perm (t.addressed (depth - 1)) NodeRef.leAt

end Tree

end PointerChains
