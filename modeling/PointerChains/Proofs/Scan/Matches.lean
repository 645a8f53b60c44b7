import PointerChains.Proofs.Sweep.Window
import PointerChains.Proofs.Tree.Previous
import PointerChains.Scan.Matcher

/-!
# What matches

A value leads to the nodes of the level before that lie at it or shortly above it.  Bisection, the
test for a required distance and the cut behind the nearest nodes leave exactly these.

* `Matcher.Reaches` — a node is near enough to a value, and at the required distance;
* `Matcher.mem_parents_iff` — **the parents for a value are the nodes that it reaches, or the
  nearest of them**;
* `Matcher.mem_candidates_iff` — the candidates at a visited address;
* `Matcher.pairwise_candidates` — no two candidates of a sweep have the same place and parent.
-/

namespace PointerChains

/-- Where a test never passes after it has failed, what passes is a first part. -/
theorem takeWhile_eq_filter {α : Type} {p : α → Bool} {l : List α}
    (h : l.Pairwise fun x y => p y → p x) : l.takeWhile p = l.filter p := by
  induction l with
  | nil => rfl
  | cons x l ih =>
    obtain ⟨hx, hl⟩ := List.pairwise_cons.1 h
    by_cases hpass : p x
    · rw [List.takeWhile_cons_of_pos hpass, List.filter_cons_of_pos hpass, ih hl]
    · have hnone : l.filter p = [] := by
        rw [List.filter_eq_nil_iff]
        intro y hy hpass'
        exact hpass (hx y hy hpass')
      rw [List.takeWhile_cons_of_neg hpass, List.filter_cons_of_neg hpass, hnone]

theorem toNat_distance {value : Address} {n : Address × NodeRef} (h : value.toNat ≤ n.1.toNat) :
    (distance value n).toNat = n.1.toNat - value.toNat :=
  UInt64.toNat_sub_of_le _ _ (UInt64.le_iff_toNat_le.2 h)

/-- Among nodes in order above a value, the nearest are those that no other is nearer than. -/
theorem mem_nearest_iff {value : Address} {nodes : List (Address × NodeRef)}
    (hsorted : nodes.Pairwise fun m n => NodeRef.leAt m n)
    (habove : ∀ n ∈ nodes, value.toNat ≤ n.1.toNat) (n : Address × NodeRef) :
    n ∈ nearest value nodes ↔ n ∈ nodes ∧
      ∀ k ∈ nodes, n.1.toNat - value.toNat ≤ k.1.toNat - value.toNat := by
  cases nodes with
  | nil =>
    constructor
    · intro hn
      cases hn
    · intro h
      obtain ⟨hn, -⟩ := h
      cases hn
  | cons first rest =>
    have hfirst := habove first (List.mem_cons_self ..)
    have hpass : ∀ k ∈ first :: rest, decide (distance value k ≤ distance value first) = true ↔
        k.1.toNat - value.toNat ≤ first.1.toNat - value.toNat := by
      intro k hk
      rw [decide_eq_true_eq, UInt64.le_iff_toNat_le, toNat_distance (habove k hk),
        toNat_distance hfirst]
    have hmono : (first :: rest).Pairwise fun x y =>
        decide (distance value y ≤ distance value first) = true →
          decide (distance value x ≤ distance value first) = true := by
      refine hsorted.imp_of_mem ?_
      intro x y hx hy hle hpass'
      rw [hpass x hx]
      rw [hpass y hy] at hpass'
      have hxy := NodeRef.fst_le_of_leAt hle
      omega
    have hleast : ∀ k ∈ first :: rest, first.1.toNat ≤ k.1.toNat := by
      intro k hk
      rcases List.mem_cons.1 hk with rfl | hk
      · exact Nat.le_refl _
      · exact NodeRef.fst_le_of_leAt ((List.pairwise_cons.1 hsorted).1 k hk)
    rw [nearest, takeWhile_eq_filter hmono, List.mem_filter]
    constructor
    · intro h
      obtain ⟨hn, hnear⟩ := h
      refine ⟨hn, ?_⟩
      intro k hk
      have hk := hleast k hk
      have hnear := (hpass n hn).1 hnear
      omega
    · intro h
      obtain ⟨hn, hall⟩ := h
      exact ⟨hn, (hpass n hn).2 (hall first (List.mem_cons_self ..))⟩

namespace Matcher

variable {m : Matcher} {value : Address} {n : Address × NodeRef}

/-- The node lies at the value or above it, near enough, and at the required distance. -/
structure Reaches (m : Matcher) (value : Address) (n : Address × NodeRef) : Prop where
  mem : n ∈ m.level.previous.toList
  le : value.toNat ≤ n.1.toNat
  near : n.1.toNat - value.toNat ≤ m.maxObjSize.toNat
  preset : ∀ offset, m.preset = some offset → n.1.toNat - value.toNat = offset.toNat

theorem mem_atPreset_iff
    (hsorted : m.level.previous.toList.Pairwise fun m n => NodeRef.leAt m n) :
    n ∈ m.atPreset value (m.level.candidatesFor value m.maxObjSize).toList ↔
      m.Reaches value n := by
  rw [atPreset]
  cases hpreset : m.preset with
  | none =>
    rw [LevelBuilder.mem_candidatesFor hsorted]
    constructor
    · intro h
      obtain ⟨hmem, hle, hnear⟩ := h
      refine ⟨hmem, hle, hnear, ?_⟩
      intro offset hoffset
      rw [hpreset] at hoffset
      cases hoffset
    · intro h
      obtain ⟨hmem, hle, hnear, -⟩ := h
      exact ⟨hmem, hle, hnear⟩
  | some preset =>
    simp only
    rw [List.mem_filter, LevelBuilder.mem_candidatesFor hsorted, beq_iff_eq]
    constructor
    · intro h
      obtain ⟨⟨hmem, hle, hnear⟩, hdistance⟩ := h
      refine ⟨hmem, hle, hnear, ?_⟩
      intro offset hoffset
      rw [hpreset, Option.some.injEq] at hoffset
      rw [← toNat_distance hle, hdistance, hoffset]
    · intro h
      obtain ⟨hmem, hle, hnear, hoffset⟩ := h
      refine ⟨⟨hmem, hle, hnear⟩, UInt64.toNat.inj ?_⟩
      rw [toNat_distance hle]
      exact hoffset preset hpreset

theorem sublist_atPreset (m : Matcher) (value : Address) (nodes : List (Address × NodeRef)) :
    (m.atPreset value nodes).Sublist nodes := by
  rw [atPreset]
  split
  · exact List.Sublist.refl _
  · exact List.filter_sublist

theorem sublist_parents (m : Matcher) (value : Address) :
    (m.parents value).Sublist m.level.previous.toList := by
  have hnodes : (m.atPreset value (m.level.candidatesFor value m.maxObjSize).toList).Sublist
      m.level.previous.toList :=
    (m.sublist_atPreset value _).trans (m.level.sublist_candidatesFor value m.maxObjSize)
  simp only [parents]
  split
  · refine List.Sublist.trans ?_ hnodes
    unfold nearest
    split
    · exact List.nil_sublist _
    · exact List.takeWhile_sublist _
  · exact hnodes

/-- **The parents for a value are the nodes that it reaches**, or the nearest of them if only those
count. -/
theorem mem_parents_iff
    (hsorted : m.level.previous.toList.Pairwise fun m n => NodeRef.leAt m n) :
    n ∈ m.parents value ↔ m.Reaches value n ∧ (m.smartScan = true →
      ∀ k, m.Reaches value k → n.1.toNat - value.toNat ≤ k.1.toNat - value.toNat) := by
  have hreaches : ∀ k, k ∈ m.atPreset value (m.level.candidatesFor value m.maxObjSize).toList ↔
      m.Reaches value k := fun k => mem_atPreset_iff hsorted
  have hsublist := (m.sublist_atPreset value _).trans
    (m.level.sublist_candidatesFor value m.maxObjSize)
  simp only [parents]
  cases m.smartScan with
  | false =>
    rw [if_neg Bool.false_ne_true, hreaches]
    constructor
    · intro hn
      refine ⟨hn, ?_⟩
      intro hsmart
      cases hsmart
    · exact And.left
  | true =>
    rw [if_pos rfl, mem_nearest_iff (hsorted.sublist hsublist)
      (fun k hk => ((hreaches k).1 hk).le), hreaches]
    constructor
    · intro h
      obtain ⟨hn, hall⟩ := h
      exact ⟨hn, fun _ k hk => hall k ((hreaches k).2 hk)⟩
    · intro h
      obtain ⟨hn, hall⟩ := h
      exact ⟨hn, fun k hk => hall rfl k ((hreaches k).1 hk)⟩

/-! ### Candidates -/

/-- The candidates at a visited address: one for each parent of the pointer that is stored there, if
a whole pointer is. -/
theorem mem_candidates_iff {v : Visit} {c : Candidate} :
    c ∈ m.candidates v ↔ m.width.size ≤ v.bytes.length ∧ c.region = v.region ∧
      c.own = v.address ∧ c.pointer = m.width.decode (v.bytes.take m.width.size) ∧
      ∃ x, (x, c.parent) ∈ m.parents c.pointer := by
  rw [candidates]
  simp only [List.length_take]
  by_cases hshort : min m.width.size v.bytes.length < m.width.size
  · rw [if_pos hshort]
    constructor
    · intro hc
      cases hc
    · intro h
      obtain ⟨hlength, -⟩ := h
      omega
  · rw [if_neg hshort, List.mem_map]
    constructor
    · intro h
      obtain ⟨⟨x, p⟩, hmem, rfl⟩ := h
      exact ⟨by omega, rfl, rfl, rfl, x, hmem⟩
    · intro h
      obtain ⟨-, hregion, hown, hpointer, x, hmem⟩ := h
      rw [hpointer] at hmem
      refine ⟨(x, c.parent), hmem, ?_⟩
      obtain ⟨parent, region, own, pointer⟩ := c
      rw [← hregion, ← hown, ← hpointer]

/-- No two candidates at one address have the same parent. -/
theorem pairwise_parent_ne (hnodup : (m.level.previous.toList.map Prod.snd).Nodup) (v : Visit) :
    (m.candidates v).Pairwise fun c d => c.parent ≠ d.parent := by
  simp only [candidates]
  split
  · exact .nil
  · have hparents := ((m.sublist_parents (m.width.decode (v.bytes.take m.width.size))).map
      Prod.snd).nodup hnodup
    rw [List.nodup_iff_pairwise_ne, List.pairwise_map] at hparents
    rw [List.pairwise_map]
    exact hparents

/-- No two candidates of visits to different addresses have the same place and parent. -/
theorem pairwise_candidates (hnodup : (m.level.previous.toList.map Prod.snd).Nodup)
    {visits : List Visit} (hvisits : (visits.map Visit.address).Nodup) :
    (visits.flatMap m.candidates).Pairwise fun c d => (c.own, c.parent) ≠ (d.own, d.parent) := by
  rw [List.nodup_iff_pairwise_ne, List.pairwise_map] at hvisits
  rw [List.pairwise_flatMap]
  refine ⟨?_, hvisits.imp ?_⟩
  · intro v _
    refine (pairwise_parent_ne hnodup v).imp ?_
    intro c d hne heq
    exact hne (Prod.mk.inj heq).2
  · intro v w hne c hc d hd heq
    obtain ⟨-, -, hown, -⟩ := mem_candidates_iff.1 hc
    obtain ⟨-, -, hown', -⟩ := mem_candidates_iff.1 hd
    rw [hown, hown'] at heq
    exact hne (Prod.mk.inj heq).1

theorem flatMap_collect (m : Matcher) (logs : List (List Event)) :
    logs.flatMap m.collect = (visitsOf logs.flatten).flatMap m.candidates := by
  have hvisits : visitsOf logs.flatten = logs.flatMap visitsOf := by
    rw [visitsOf, List.filterMap_flatten, List.flatMap_def]
    rfl
  rw [hvisits, List.flatMap_assoc]
  rfl

end Matcher

end PointerChains
