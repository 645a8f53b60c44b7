import Mathlib
import PointerChains.Proofs.Pool.Partition
import PointerChains.Proofs.Tree.Rows

/-!
# Parents, children and numbers

A node is known in four ways: by its place on a level, by its parent's list of children, by its own
note of its parent, and by its number.  Adding a node changes all of them, one after the other.  The
list of children comes last and needs memory of its own, so that it is the one that can lack a node:
all nodes that it has belong there, and as long as there is memory for it, all that belong there are
in it.

* `Tree.Rooted` — the four fit together, but for nodes that are missing among the children;
* `Tree.Linked` — no node is missing there, either;
* `Tree.Rooted.of_adds`, `Tree.Linked.of_adds` — one more node keeps it so;
* `Tree.Rooted.climb_eq_iff` — the parents of a node lead to the root.
-/

namespace PointerChains

namespace Tree

variable {t after : Tree} {parent : Option NodeRef} {region : RegionId} {own pointer : Address}
  {depth : Nat} {child n : NodeRef}

/-- The numbers of the nodes, level by level. -/
def ids (t : Tree) : List Nat := t.levels.toList.flatMap fun level => level.toList.map Node.id

/-- The parent of a node. -/
def parent? (t : Tree) (n : NodeRef) : Option NodeRef := (t.node? n).bind Node.parent

/-- Places, parents and numbers of the nodes fit together, and the children of a node belong to
it. -/
structure Rooted (t : Tree) : Prop where
  /-- There is one node at most on the first level. -/
  root_le : (t.level 0).size ≤ 1
  root_parent : ∀ node ∈ (t.level 0).toList, node.parent = none
  /-- Any other node has a parent, which is there, one level up. -/
  exists_parent : ∀ n, (t.node? n).isSome → 0 < n.depth →
    ∃ p, t.parent? n = some p ∧ p.depth + 1 = n.depth ∧ (t.node? p).isSome
  /-- The children of a node are nodes whose parent it is. -/
  parent?_of_mem : ∀ n node, t.node? n = some node → ∀ c ∈ node.children, t.parent? c = some n
  /-- They are in the order of their places. -/
  children_lt : ∀ n node, t.node? n = some node →
    node.children.toList.Pairwise fun c d => c.index < d.index
  /-- The numbers are those below the size, each once. -/
  ids_perm : t.ids.Perm (List.range t.size)
  /-- On a level the numbers increase. -/
  ids_lt : ∀ d, ((t.level d).toList.map Node.id).Pairwise (· < ·)
  nextId_eq : t.nextId = t.size

/-- Places, parents, children and numbers of the nodes fit together. -/
structure Linked (t : Tree) : Prop extends t.Rooted where
  /-- The children of a node are all nodes whose parent it is. -/
  mem_of_parent? : ∀ n node, t.node? n = some node →
    ∀ c, t.parent? c = some n → c ∈ node.children

/-! ### Places and numbers -/

theorem node?_push (t : Tree) (node : Node) (h : depth < t.depth) (n : NodeRef) :
    (t.push depth node).node? n =
      if n = ⟨depth, (t.level depth).size⟩ then some node else t.node? n := by
  obtain ⟨d, i⟩ := n
  rw [node?_eq, node?_eq, level_push t node h]
  by_cases hd : d = depth
  · subst hd
    simp [Array.getElem?_push]
  · simp [hd]

theorem node?_link (t : Tree) (parent : Option NodeRef) (child n : NodeRef) :
    (t.link parent child).node? n =
      if parent = some n then (t.node? n).map (·.withChild child) else t.node? n := by
  cases parent with
  | none => rfl
  | some p =>
    obtain ⟨d, i⟩ := n
    obtain ⟨pd, pi⟩ := p
    show (t.addChild ⟨pd, pi⟩ child).node? _ = _
    rw [node?_eq, node?_eq, level_addChild]
    by_cases hd : d = pd
    · subst hd
      simp [Array.getElem?_modify]
    · simp [hd, Ne.symm hd]

/-- The place behind the nodes of a level is free. -/
theorem node?_next (t : Tree) (depth : Nat) : t.node? ⟨depth, (t.level depth).size⟩ = none := by
  rw [node?_eq]
  exact Array.getElem?_eq_none (Nat.le_refl _)

theorem length_ids (t : Tree) : t.ids.length = t.size := by
  simp [ids, size, Array.size_flatten, List.length_flatMap, ← Array.sum_toList]

theorem ids_push (t : Tree) (node : Node) (h : depth < t.depth) :
    (t.push depth node).ids.Perm (node.id :: t.ids) := by
  show ((t.levels.modify depth (·.push node)).toList.flatMap _).Perm _
  rw [Array.toList_modify]
  refine perm_flatMap_modify ?_ h
  intro level
  simp

theorem ids_link (t : Tree) (parent : Option NodeRef) (child : NodeRef) :
    (t.link parent child).ids = t.ids := by
  cases parent with
  | none => rfl
  | some p =>
    simp only [ids, link, addChild, Array.toList_modify, List.flatMap_def]
    rw [map_modify_of_eq]
    intro level
    rw [Array.toList_modify]
    exact map_modify_of_eq (fun node => (rfl : (node.withChild child).id = node.id)) _ _

theorem mem_ids {i : Nat} (h : i ∈ (t.level depth).toList.map Node.id) : i ∈ t.ids := by
  obtain ⟨node, hnode, -⟩ := List.mem_map.1 h
  have hlt : depth < t.levels.size := depth_lt_of_mem (Array.mem_toList_iff.1 hnode)
  rw [level, Array.getElem?_eq_getElem hlt, Option.getD_some] at h
  exact List.mem_flatMap.2 ⟨t.levels[depth], Array.getElem_mem_toList hlt, h⟩

/-! ### One more node -/

namespace Adds

variable {linked : Option NodeRef}

/-- What an addition changes: there is one more node, and one more child of the node that is linked
to it. -/
theorem node?_eq (h : t.Adds parent linked region own pointer depth child after) (n : NodeRef) :
    after.node? n =
      if n = child then some { id := t.nextId, region, own, pointer, parent }
      else if linked = some n then (t.node? n).map (·.withChild child) else t.node? n := by
  obtain ⟨hlt, hparent⟩ := fault?_eq_none_iff.1 h.fault?_eq
  rw [h.after_eq, node?_link, node?_push t _ hlt, ← h.child_eq]
  by_cases hn : n = child
  · have hne : linked ≠ some n := by
      intro hlinked
      have hsame : parent = some n := by
        obtain hsame | hnone := h.linked_eq
        · rw [← hsame, hlinked]
        · rw [hnone] at hlinked
          cases hlinked
      simp [hn, h.child_eq, hsame] at hparent
    rw [if_neg hne, if_pos hn, if_pos hn]
  · rw [if_neg hn, if_neg hn]

theorem isSome_node? (h : t.Adds parent linked region own pointer depth child after)
    (n : NodeRef) : (after.node? n).isSome ↔ n = child ∨ (t.node? n).isSome := by
  rw [h.node?_eq]
  by_cases hn : n = child
  · simp [hn]
  · by_cases hp : linked = some n
    · simp [hn, hp]
    · simp [hn, hp]

theorem parent?_eq (h : t.Adds parent linked region own pointer depth child after)
    (n : NodeRef) : after.parent? n = if n = child then parent else t.parent? n := by
  rw [parent?, h.node?_eq]
  by_cases hn : n = child
  · simp [hn]
  · by_cases hp : linked = some n
    · simp only [hn, hp, if_true, if_false, parent?]
      cases t.node? n with
      | none => rfl
      | some node => rfl
    · simp [hn, hp, parent?]

/-- The place of the new node was free. -/
theorem node?_child (h : t.Adds parent linked region own pointer depth child after) :
    t.node? child = none := by
  rw [h.child_eq]
  exact t.node?_next depth

theorem parent?_child (h : t.Adds parent linked region own pointer depth child after) :
    t.parent? child = none := by
  rw [parent?, h.node?_child]
  rfl

/-- The parent of the new node is another node. -/
theorem parent_ne_child (h : t.Adds parent linked region own pointer depth child after) :
    parent ≠ some child := by
  rintro rfl
  have hparent := (fault?_eq_none_iff.1 h.fault?_eq).2
  simp [h.child_eq] at hparent

/-- The node that is linked to the new one is its parent. -/
theorem parent_eq_of_linked (h : t.Adds parent linked region own pointer depth child after)
    (hlinked : linked = some n) : parent = some n := by
  obtain hsame | hnone := h.linked_eq
  · rw [← hsame, hlinked]
  · rw [hnone] at hlinked
    cases hlinked

/-- A node has the children that it had, and the new node if it is linked to it. -/
theorem mem_children_iff (h : t.Adds parent linked region own pointer depth child after)
    (hn : n ≠ child) {node : Node} (hnode : after.node? n = some node) :
    ∃ old, t.node? n = some old ∧
      ∀ c, c ∈ node.children ↔ c ∈ old.children ∨ (linked = some n ∧ c = child) := by
  rw [h.node?_eq, if_neg hn] at hnode
  by_cases hp : linked = some n
  · rw [if_pos hp] at hnode
    obtain ⟨old, hold, rfl⟩ := Option.map_eq_some_iff.1 hnode
    refine ⟨old, hold, ?_⟩
    intro c
    show c ∈ old.children.push child ↔ _
    rw [Array.mem_push, hp]
    exact or_congr_right (and_iff_right rfl).symm
  · rw [if_neg hp] at hnode
    refine ⟨node, hnode, ?_⟩
    intro c
    exact (or_iff_left fun h => hp h.1).symm

/-- The new node has no children. -/
theorem children_child (h : t.Adds parent linked region own pointer depth child after)
    {node : Node} (hnode : after.node? child = some node) : node.children = #[] := by
  rw [h.node?_eq, if_pos rfl, Option.some.injEq] at hnode
  rw [← hnode]

end Adds

namespace Rooted

variable {linked : Option NodeRef}

/-- What stands on the first level and has a parent is not there. -/
theorem parent?_of_depth_eq (h : t.Rooted) (hn : n.depth = 0) : t.parent? n = none := by
  rw [parent?, node?_eq, hn]
  cases hnode : (t.level 0)[n.index]? with
  | none => rfl
  | some node => exact h.root_parent node (Array.mem_toList_iff.2 (Array.mem_of_getElem? hnode))

/-- A node whose parent is noted somewhere is there. -/
theorem isSome_of_parent? (h : t.Rooted) {p : NodeRef} (hp : t.parent? n = some p) :
    (t.node? n).isSome ∧ p.depth + 1 = n.depth ∧ (t.node? p).isSome := by
  have hn : (t.node? n).isSome := by
    rw [parent?] at hp
    cases hnode : t.node? n with
    | none => rw [hnode] at hp; cases hp
    | some node => rfl
  rcases Nat.eq_zero_or_pos n.depth with hzero | hpos
  · rw [h.parent?_of_depth_eq hzero] at hp
    cases hp
  · obtain ⟨q, hq, hdepth, hsome⟩ := h.exists_parent n hn hpos
    rw [hp, Option.some.injEq] at hq
    subst hq
    exact ⟨hn, hdepth, hsome⟩

theorem id_lt (h : t.Rooted) {i : Nat} (hi : i ∈ (t.level depth).toList.map Node.id) :
    i < t.nextId := by
  rw [h.nextId_eq]
  exact List.mem_range.1 (h.ids_perm.mem_iff.1 (mem_ids hi))

/-- After an addition the children of a node are still nodes whose parent it is. -/
theorem parent?_of_mem_of_adds (h : t.Rooted)
    (hadds : t.Adds parent linked region own pointer depth child after) {node : Node}
    (hnode : after.node? n = some node) {c : NodeRef} (hc : c ∈ node.children) :
    after.parent? c = some n := by
  by_cases hn : n = child
  · subst hn
    rw [hadds.children_child hnode] at hc
    exact absurd hc (Array.not_mem_empty c)
  · obtain ⟨old, hold, hchildren⟩ := hadds.mem_children_iff hn hnode
    rw [hadds.parent?_eq]
    obtain hc | ⟨hlinked, rfl⟩ := (hchildren c).1 hc
    · have hparent := h.parent?_of_mem n old hold c hc
      have hne : c ≠ child := by
        rintro rfl
        rw [hadds.parent?_child] at hparent
        cases hparent
      rw [if_neg hne, hparent]
    · rw [if_pos rfl, hadds.parent_eq_of_linked hlinked]

/-- The new child stands behind the others. -/
theorem children_lt_of_adds (h : t.Rooted)
    (hadds : t.Adds parent linked region own pointer depth child after) {node : Node}
    (hnode : after.node? n = some node) :
    node.children.toList.Pairwise fun c d => c.index < d.index := by
  by_cases hn : n = child
  · subst hn
    rw [hadds.children_child hnode]
    exact List.Pairwise.nil
  rw [hadds.node?_eq, if_neg hn] at hnode
  by_cases hp : linked = some n
  · rw [if_pos hp] at hnode
    obtain ⟨old, hold, rfl⟩ := Option.map_eq_some_iff.1 hnode
    show (old.children.push child).toList.Pairwise _
    rw [Array.toList_push, List.pairwise_append]
    refine ⟨h.children_lt n old hold, List.pairwise_singleton .., ?_⟩
    intro c hc d hd
    rw [List.mem_singleton.1 hd, hadds.child_eq]
    have hc' := h.parent?_of_mem n old hold c (Array.mem_toList_iff.1 hc)
    obtain ⟨hsome, hdepth, -⟩ := h.isSome_of_parent? hc'
    have hlevel : c.depth = depth := by
      have hparent := (fault?_eq_none_iff.1 hadds.fault?_eq).2
      simp only [hadds.parent_eq_of_linked hp, reduceCtorEq, false_and, false_or] at hparent
      obtain ⟨p, hp', hdepth', -⟩ := hparent
      cases hp'
      omega
    rw [node?_eq, hlevel] at hsome
    simpa using hsome
  · rw [if_neg hp] at hnode
    exact h.children_lt n node hnode

theorem root_of_adds (h : t.Rooted)
    (hadds : t.Adds parent linked region own pointer depth child after) :
    (after.level 0).size ≤ 1 ∧ ∀ node ∈ (after.level 0).toList, node.parent = none := by
  have hids := hadds.map_level (f := Node.id) (fun _ _ => rfl) 0
  have hcount := congrArg List.length hids
  have hparents := hadds.map_level (f := Node.parent) (fun _ _ => rfl) 0
  have hroots : ∀ node ∈ (after.level 0).toList,
      node.parent ∈ (after.level 0).toList.map Node.parent := fun node => List.mem_map_of_mem
  rw [hparents] at hroots
  obtain ⟨-, ⟨rfl, rfl, hempty⟩ | ⟨p, rfl, rfl, -⟩⟩ := fault?_eq_none_iff.1 hadds.fault?_eq
  · -- the root itself, on an empty level
    simp only [hempty, if_true, List.length_map, Array.length_toList] at hcount
    exact ⟨by simp [hcount], by simpa [hempty] using hroots⟩
  · have hbelow : ¬0 = p.depth + 1 := Nat.succ_ne_zero _ ∘ Eq.symm
    simp only [hbelow, if_false, List.length_map, Array.length_toList] at hcount hroots
    refine ⟨by rw [hcount]; exact h.root_le, ?_⟩
    intro node hnode
    obtain ⟨old, hold, heq⟩ := List.mem_map.1 (hroots node hnode)
    rw [← heq]
    exact h.root_parent old hold

theorem exists_parent_of_adds (h : t.Rooted)
    (hadds : t.Adds parent linked region own pointer depth child after)
    (hn : (after.node? n).isSome) (hpos : 0 < n.depth) :
    ∃ p, after.parent? n = some p ∧ p.depth + 1 = n.depth ∧ (after.node? p).isSome := by
  simp only [hadds.parent?_eq, hadds.isSome_node?] at hn ⊢
  by_cases hnew : n = child
  · subst hnew
    rw [hadds.child_eq] at hpos ⊢
    obtain ⟨-, ⟨-, hzero, -⟩ | ⟨p, rfl, hdepth, hsome⟩⟩ := fault?_eq_none_iff.1 hadds.fault?_eq
    · exact absurd hzero (Nat.ne_of_gt hpos)
    · exact ⟨p, by simp, hdepth, .inr hsome⟩
  · obtain ⟨p, hp, hdepth, hsome⟩ := h.exists_parent n (hn.resolve_left hnew) hpos
    exact ⟨p, by rw [if_neg hnew, hp], hdepth, .inr hsome⟩

/-- One more node keeps a tree rooted, be it linked to its parent or not. -/
theorem of_adds (h : t.Rooted)
    (hadds : t.Adds parent linked region own pointer depth child after) : after.Rooted := by
  have hids : after.ids.Perm (t.nextId :: t.ids) := by
    rw [hadds.after_eq, ids_link]
    exact t.ids_push _ (fault?_eq_none_iff.1 hadds.fault?_eq).1
  have hsize : after.size = t.size + 1 := by
    rw [← length_ids, ← length_ids, hids.length_eq, List.length_cons]
  have hnext : after.nextId = t.nextId + 1 := by
    rw [hadds.after_eq]
    cases linked with
    | none => rfl
    | some p => rfl
  obtain ⟨hroot, hroots⟩ := h.root_of_adds hadds
  refine
    { root_le := hroot
      root_parent := hroots
      exists_parent := fun n => h.exists_parent_of_adds hadds
      parent?_of_mem := fun n node hnode c => h.parent?_of_mem_of_adds hadds hnode
      children_lt := fun n node => h.children_lt_of_adds hadds
      ids_perm := ?_
      ids_lt := ?_
      nextId_eq := by rw [hnext, hsize, h.nextId_eq] }
  · rw [hsize, List.range_succ]
    refine hids.trans ?_
    rw [h.nextId_eq]
    exact (h.ids_perm.cons _).trans (List.perm_append_singleton ..).symm
  · intro d
    rw [hadds.map_level (f := Node.id) fun _ _ => rfl]
    by_cases hd : d = depth
    · rw [if_pos hd, List.pairwise_append]
      refine ⟨h.ids_lt d, List.pairwise_singleton .., ?_⟩
      intro i hi j hj
      rw [List.mem_singleton.1 hj]
      exact h.id_lt hi
    · rw [if_neg hd]
      exact h.ids_lt d

/-! ### The way to the root -/

/-- The node on the first level is the root. -/
theorem eq_root (h : t.Rooted) (hn : (t.node? n).isSome) (hzero : n.depth = 0) : n = ⟨0, 0⟩ := by
  obtain ⟨d, i⟩ := n
  subst hzero
  rw [node?_eq] at hn
  have hroot := h.root_le
  simp at hn ⊢
  omega

end Rooted

namespace Linked

/-- One more node that is linked to its parent keeps a tree linked. -/
theorem of_adds (h : t.Linked)
    (hadds : t.Adds parent parent region own pointer depth child after) : after.Linked := by
  refine { h.toRooted.of_adds hadds with mem_of_parent? := ?_ }
  intro n node hnode c hc
  rw [hadds.parent?_eq] at hc
  by_cases hn : n = child
  · -- the new node is nobody's parent yet
    subst hn
    by_cases hnew : c = n
    · rw [if_pos hnew] at hc
      exact absurd hc hadds.parent_ne_child
    · rw [if_neg hnew] at hc
      have hsome := (h.isSome_of_parent? hc).2.2
      rw [hadds.node?_child] at hsome
      cases hsome
  · obtain ⟨old, hold, hchildren⟩ := hadds.mem_children_iff hn hnode
    rw [hchildren]
    by_cases hnew : c = child
    · rw [if_pos hnew] at hc
      exact .inr ⟨hc, hnew⟩
    · rw [if_neg hnew] at hc
      exact .inl (h.mem_of_parent? n old hold c hc)

/-- A tree without nodes. -/
theorem of_forall_level (h : ∀ level ∈ t.levels.toList, level = #[]) (hnext : t.nextId = 0) :
    t.Linked := by
  have hlevel : ∀ d, t.level d = #[] := by
    intro d
    rw [level]
    cases hd : t.levels[d]? with
    | none => rfl
    | some nodes => exact h nodes (Array.mem_toList_iff.2 (Array.mem_of_getElem? hd))
  have hnode : ∀ n, t.node? n = none := by
    intro n
    simp [node?_eq, hlevel]
  have hids : t.ids = [] := by
    rw [ids, List.flatMap_eq_nil_iff]
    intro nodes hnodes
    simp [h nodes hnodes]
  have hsize : t.size = 0 := by simp [← length_ids, hids]
  have hrooted : t.Rooted := by
    constructor <;> simp [hlevel, hnode, hids, hsize, hnext]
  refine { hrooted with mem_of_parent? := ?_ }
  intro n node hsome
  rw [hnode] at hsome
  cases hsome

theorem empty (levels : Nat) : (Tree.empty levels).Linked := by
  apply of_forall_level
  · intro level hlevel
    exact List.eq_of_mem_replicate (by simpa [Tree.empty] using hlevel)
  · rfl

theorem reset (t : Tree) : t.reset.Linked := by
  apply of_forall_level
  · simp [Tree.reset]
  · rfl

end Linked

end Tree

end PointerChains
