import PointerChains.Tree.Level

/-!
# The rows of a tree

What a level lists is stated without the numbers of its nodes and without their children, which
change when the next level is added.  Of this a tree only ever gets more, at the end of one level at
a time.

* `Node.bare`, `Tree.row` — a node and a level without numbers and children;
* `Tree.own?` — the address of a node, which its row decides;
* `Tree.level_push`, `Tree.map_level_link` — one more node, and one more child;
* `Tree.addNode_cases` — all that an addition can do, `Tree.Adds.row` — what it changes.
-/

namespace PointerChains

variable {α : Type}

/-- A node without its number and its children. -/
def Node.bare (n : Node) : Node := { n with id := 0, children := #[] }

/-- A node with one more child. -/
def Node.withChild (n : Node) (child : NodeRef) : Node :=
  { n with children := n.children.push child }

/-- The bare node that a candidate becomes. -/
def Candidate.node (c : Candidate) : Node :=
  { id := 0, region := c.region, own := c.own, pointer := c.pointer, parent := some c.parent }

/-- What an update in place does not touch is the same in all places. -/
theorem map_modify_of_eq {β : Type} {g : α → β} {f : α → α} (h : ∀ a, g (f a) = g a)
    (xs : List α) (n : Nat) : (xs.modify n f).map g = xs.map g := by
  refine List.ext_getElem? ?_
  intro i
  simp only [List.getElem?_map, List.getElem?_modify]
  by_cases hi : n = i
  · simp [hi, Function.comp_def, h]
  · simp [hi]

theorem Memory.after_zero (memory : Memory) : memory.after 0 = memory := by
  funext n
  exact congrArg memory (Nat.zero_add n)

theorem Memory.after_after (memory : Memory) (first second : Nat) :
    (memory.after first).after second = memory.after (first + second) := by
  funext n
  exact congrArg memory (Nat.add_assoc ..).symm

namespace Tree

variable {t after : Tree} {parent : Option NodeRef} {region : RegionId} {own pointer : Address}
  {depth : Nat} {child : NodeRef}

/-- The bare nodes of a level. -/
def row (t : Tree) (depth : Nat) : List Node := (t.level depth).toList.map Node.bare

/-- The address of a node. -/
def own? (t : Tree) (n : NodeRef) : Option Address := (t.node? n).map Node.own

theorem node?_eq (t : Tree) (n : NodeRef) : t.node? n = (t.level n.depth)[n.index]? := by
  unfold node? level
  cases t.levels[n.depth]? with
  | none => rfl
  | some level => rfl

theorem own?_eq (t : Tree) (n : NodeRef) :
    t.own? n = ((t.row n.depth)[n.index]?).map Node.own := by
  rw [own?, node?_eq, row, List.getElem?_map, Array.getElem?_toList, Option.map_map]
  rfl

theorem own?_congr {t' : Tree} {n : NodeRef} (h : t.row n.depth = t'.row n.depth) :
    t.own? n = t'.own? n := by
  rw [own?_eq, own?_eq, h]

theorem level_of_depth_le (h : t.depth ≤ depth) : t.level depth = #[] := by
  rw [level, Array.getElem?_eq_none h]
  rfl

theorem depth_lt_of_mem {node : Node} (h : node ∈ t.level depth) : depth < t.depth := by
  rcases Nat.lt_or_ge depth t.depth with hlt | hge
  · exact hlt
  · rw [level_of_depth_le hge] at h
    exact absurd h (Array.not_mem_empty node)

theorem row_empty (levels depth : Nat) : (Tree.empty levels).row depth = [] := by
  rw [row, level, empty, Array.getElem?_replicate]
  split
  · rfl
  · rfl

/-! ### One more node -/

theorem depth_push (t : Tree) (depth : Nat) (node : Node) : (t.push depth node).depth = t.depth :=
  Array.size_modify ..

theorem depth_addChild (t : Tree) (parent child : NodeRef) :
    (t.addChild parent child).depth = t.depth :=
  Array.size_modify ..

theorem level_push (t : Tree) (node : Node) (h : depth < t.depth) (d : Nat) :
    (t.push depth node).level d = if d = depth then (t.level d).push node else t.level d := by
  simp only [level, push, Array.getElem?_modify]
  by_cases hd : d = depth
  · subst hd
    simp [Array.getElem?_eq_getElem (show d < t.levels.size from h)]
  · rw [if_neg (Ne.symm hd), if_neg hd]

theorem level_addChild (t : Tree) (parent child : NodeRef) (d : Nat) :
    (t.addChild parent child).level d =
      if d = parent.depth then (t.level d).modify parent.index (·.withChild child)
      else t.level d := by
  simp only [level, addChild, Array.getElem?_modify]
  by_cases hd : d = parent.depth
  · subst hd
    cases t.levels[parent.depth]? with
    | none => simp
    | some nodes => simp [Node.withChild]
  · rw [if_neg (Ne.symm hd), if_neg hd]

theorem map_level_push (f : Node → α) (t : Tree) (node : Node) (h : depth < t.depth) (d : Nat) :
    ((t.push depth node).level d).toList.map f =
      if d = depth then (t.level d).toList.map f ++ [f node] else (t.level d).toList.map f := by
  rw [level_push t node h]
  by_cases hd : d = depth
  · simp [hd]
  · simp [hd]

theorem depth_link (t : Tree) (parent : Option NodeRef) (child : NodeRef) :
    (t.link parent child).depth = t.depth := by
  cases parent with
  | none => rfl
  | some p => exact depth_addChild t p child

/-- What does not depend on the children is as before. -/
theorem map_level_link {f : Node → α} (hf : ∀ node child, f (node.withChild child) = f node)
    (t : Tree) (parent : Option NodeRef) (child : NodeRef) (d : Nat) :
    ((t.link parent child).level d).toList.map f = (t.level d).toList.map f := by
  cases parent with
  | none => rfl
  | some p =>
    show ((t.addChild p child).level d).toList.map f = _
    rw [level_addChild]
    by_cases hd : d = p.depth
    · rw [if_pos hd, Array.toList_modify]
      exact map_modify_of_eq (fun node => hf node child) _ _
    · rw [if_neg hd]

/-- All that speaks for a node at a depth: it is the first at the top, or its parent is one level
up. -/
theorem fault?_eq_none_iff : t.fault? parent depth = none ↔ depth < t.depth ∧
    ((parent = none ∧ depth = 0 ∧ t.level 0 = #[]) ∨
      ∃ p, parent = some p ∧ p.depth + 1 = depth ∧ (t.node? p).isSome) := by
  unfold fault?
  by_cases hlt : depth < t.depth
  · rw [if_neg (Nat.not_le_of_lt hlt)]
    cases parent with
    | none =>
      by_cases hzero : depth = 0
      · subst hzero
        simp [hlt]
      · simp [hzero]
    | some p =>
      by_cases hdepth : p.depth + 1 = depth
      · cases hp : t.node? p <;> simp [hlt, hdepth, hp]
      · simp [hdepth]
  · simp [hlt, Nat.le_of_not_lt hlt]

/-- The tree with a new node, which the parent has as its child, or which no node has. -/
structure Adds (t : Tree) (parent linked : Option NodeRef) (region : RegionId)
    (own pointer : Address) (depth : Nat) (child : NodeRef) (after : Tree) : Prop where
  fault?_eq : t.fault? parent depth = none
  child_eq : child = ⟨depth, (t.level depth).size⟩
  linked_eq : linked = parent ∨ linked = none
  after_eq : after =
    (t.push depth { id := t.nextId, region, own, pointer, parent }).link linked child

/-- All that an addition can do: the node does not fit, or there is no memory for it, and nothing
has changed; or it is added and linked to its parent; or it is added, and there is no memory to link
it. -/
theorem addNode_cases (t : Tree) (parent : Option NodeRef) (region : RegionId)
    (own pointer : Address) (depth : Nat) (memory : Memory) :
    (∃ fault, t.fault? parent depth = some fault ∧
      t.addNode parent region own pointer depth memory = (.error (.invalidNode fault), t)) ∨
    (memory 0 = false ∧ t.addNode parent region own pointer depth memory =
      (.error .allocation, t)) ∨
    (∃ child after, t.Adds parent parent region own pointer depth child after ∧
      t.addNode parent region own pointer depth memory = (.ok child, after)) ∨
    ∃ child after, memory 1 = false ∧ parent ≠ none ∧
      t.Adds parent none region own pointer depth child after ∧
      t.addNode parent region own pointer depth memory = (.error .allocation, after) := by
  rw [addNode]
  cases hfault : t.fault? parent depth with
  | some fault => exact .inl ⟨fault, rfl, rfl⟩
  | none =>
    cases hnode : memory 0 with
    | false => exact .inr (.inl ⟨rfl, rfl⟩)
    | true =>
      simp only [if_true]
      by_cases hlink : (parent.isNone || memory 1) = true
      · rw [if_pos hlink]
        exact .inr (.inr (.inl ⟨_, _, ⟨hfault, rfl, .inl rfl, rfl⟩, rfl⟩))
      · rw [if_neg hlink]
        rw [Bool.or_eq_true, not_or, Bool.not_eq_true, Bool.not_eq_true, Option.isNone_eq_false_iff]
          at hlink
        exact .inr (.inr (.inr ⟨_, _, hlink.2, Option.isSome_iff_ne_none.1 hlink.1,
          ⟨hfault, rfl, .inr rfl, rfl⟩, rfl⟩))

/-- A node that is added without an error is linked to its parent. -/
theorem adds_of_addNode {memory : Memory}
    (h : t.addNode parent region own pointer depth memory = (.ok child, after)) :
    t.Adds parent parent region own pointer depth child after := by
  obtain ⟨_, -, heq⟩ | ⟨-, heq⟩ | ⟨child', after', hadds, heq⟩ | ⟨_, _, -, -, -, heq⟩ :=
    t.addNode_cases parent region own pointer depth memory
  · rw [heq] at h
    cases h
  · rw [heq] at h
    cases h
  · rw [heq] at h
    cases h
    exact hadds
  · rw [heq] at h
    cases h

namespace Adds

variable {linked : Option NodeRef}

/-- A node is added at the end of its level, and nowhere else, but as a child of its parent. -/
theorem map_level {f : Node → α} (h : t.Adds parent linked region own pointer depth child after)
    (hf : ∀ node child, f (node.withChild child) = f node) (d : Nat) :
    (after.level d).toList.map f =
      if d = depth then
        (t.level d).toList.map f ++ [f { id := t.nextId, region, own, pointer, parent }]
      else (t.level d).toList.map f := by
  rw [h.after_eq, map_level_link hf, map_level_push f t _ (fault?_eq_none_iff.1 h.fault?_eq).1]

theorem row (h : t.Adds parent linked region own pointer depth child after) :
    after.depth = t.depth ∧ depth < t.depth ∧ ∀ d, after.row d =
      if d = depth then t.row d ++ [{ id := 0, region, own, pointer, parent }] else t.row d := by
  refine ⟨?_, (fault?_eq_none_iff.1 h.fault?_eq).1, h.map_level fun _ _ => rfl⟩
  rw [h.after_eq]
  exact (depth_link ..).trans (depth_push ..)

end Adds

end Tree

end PointerChains
