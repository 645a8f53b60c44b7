import PointerChains.Proofs.Tree.Links

/-!
# Ways to the root

The parents of a node lead to the root, one level at a step.  What the nodes on the way hold says
more about a node than its place, which differs in trees that list other nodes besides.

* `Tree.Way` — the nodes on the way from a node to the root, the node itself first;
* `Tree.Rooted.exists_way`, `Tree.Way.unique` — there is one from every node;
* `Tree.IsPath` — what the nodes hold on a way, from the root on;
* `Tree.Determined` — the addresses and parents of a level tell its nodes apart, and an address its
  pointer.
-/

namespace PointerChains

/-- The address of a node, and the pointer that is stored there. -/
def Node.content (n : Node) : Address × Address := (n.own, n.pointer)

namespace Tree

variable {t : Tree} {n p : NodeRef} {node : Node} {way other rest : List Node}

/-- The nodes on the way from a node to one without a parent, the node itself first. -/
inductive Way (t : Tree) : NodeRef → List Node → Prop
  | root {n : NodeRef} {node : Node} :
      t.node? n = some node → node.parent = none → Way t n [node]
  | up {n p : NodeRef} {node : Node} {rest : List Node} :
      t.node? n = some node → node.parent = some p → Way t p rest → Way t n (node :: rest)

/-- The list says what the nodes from the root to some node hold. -/
def IsPath (t : Tree) (path : List (Address × Address)) : Prop :=
  ∃ n way, t.Way n way ∧ path = (way.map Node.content).reverse

/-- The pointer of a node below the root depends on its address only, and no two nodes of a level
have the same address and parent. -/
structure Determined (t : Tree) : Prop where
  exists_pointer : ∃ pointer : Address → Address, ∀ n node, t.node? n = some node → 1 ≤ n.depth →
    node.pointer = pointer node.own
  eq_of_eq : ∀ m n a b, t.node? m = some a → t.node? n = some b → m.depth = n.depth →
    a.own = b.own → a.parent = b.parent → m = n

theorem parent?_of_node? (h : t.node? n = some node) : t.parent? n = node.parent := by
  rw [parent?, h, Option.bind_some]

namespace Way

/-- A way starts with its node. -/
theorem exists_cons (h : t.Way n way) :
    ∃ node rest, t.node? n = some node ∧ way = node :: rest := by
  cases h with
  | root hnode _ => exact ⟨_, [], hnode, rfl⟩
  | up hnode _ _ => exact ⟨_, _, hnode, rfl⟩

theorem isSome (h : t.Way n way) : (t.node? n).isSome := by
  obtain ⟨node, rest, hnode, -⟩ := h.exists_cons
  rw [hnode, Option.isSome_some]

theorem unique (h : t.Way n way) (h' : t.Way n other) : other = way := by
  induction h generalizing other with
  | root hnode hparent =>
    cases h' with
    | root hnode' _ =>
      rw [hnode, Option.some.injEq] at hnode'
      rw [hnode']
    | up hnode' hparent' _ =>
      rw [hnode, Option.some.injEq] at hnode'
      rw [← hnode', hparent] at hparent'
      cases hparent'
  | up hnode hparent _ ih =>
    cases h' with
    | root hnode' hparent' =>
      rw [hnode, Option.some.injEq] at hnode'
      rw [← hnode', hparent] at hparent'
      cases hparent'
    | up hnode' hparent' hrest' =>
      rw [hnode, Option.some.injEq] at hnode'
      rw [← hnode', hparent, Option.some.injEq] at hparent'
      subst hparent'
      rw [hnode', ih hrest']

end Way

namespace Rooted

/-- A parent stands one level above its child. -/
theorem depth_of_parent (h : t.Rooted) (hnode : t.node? n = some node)
    (hparent : node.parent = some p) : n.depth = p.depth + 1 := by
  have hp : t.parent? n = some p := by rw [parent?_of_node? hnode, hparent]
  exact (h.isSome_of_parent? hp).2.1.symm

/-- Only the root has no parent. -/
theorem eq_root_of_parent (h : t.Rooted) (hnode : t.node? n = some node)
    (hparent : node.parent = none) : n = ⟨0, 0⟩ := by
  have hsome : (t.node? n).isSome := by rw [hnode, Option.isSome_some]
  rcases Nat.eq_zero_or_pos n.depth with hzero | hpos
  · exact h.eq_root hsome hzero
  · obtain ⟨p, hp, -⟩ := h.exists_parent n hsome hpos
    rw [parent?_of_node? hnode, hparent] at hp
    cases hp

/-- From every node there is a way, in as many steps as the node is deep. -/
theorem exists_way (h : t.Rooted) (hn : (t.node? n).isSome) :
    ∃ way, t.Way n way ∧ way.length = n.depth + 1 := by
  generalize hdepth : n.depth = d
  obtain ⟨node, hnode⟩ := Option.isSome_iff_exists.1 hn
  induction d generalizing n node with
  | zero =>
    have hparent := h.parent?_of_depth_eq hdepth
    rw [parent?_of_node? hnode] at hparent
    exact ⟨[node], .root hnode hparent, rfl⟩
  | succ d ih =>
    obtain ⟨p, hp, hstep, hsome⟩ := h.exists_parent n hn (by omega)
    obtain ⟨parent, hfound⟩ := Option.isSome_iff_exists.1 hsome
    obtain ⟨rest, hrest, hlength⟩ := ih hsome (by omega) parent hfound
    rw [parent?_of_node? hnode] at hp
    exact ⟨node :: rest, .up hnode hp hrest, congrArg Nat.succ hlength⟩

end Rooted

end Tree

end PointerChains
