import PointerChains.Proofs.Map.Built
import PointerChains.Proofs.Tree.Ways
import PointerChains.Scan.Flatten

/-!
# Leaves and distances

The offsets of a leaf are the distances that the pointers on its way to the root leave to the nodes
that they lead to.  They are there if each pointer is at its node or below it.  If addresses decide
over pointers, and with parents over nodes, the distances lead back along the way, and tell the
leaves of a level apart.

* `Tree.placedLeaves` — the leaves with their places, in the order of the tree;
* `hops` — the distances on a way, `Node.PointsUpTo` — what they need;
* `Tree.Rooted.chainOffsets_eq_ok`, `Tree.Rooted.exists_chainOffsets_iff` — the offsets of a leaf
  are the distances on its way, and are there if all of these are;
* `Tree.Determined.eq_of_hops` — **the same distances come from the same node.**
-/

namespace PointerChains

/-- Nodes in strict order of their levels, and of their positions on one level. -/
def NodeRef.Precedes (m n : NodeRef) : Prop :=
  m.depth < n.depth ∨ (m.depth = n.depth ∧ m.index < n.index)

theorem NodeRef.Precedes.ne {m n : NodeRef} (h : m.Precedes n) : m ≠ n := by
  rintro rfl
  rw [Precedes] at h
  omega

/-- The pointer of the child is at the address of the parent or below it. -/
def Node.PointsUpTo (child parent : Node) : Prop := child.pointer ≤ parent.own

/-- The distances from the pointers on a way to the nodes that they lead to. -/
def hops : List Node → List Nat
  | child :: parent :: rest =>
    (parent.own.toNat - child.pointer.toNat) :: hops (parent :: rest)
  | _ => []

theorem length_hops (way : List Node) : (hops way).length = way.length - 1 := by
  induction way with
  | nil => rfl
  | cons child rest ih =>
    cases rest with
    | nil => rfl
    | cons parent rest =>
      rw [hops, List.length_cons, ih]
      rfl

/-- Behind the first, the elements stand at their positions. -/
theorem mem_drop_zipIdx_iff {α : Type} {xs : List α} {a : α} {k : Nat} :
    (a, k) ∈ xs.zipIdx.drop 1 ↔ 1 ≤ k ∧ xs[k]? = some a := by
  cases xs with
  | nil => simp
  | cons first rest =>
    rw [List.zipIdx_cons, List.drop_succ_cons, List.drop_zero,
      List.mk_mem_zipIdx_iff_le_and_getElem?_sub]
    refine and_congr_right ?_
    intro hpos
    rw [List.getElem?_cons, if_neg (by omega)]

namespace Tree

variable {t : Tree} {m n : NodeRef} {node : Node} {way ys : List Node} {offsets : List UInt64}

/-! ### The places of leaves -/

/-- The nodes without children below the root with their places, level by level. -/
def placedLeaves (t : Tree) : List (NodeRef × Node) :=
  (t.levels.toList.zipIdx.drop 1).flatMap fun (level, depth) =>
    (level.toList.zipIdx.filter (·.1.children.isEmpty)).map fun (node, index) =>
      (⟨depth, index⟩, node)

theorem leaves_eq (t : Tree) :
    t.leaves = t.placedLeaves.map fun leaf => (leaf.1.depth, leaf.2) := by
  rw [leaves, placedLeaves, List.map_flatMap]
  congr 1
  funext ⟨level, depth⟩
  have hnodes : level.toList.filter (·.children.isEmpty) =
      (level.toList.zipIdx.filter (·.1.children.isEmpty)).map Prod.fst := by
    conv => lhs; rw [← List.zipIdx_map_fst 0 level.toList]
    exact List.filter_map
  show (level.toList.filter (·.children.isEmpty)).map (fun node => (depth, node)) = _
  rw [hnodes, List.map_map, List.map_map]
  rfl

theorem mem_placedLeaves_iff : (n, node) ∈ t.placedLeaves ↔
    1 ≤ n.depth ∧ t.node? n = some node ∧ node.children = #[] := by
  rw [placedLeaves, List.mem_flatMap]
  constructor
  · rintro ⟨⟨level, depth⟩, hlevel, hleaf⟩
    obtain ⟨⟨node, index⟩, hnode, heq⟩ := List.mem_map.1 hleaf
    cases heq
    obtain ⟨hpos, hat⟩ := mem_drop_zipIdx_iff.1 hlevel
    rw [Array.getElem?_toList] at hat
    obtain ⟨hplace, hempty⟩ := List.mem_filter.1 hnode
    rw [List.mk_mem_zipIdx_iff_getElem?, Array.getElem?_toList] at hplace
    refine ⟨hpos, ?_, Array.isEmpty_iff.1 hempty⟩
    rw [node?, hat, Option.bind_some, hplace]
  · rintro ⟨hpos, hnode, hempty⟩
    obtain ⟨level, hat, hplace⟩ := Option.bind_eq_some_iff.1 hnode
    rw [← Array.getElem?_toList] at hat
    refine ⟨(level, n.depth), mem_drop_zipIdx_iff.2 ⟨hpos, hat⟩,
      List.mem_map.2 ⟨(node, n.index), List.mem_filter.2 ⟨?_, Array.isEmpty_iff.2 hempty⟩, rfl⟩⟩
    rw [List.mk_mem_zipIdx_iff_getElem?, Array.getElem?_toList]
    exact hplace

/-- The leaves come level by level, and in the order of each level. -/
theorem pairwise_placedLeaves (t : Tree) :
    t.placedLeaves.Pairwise fun a b => a.1.Precedes b.1 := by
  rw [placedLeaves, List.pairwise_flatMap]
  constructor
  · rintro ⟨level, depth⟩ -
    rw [List.pairwise_map]
    refine ((pairwise_zipIdx level.toList 0).filter _).imp ?_
    intro a b hlt
    exact .inr ⟨rfl, hlt⟩
  · refine ((pairwise_zipIdx t.levels.toList 0).drop).imp ?_
    rintro ⟨level, depth⟩ ⟨level', depth'⟩ hlt a ha b hb
    obtain ⟨-, -, rfl⟩ := List.mem_map.1 ha
    obtain ⟨-, -, rfl⟩ := List.mem_map.1 hb
    exact .inl hlt

/-! ### The offsets of a way -/

namespace Rooted

theorem length_way (h : t.Rooted) (hway : t.Way n way) : way.length = n.depth + 1 := by
  obtain ⟨other, hother, hlength⟩ := h.exists_way hway.isSome
  rw [hother.unique hway, hlength]

/-- The offsets of a way are its distances, all of which are there. -/
theorem pathOffsets_eq_ok (h : t.Rooted) (hway : t.Way n way) (hnode : t.node? n = some node)
    (hpath : t.pathOffsets n.depth node = .ok offsets) :
    way.IsChain Node.PointsUpTo ∧ offsets.map UInt64.toNat = hops way := by
  induction hway generalizing node offsets with
  | root hroot hparent =>
    rw [hroot, Option.some.injEq] at hnode
    subst hnode
    obtain rfl := h.eq_root_of_parent hroot hparent
    cases hpath
    exact ⟨.singleton _, rfl⟩
  | up hup hparent hrest ih =>
    rw [hup, Option.some.injEq] at hnode
    subst hnode
    obtain ⟨parent, rest, hp, rfl⟩ := hrest.exists_cons
    rw [h.depth_of_parent hup hparent, pathOffsets] at hpath
    simp only [hparent, hp] at hpath
    cases hoffset : parent.own.offsetFrom? _ with
    | none => rw [hoffset] at hpath; cases hpath
    | some offset =>
      rw [hoffset] at hpath
      obtain ⟨others, hothers, hpath⟩ := exists_of_bind_eq_ok hpath
      cases hpath
      obtain ⟨hchain, hmap⟩ := ih hp hothers
      have hsum := Address.offsetFrom?_eq_some_iff.1 hoffset
      refine ⟨.cons_cons (Address.le_iff_toNat_le.2 (by omega)) hchain, ?_⟩
      rw [List.map_cons, hops, hmap, ← hsum, Nat.add_sub_cancel_left]

/-- If all distances of a way are there, so are its offsets. -/
theorem exists_pathOffsets (h : t.Rooted) (hway : t.Way n way) (hnode : t.node? n = some node)
    (hchain : way.IsChain Node.PointsUpTo) :
    ∃ offsets, t.pathOffsets n.depth node = .ok offsets := by
  induction hway generalizing node with
  | root hroot hparent =>
    obtain rfl := h.eq_root_of_parent hroot hparent
    exact ⟨[], rfl⟩
  | up hup hparent hrest ih =>
    rw [hup, Option.some.injEq] at hnode
    subst hnode
    obtain ⟨parent, rest, hp, rfl⟩ := hrest.exists_cons
    rw [List.isChain_cons_cons] at hchain
    obtain ⟨offset, hoffset⟩ := Address.exists_offsetFrom?_iff.2 hchain.1
    obtain ⟨others, hothers⟩ := ih hp hchain.2
    refine ⟨offset :: others, ?_⟩
    rw [h.depth_of_parent hup hparent, pathOffsets]
    simp only [hparent, hp, hoffset, hothers]
    rfl

variable {object : MappedObject}

/-- In front of the distances stands the one from the object's base. -/
theorem chainOffsets_eq_ok (h : t.Rooted) (hway : t.Way n way) (hnode : t.node? n = some node)
    (hchain : t.chainOffsets object n.depth node = .ok offsets) :
    object.base ≤ node.own ∧ way.IsChain Node.PointsUpTo ∧ offsets.length = n.depth + 1 ∧
      offsets.map UInt64.toNat = (node.own.toNat - object.base.toNat) :: hops way := by
  rw [chainOffsets] at hchain
  cases hoffset : node.own.offsetFrom? object.base with
  | none => rw [hoffset] at hchain; cases hchain
  | some offset =>
    rw [hoffset] at hchain
    obtain ⟨rest, hrest, hchain⟩ := exists_of_bind_eq_ok hchain
    cases hchain
    obtain ⟨hup, hmap⟩ := h.pathOffsets_eq_ok hway hnode hrest
    have hsum := Address.offsetFrom?_eq_some_iff.1 hoffset
    have hlength : rest.length = n.depth := by
      rw [← List.length_map UInt64.toNat, hmap, length_hops, h.length_way hway,
        Nat.add_sub_cancel]
    refine ⟨Address.le_iff_toNat_le.2 (by omega), hup, congrArg Nat.succ hlength, ?_⟩
    rw [List.map_cons, hmap, ← hsum, Nat.add_sub_cancel_left]

theorem exists_chainOffsets_iff (h : t.Rooted) (hway : t.Way n way)
    (hnode : t.node? n = some node) :
    (∃ offsets, t.chainOffsets object n.depth node = .ok offsets) ↔
      object.base ≤ node.own ∧ way.IsChain Node.PointsUpTo := by
  constructor
  · rintro ⟨offsets, hchain⟩
    obtain ⟨hbase, hup, -⟩ := h.chainOffsets_eq_ok hway hnode hchain
    exact ⟨hbase, hup⟩
  · rintro ⟨hbase, hup⟩
    obtain ⟨offset, hoffset⟩ := Address.exists_offsetFrom?_iff.2 hbase
    obtain ⟨rest, hrest⟩ := h.exists_pathOffsets hway hnode hup
    refine ⟨offset :: rest, ?_⟩
    rw [chainOffsets, hoffset]
    show (t.pathOffsets n.depth node >>= fun rest => pure (offset :: rest)) = _
    rw [hrest]
    rfl

end Rooted

/-! ### Back along the way -/

/-- **The same distances from the same address come from the same node**, if addresses decide over
pointers, and with parents over nodes. -/
theorem Determined.eq_of_hops (hd : t.Determined) (h : t.Rooted) {a b : Node}
    (hway : t.Way m way) (hways : t.Way n ys) (ha : t.node? m = some a) (hb : t.node? n = some b)
    (hdepth : m.depth = n.depth) (hown : a.own = b.own) (hchain : way.IsChain Node.PointsUpTo)
    (hchain' : ys.IsChain Node.PointsUpTo) (hhops : hops way = hops ys) : m = n := by
  induction hway generalizing n ys a b with
  | root hroot hparent =>
    obtain rfl := h.eq_root_of_parent hroot hparent
    exact (h.eq_root hways.isSome hdepth.symm).symm
  | @up m p node xs hup hparent hrest ih =>
    rw [hup, Option.some.injEq] at ha
    subst ha
    have hbelow := h.depth_of_parent hup hparent
    cases hways with
    | root hroot hparent' =>
      obtain rfl := h.eq_root_of_parent hroot hparent'
      rw [hbelow] at hdepth
      cases hdepth
    | @up n q other ys hup' hparent' hrest' =>
      rw [hup', Option.some.injEq] at hb
      subst hb
      have hbelow' := h.depth_of_parent hup' hparent'
      obtain ⟨c, cs, hp, rfl⟩ := hrest.exists_cons
      obtain ⟨e, es, hq, rfl⟩ := hrest'.exists_cons
      rw [List.isChain_cons_cons] at hchain hchain'
      obtain ⟨hhop, hhops⟩ := List.cons.inj hhops
      -- the nodes have the same pointer, so that their parents are at the same address
      obtain ⟨pointer, hpointer⟩ := hd.exists_pointer
      have hsame : node.pointer = other.pointer := by
        rw [hpointer m node hup (by omega), hpointer n other hup' (by omega), hown]
      have hle : node.pointer.toNat ≤ c.own.toNat := Address.le_iff_toNat_le.1 hchain.1
      have hle' : other.pointer.toNat ≤ e.own.toNat := Address.le_iff_toNat_le.1 hchain'.1
      have habove : c.own = e.own := by
        apply Address.toNat_injective
        rw [hsame] at hhop hle
        omega
      have hparents : p = q := ih hrest' hp hq (by omega) habove hchain.2 hchain'.2 hhops
      refine hd.eq_of_eq m n node other hup hup' hdepth hown ?_
      rw [hparent, hparent', hparents]

end Tree

end PointerChains
