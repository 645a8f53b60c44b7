import PointerChains.Proofs.Scan.Chains
import PointerChains.Proofs.Scan.Outcome
import PointerChains.Proofs.Tree.Leaves

/-!
# What flattening makes of a tree

A tree is flattened leaf by leaf.  A leaf in memory of nobody is passed over; any other one has its
chain, or else nothing comes of the whole tree.  The chain starts at the object of the leaf and
leads as the leaf does, so that leaves which addresses tell apart have chains that differ.

* `Tree.OwnedLeaf` — a leaf that an object owns;
* `Chain.IsOf`, `ChainTable.Lists` — the chain of a leaf, and the chains of all of them;
* `Tree.Rooted.exists_flatten_iff`, `Tree.Rooted.lists_of_flatten` — when there are chains, and
  which;
* `ChainTable.Lists.nodup` — **no two leaves have the same chain, if addresses tell them apart;**
* `Tree.flatten_run` — all this for the trees that operations make, and so for those of scans.
-/

namespace PointerChains

variable {t : Tree} {m : MemoryMap} {table after : ChainTable} {n : NodeRef} {node : Node}
  {object : MappedObject} {way : List Node} {c : Chain}

/-- A node without children below the root, in a region that an object owns. -/
structure Tree.OwnedLeaf (t : Tree) (m : MemoryMap) (n : NodeRef) (node : Node)
    (object : MappedObject) : Prop where
  below : 1 ≤ n.depth
  found : t.node? n = some node
  childless : node.children = #[]
  owner : m.objectOf? node.region = some object

/-- The chain starts at the object of the leaf, and its offsets are the distances from the base of
the object to the leaf, and from there on at every step to the root. -/
structure Chain.IsOf (c : Chain) (table : ChainTable) (t : Tree) (m : MemoryMap) (n : NodeRef)
    (node : Node) (object : MappedObject) (way : List Node) : Prop
    extends t.OwnedLeaf m n node object where
  leads : t.Way n way
  object_eq : c.object = some object.id
  pathname_eq : table.pathname? c = some object.pathname
  base_le : object.base ≤ node.own
  pointsUpTo : way.IsChain Node.PointsUpTo
  length_eq : c.offsets.length = n.depth + 1
  offsets_eq : c.offsets.map UInt64.toNat = (node.own.toNat - object.base.toNat) :: hops way

/-- The table has one chain for each leaf that an object owns, in the order of the tree, and no
other ones. -/
def ChainTable.Lists (table : ChainTable) (t : Tree) (m : MemoryMap) : Prop :=
  ∃ leaves : List NodeRef, leaves.Pairwise NodeRef.Precedes ∧
    (∀ n, n ∈ leaves ↔ ∃ node object, t.OwnedLeaf m n node object) ∧
    List.Forall₂ (fun n c => ∃ node object way, c.IsOf table t m n node object way) leaves
      table.chains.toList

namespace Tree

theorem exists_flattenLeaves_iff {leaves : List (Nat × Node)} :
    (∃ after, t.flattenLeaves m table leaves = .ok after) ↔ ∀ leaf ∈ leaves, ∀ object,
      m.objectOf? leaf.2.region = some object →
        ∃ offsets, t.chainOffsets object leaf.1 leaf.2 = .ok offsets := by
  induction leaves generalizing table with
  | nil => simp [flattenLeaves]
  | cons leaf rest ih =>
    obtain ⟨depth, node⟩ := leaf
    rw [flattenLeaves, List.forall_mem_cons]
    cases howner : m.objectOf? node.region with
    | none => simp [ih]
    | some object =>
      cases hoffsets : t.chainOffsets object depth node with
      | error cause => simp [hoffsets]
      | ok offsets => simp [hoffsets, ih]

/-- The leaves that objects own, in the order of the tree. -/
def ownedLeaves (t : Tree) (m : MemoryMap) : List (NodeRef × Node) :=
  t.placedLeaves.filter fun leaf => (m.objectOf? leaf.2.region).isSome

theorem mem_ownedLeaves_iff :
    (n, node) ∈ t.ownedLeaves m ↔ ∃ object, t.OwnedLeaf m n node object := by
  rw [ownedLeaves, List.mem_filter, mem_placedLeaves_iff, Option.isSome_iff_exists]
  constructor
  · rintro ⟨⟨hbelow, hfound, hchildless⟩, object, howner⟩
    exact ⟨object, hbelow, hfound, hchildless, howner⟩
  · rintro ⟨object, hleaf⟩
    exact ⟨⟨hleaf.below, hleaf.found, hleaf.childless⟩, object, hleaf.owner⟩

namespace Rooted

/-- A tree has chains if every leaf that an object owns is at the object's base or above it, and all
pointers on its way are at the nodes that they lead to or below them. -/
theorem exists_flatten_iff (h : t.Rooted) :
    (∃ table, t.flatten m = .ok table) ↔
      ∀ n node object way, t.OwnedLeaf m n node object → t.Way n way →
        object.base ≤ node.own ∧ way.IsChain Node.PointsUpTo := by
  rw [flatten, exists_flattenLeaves_iff, leaves_eq]
  constructor
  · intro hall n node object way hleaf hway
    have hplaced := mem_placedLeaves_iff.2 ⟨hleaf.below, hleaf.found, hleaf.childless⟩
    have hoffsets := hall (n.depth, node) (List.mem_map.2 ⟨_, hplaced, rfl⟩) object hleaf.owner
    exact (h.exists_chainOffsets_iff hway hleaf.found).1 hoffsets
  · intro hall leaf hleaf object howner
    obtain ⟨⟨n, node⟩, hplaced, rfl⟩ := List.mem_map.1 hleaf
    obtain ⟨hbelow, hfound, hchildless⟩ := mem_placedLeaves_iff.1 hplaced
    obtain ⟨way, hway, -⟩ := h.exists_way (n := n) (by rw [hfound, Option.isSome_some])
    exact (h.exists_chainOffsets_iff hway hfound).2
      (hall n node object way ⟨hbelow, hfound, hchildless, howner⟩ hway)

/-- The chain that comes from an owned leaf is that of the leaf. -/
theorem isOf_of_fromLeaf (h : t.Rooted) (hleaf : t.OwnedLeaf m n node object)
    (hfrom : c.FromLeaf t m table (n.depth, node) object) :
    ∃ way, c.IsOf table t m n node object way := by
  have hsome : (t.node? n).isSome := by rw [hleaf.found, Option.isSome_some]
  obtain ⟨way, hway, -⟩ := h.exists_way hsome
  obtain ⟨hbase, hup, hlength, hmap⟩ :=
    h.chainOffsets_eq_ok hway hleaf.found hfrom.offsets_eq
  exact ⟨way, hleaf, hway, hfrom.object_eq, hfrom.pathname_eq, hbase, hup, hlength, hmap⟩

/-- The chains are those of the leaves that objects own. -/
theorem lists_of_flatten (h : t.Rooted) (hflatten : t.flatten m = .ok table) :
    table.Lists t m := by
  rw [flatten, leaves_eq] at hflatten
  obtain ⟨-, added, hchains, hadded⟩ := exists_added hflatten
  have hall : table.chains.toList = added := hchains
  rw [List.filter_map, List.forall₂_map_left_iff] at hadded
  refine ⟨(t.ownedLeaves m).map Prod.fst, ?_, ?_, ?_⟩
  · rw [List.pairwise_map]
    exact (pairwise_placedLeaves t).filter _
  · intro n
    rw [List.mem_map]
    constructor
    · rintro ⟨⟨n, node⟩, hmem, rfl⟩
      exact ⟨node, mem_ownedLeaves_iff.1 hmem⟩
    · rintro ⟨node, hleaf⟩
      exact ⟨(n, node), mem_ownedLeaves_iff.2 hleaf, rfl⟩
  · rw [List.forall₂_map_left_iff, hall]
    have hmem : ∀ leaf ∈ t.ownedLeaves m, leaf ∈ t.ownedLeaves m := fun _ hleaf => hleaf
    refine ((List.forall₂_and_left _ _).2 ⟨hmem, hadded⟩).imp ?_
    rintro ⟨n, node⟩ c ⟨hmem, object, hfrom⟩
    obtain ⟨object', hleaf⟩ := mem_ownedLeaves_iff.1 hmem
    obtain rfl : object = object' := by
      have hsame := hfrom.owner.symm.trans hleaf.owner
      rwa [Option.some.injEq] at hsame
    obtain ⟨way, his⟩ := h.isOf_of_fromLeaf hleaf hfrom
    exact ⟨node, object, way, his⟩

end Rooted

end Tree

/-! ### Chains that differ -/

/-- A chain comes from one leaf only, if addresses tell the nodes apart. -/
theorem Chain.IsOf.place_eq {n' : NodeRef} {node' : Node} {object' : MappedObject}
    {way' : List Node} (h : c.IsOf table t m n node object way)
    (h' : c.IsOf table t m n' node' object' way') (ht : t.Rooted) (hm : m.Built)
    (hd : t.Determined) : n = n' := by
  have hid : object.id = object'.id := by
    have hsame := h.object_eq.symm.trans h'.object_eq
    rwa [Option.some.injEq] at hsame
  obtain rfl : object = object' := by
    have hfound := hm.objectOf?_eq_some h.owner
    rw [hid, hm.objectOf?_eq_some h'.owner, Option.some.injEq] at hfound
    exact hfound.symm
  obtain ⟨hfirst, hrest⟩ := List.cons.inj (h.offsets_eq.symm.trans h'.offsets_eq)
  have hdepth := h.length_eq.symm.trans h'.length_eq
  have hbase := Address.le_iff_toNat_le.1 h.base_le
  have hbase' := Address.le_iff_toNat_le.1 h'.base_le
  have hown : node.own = node'.own := Address.toNat_injective (by omega)
  exact hd.eq_of_hops ht h.leads h'.leads h.found h'.found (by omega) hown h.pointsUpTo
    h'.pointsUpTo hrest

/-- What is related to different things is different. -/
theorem nodup_of_forall₂ {α β : Type} {R : α → β → Prop} {S : α → α → Prop} {xs : List α}
    {ys : List β} (h : List.Forall₂ R xs ys) (hxs : xs.Pairwise S)
    (hne : ∀ a b y, R a y → R b y → ¬S a b) : ys.Nodup := by
  rw [List.pairwise_iff_getElem] at hxs
  rw [List.Nodup, List.pairwise_iff_getElem]
  intro i j hi hj hlt heq
  have hlength := h.length_eq
  have hat := h.get (by omega : i < xs.length) hi
  have hat' := h.get (by omega : j < xs.length) hj
  simp only [List.get_eq_getElem] at hat hat'
  rw [heq] at hat
  exact hne _ _ _ hat hat' (hxs i j (by omega) (by omega) hlt)

/-- **No two leaves have the same chain**, if addresses decide over pointers, and with parents over
nodes. -/
theorem ChainTable.Lists.nodup (h : table.Lists t m) (ht : t.Rooted) (hm : m.Built)
    (hd : t.Determined) : table.chains.toList.Nodup := by
  obtain ⟨leaves, hsorted, -, hchains⟩ := h
  refine nodup_of_forall₂ hchains hsorted ?_
  rintro n n' c ⟨node, object, way, his⟩ ⟨node', object', way', his'⟩ hprecedes
  exact hprecedes.ne (his.place_eq his' ht hm hd)

/-! ### Trees in use -/

namespace Tree

/-- **Flattening makes one chain of every leaf that an object owns**, in the order of the tree, and
none of other nodes.  It succeeds exactly if these leaves are at the bases of their objects or
above, and the pointers on their ways, of which there is one from each node, at the nodes that they
lead to or below.  If addresses decide over pointers, and with parents over nodes, no two chains are
the same; and they do so in the tree of any scan. -/
theorem flatten_run (levels : Nat) (ops : List Operation) (m : MemoryMap) :
    (∀ n, ((run levels ops).node? n).isSome → ∃! way, (run levels ops).Way n way) ∧
    ((∃ table, (run levels ops).flatten m = .ok table) ↔
      ∀ n node object way, (run levels ops).OwnedLeaf m n node object →
        (run levels ops).Way n way → object.base ≤ node.own ∧ way.IsChain Node.PointsUpTo) ∧
    (∀ table, (run levels ops).flatten m = .ok table →
      table.Lists (run levels ops) m ∧
      (m.Built → (run levels ops).Determined → table.chains.toList.Nodup)) ∧
    ∀ (ρ : Type) (scan : PointerScan) (options : Guarded Options)
      (settings : Guarded PointerScanOptions) (areas : Guarded AreaSet) (pool : Pool ρ)
      (read : ρ → Reader) (image : Image),
      scan.Succeeds options settings areas pool read m image →
      (∃ levels, ∃ ops : List Operation, (∀ op ∈ ops, op.memory = .ample) ∧
        (scan.scan options settings areas pool read).2.1.tree = run levels ops) ∧
      (scan.scan options settings areas pool read).2.1.tree.Determined ∧
      (scan.scan options settings areas pool read).2.1.chains.chains.toList.Nodup := by
  have hrooted : (run levels ops).Rooted := .run levels ops
  refine ⟨?_, hrooted.exists_flatten_iff, ?_, ?_⟩
  · intro n hn
    obtain ⟨way, hway, -⟩ := hrooted.exists_way hn
    exact ⟨way, hway, fun other hother => hway.unique hother⟩
  · intro table hflatten
    have hlists := hrooted.lists_of_flatten hflatten
    exact ⟨hlists, fun hm hd => hlists.nodup hrooted hm hd⟩
  · intro ρ scan options settings areas pool read image h
    obtain ⟨⟨levels, ops, hample, htree⟩, hd⟩ := h.tree_run
    have hrooted : (scan.scan options settings areas pool read).2.1.tree.Rooted := by
      rw [htree]
      exact .run levels ops
    have hlists := hrooted.lists_of_flatten h.flatten_eq
    exact ⟨⟨levels, ops, hample, htree⟩, hd, hlists.nodup hrooted h.built hd⟩

/-- A root, three places that lead to it, one of them in memory of nobody, and a place that leads to
the first of them. -/
def fivePlaces : List Operation :=
  [.add none ⟨1⟩ (.ofNat 0x2000) .null 0,
    .add (some ⟨0, 0⟩) ⟨0⟩ (.ofNat 0x1008) (.ofNat 0x2000) 1,
    .add (some ⟨0, 0⟩) ⟨0⟩ (.ofNat 0x1010) (.ofNat 0x1ff8) 1,
    .add (some ⟨0, 0⟩) ⟨1⟩ (.ofNat 0x2008) (.ofNat 0x2000) 1,
    .add (some ⟨1, 0⟩) ⟨0⟩ (.ofNat 0x1000) (.ofNat 0x1004) 2]

/-- What is stored at the places. -/
def fivePointers (a : Address) : Address :=
  if a = .ofNat 0x1010 then .ofNat 0x1ff8 else if a = .ofNat 0x1000 then .ofNat 0x1004
  else .ofNat 0x2000

theorem lt_of_fivePlaces (h : (run 3 fivePlaces).node? n = some node) :
    n.depth < 3 ∧ n.index < 3 := by
  rw [node?_eq] at h
  have hdepth : n.depth < 3 := depth_lt_of_mem (Array.mem_of_getElem? h)
  have hsizes : ∀ d < 3, ((run 3 fivePlaces).level d).size ≤ 3 := by decide +kernel
  obtain ⟨hindex, -⟩ := Array.getElem?_eq_some_iff.1 h
  exact ⟨hdepth, Nat.lt_of_lt_of_le hindex (hsizes n.depth hdepth)⟩

theorem determined_fivePlaces : (run 3 fivePlaces).Determined where
  exists_pointer := by
    have hall : ∀ d < 3, ∀ i < 3, ∀ node ∈ (run 3 fivePlaces).node? ⟨d, i⟩, 1 ≤ d →
        node.pointer = fivePointers node.own := by decide +kernel
    refine ⟨fivePointers, ?_⟩
    intro n node hnode
    obtain ⟨hdepth, hindex⟩ := lt_of_fivePlaces hnode
    exact hall n.depth hdepth n.index hindex node hnode
  eq_of_eq := by
    have hall : ∀ d < 3, ∀ i < 3, ∀ j < 3, ∀ a ∈ (run 3 fivePlaces).node? ⟨d, i⟩,
        ∀ b ∈ (run 3 fivePlaces).node? ⟨d, j⟩, a.own = b.own → i = j := by decide +kernel
    rintro ⟨d, i⟩ ⟨e, j⟩ a b ha hb hdepth hown -
    obtain rfl : d = e := hdepth
    obtain ⟨hd, hi⟩ := lt_of_fivePlaces ha
    obtain ⟨-, hj⟩ := lt_of_fivePlaces hb
    rw [hall d hd i hi j hj a ha b hb hown]

theorem flatten_run_fivePlaces :
    (MemoryMap.twoRegions.Built ∧ (run 3 fivePlaces).Determined) ∧
    ∃ table, (run 3 fivePlaces).flatten .twoRegions = .ok table ∧
      table.Lists (run 3 fivePlaces) .twoRegions ∧ table.chains.toList.Nodup := by
  obtain ⟨-, -, htable, -⟩ := flatten_run 3 fivePlaces .twoRegions
  have hmade : ((run 3 fivePlaces).flatten .twoRegions).isOk = true := by decide +kernel
  cases hflatten : (run 3 fivePlaces).flatten .twoRegions with
  | error cause =>
    rw [hflatten] at hmade
    cases hmade
  | ok table =>
    obtain ⟨hlists, hnodup⟩ := htable table hflatten
    exact ⟨⟨MemoryMap.built_twoRegions, determined_fivePlaces⟩, table, rfl, hlists,
      hnodup MemoryMap.built_twoRegions determined_fivePlaces⟩

/-- The two leaves that the object owns are on different levels. -/
example : ((run 3 fivePlaces).flatten .twoRegions).toOption.map (fun table =>
    table.chains.toList.map fun c => (c.object, c.offsets)) =
      some [(some ⟨0⟩, [0x10, 8]), (some ⟨0⟩, [0, 4, 0])] := by
  decide +kernel

end Tree

end PointerChains
