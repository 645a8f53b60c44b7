import PointerChains.Proofs.Scan.Search
import PointerChains.Proofs.Tree.Ways

/-!
# What a scan leaves

All that is known of the tree of a scan that ends well: how it was made, what stands at its root,
and what its levels hold.  The levels are sorted and hold nothing twice, and what they store comes
from memory, so that addresses tell the nodes apart.

* `Search.Complete` — the tree is that of a search that found all its levels;
* `Search.Complete.determined` — its nodes are told apart by addresses and parents;
* `PointerScan.Succeeds` — a scan ends well over a map and an image of memory;
* `PointerScan.Succeeds.exists_complete` — **its tree is complete**;
* `PointerScan.Succeeds.tree_run` — it could have been made by operations on trees.
-/

namespace PointerChains

variable {ρ : Type} {image : Image}

/-- What comes before differs in its address or its parent. -/
theorem Candidate.Precedes.ne {c d : Candidate} (h : c.Precedes d) :
    (c.own, c.parent) ≠ (d.own, d.parent) := by
  intro heq
  rw [Prod.mk.injEq] at heq
  obtain ⟨hown, hparent⟩ := heq
  rw [Precedes, hown, hparent] at h
  omega

/-- A node stands at the place of its candidate. -/
theorem Tree.getElem_of_row {t : Tree} {depth k : Nat} {cs : List Candidate} {node : Node}
    (hrow : t.row depth = cs.map Candidate.node) (hnode : t.node? ⟨depth, k⟩ = some node) :
    ∃ hk : k < cs.length, cs[k].node = node.bare := by
  rw [Tree.node?_eq, ← Array.getElem?_toList] at hnode
  have hbare : (cs.map Candidate.node)[k]? = some node.bare := by
    rw [← hrow, Tree.row, List.getElem?_map, hnode, Option.map_some]
  obtain ⟨hk, hat⟩ := List.getElem?_eq_some_iff.1 hbare
  rw [List.length_map] at hk
  rw [List.getElem_map] at hat
  exact ⟨hk, hat⟩

namespace Search

variable {s : Search} {t : Tree} {depth : Nat}

/-- No two nodes of a level have the same address and parent. -/
theorem IsLevel.index_eq (h : s.IsLevel image t depth) {i j : Nat} {a b : Node}
    (ha : t.node? ⟨depth, i⟩ = some a) (hb : t.node? ⟨depth, j⟩ = some b) (hown : a.own = b.own)
    (hparent : a.parent = b.parent) : i = j := by
  obtain ⟨cs, hrow, hsorted, -⟩ := h
  obtain ⟨hi, hai⟩ := Tree.getElem_of_row hrow ha
  obtain ⟨hj, hbj⟩ := Tree.getElem_of_row hrow hb
  rw [Candidate.node, Node.bare, Node.mk.injEq] at hai hbj
  obtain ⟨-, -, hai, -, hpi, -⟩ := hai
  obtain ⟨-, -, hbj, -, hpj, -⟩ := hbj
  have hsame : (cs[i].own, cs[i].parent) = (cs[j].own, cs[j].parent) := by
    have hparents : some cs[i].parent = some cs[j].parent := hpi.trans (hparent.trans hpj.symm)
    exact Prod.ext (hai.trans (hown.trans hbj.symm)) (Option.some.inj hparents)
  rw [List.pairwise_iff_getElem] at hsorted
  rcases Nat.lt_trichotomy i j with hlt | heq | hlt
  · exact absurd hsame (hsorted i j hi hj hlt).ne
  · exact heq
  · exact absurd hsame.symm (hsorted j i hj hi hlt).ne

/-- The tree of a search that found all its levels, from the node for the target on. -/
structure Complete (s : Search) (image : Image) (t : Tree) : Prop
    extends s.Grown image t s.params.maxDepth where
  root_row : ∃ region, t.row 0 = [⟨0, region, s.params.target, .null, none, #[]⟩]
  exists_run : ∃ ops : List Tree.Operation, (∀ op ∈ ops, op.memory = .ample) ∧
    t = Tree.run s.params.maxDepth ops

namespace Complete

variable {n : NodeRef} {node : Node}

theorem rooted (h : s.Complete image t) : t.Rooted := by
  obtain ⟨ops, -, rfl⟩ := h.exists_run
  exact .run _ ops

/-- A node below the root is on a level of the search. -/
theorem level_of_node? (h : s.Complete image t) (hnode : t.node? n = some node)
    (hpos : 1 ≤ n.depth) : s.IsLevel image t n.depth ∧ node ∈ t.level n.depth := by
  rw [Tree.node?_eq] at hnode
  have hmem := Array.mem_of_getElem? hnode
  refine ⟨h.levels n.depth hpos ?_, hmem⟩
  rw [← h.depth_eq]
  exact Tree.depth_lt_of_mem hmem

/-- The nodes of a complete tree are told apart by addresses and parents, and what stands at an
address is its pointer. -/
theorem determined (h : s.Complete image t) : t.Determined where
  exists_pointer := by
    refine ⟨fun a => s.options.width.decode (image.read a.toNat s.options.width.size), ?_⟩
    intro n node hnode hpos
    obtain ⟨hlevel, hmem⟩ := h.level_of_node? hnode hpos
    obtain ⟨ref, x, -, hlinks⟩ := hlevel.exists_links hmem
    exact hlinks.pointer_eq
  eq_of_eq := by
    intro m n a b ha hb hdepth hown hparent
    rcases Nat.eq_zero_or_pos m.depth with hzero | hpos
    · -- there is one node on the first level
      rw [h.rooted.eq_root (by rw [ha, Option.isSome_some]) hzero,
        h.rooted.eq_root (by rw [hb, Option.isSome_some]) (hdepth.symm.trans hzero)]
    · obtain ⟨d, i⟩ := m
      obtain ⟨e, j⟩ := n
      obtain rfl : d = e := hdepth
      rw [(h.level_of_node? ha hpos).1.index_eq ha hb hown hparent]

/-- The root stands for the target, and has no pointer. -/
theorem exists_root (h : s.Complete image t) : ∃ node, t.node? ⟨0, 0⟩ = some node ∧
    node.parent = none ∧ node.content = (s.params.target, .null) := by
  obtain ⟨region, hrow⟩ := h.root_row
  obtain ⟨node, hlevel, hbare⟩ := List.map_eq_singleton_iff.1 hrow
  rw [Node.bare, Node.mk.injEq] at hbare
  obtain ⟨-, -, hown, hpointer, hparent, -⟩ := hbare
  refine ⟨node, ?_, hparent, Prod.ext hown hpointer⟩
  rw [Tree.node?_eq, ← Array.getElem?_toList, hlevel]
  rfl

end Complete

end Search

namespace PointerScan

variable {scan : PointerScan} {options : Guarded Options} {settings : Guarded PointerScanOptions}
  {areas : Guarded AreaSet} {pool : Pool ρ} {read : ρ → Reader} {m : MemoryMap}

/-- The scan ends well: over a map that was made from entries, with regions that were selected under
their stamp and a pool that was reached by operations, all sessions of which bring the same image
from the selected regions. -/
structure Succeeds (scan : PointerScan) (options : Guarded Options)
    (settings : Guarded PointerScanOptions) (areas : Guarded AreaSet) (pool : Pool ρ)
    (read : ρ → Reader) (m : MemoryMap) (image : Image) : Prop where
  map_eq : options.value.map = some m
  built : m.Built
  history : ∃ given last, areas.value.IsFrom given ∧ Pool.History given pool last
  told : ∀ session ∈ pool.sessions, areas.value.Told m (read session) image
  ok : (scan.scan options settings areas pool read).1 = .ok ()

namespace Succeeds

/-- **The tree of a scan that ends well is complete.** -/
theorem exists_complete (h : scan.Succeeds options settings areas pool read m image) :
    ∃ search, prepare options settings areas = .ok search ∧ search.map = m ∧
      search.Complete image (scan.scan options settings areas pool read).2.1.tree := by
  obtain ⟨given, last, hareas, hpool⟩ := h.history
  obtain ⟨search, hprepare, hsame, hgrown, -⟩ :=
    grown_of_told h.map_eq h.built hareas hpool h.told h.ok
  obtain ⟨search', root, tree, after, chains, hprepare', hroot, hgrow, -, hscan⟩ := scan_cases h.ok
  obtain rfl : search = search' := by
    rw [hprepare, Except.ok.injEq] at hprepare'
    exact hprepare'
  obtain ⟨ops, hample, hops, hrows⟩ := Search.exists_commits _ hgrow
  obtain ⟨-, -, region, -, hrow⟩ := Search.row_of_rootTree hroot
  obtain ⟨region', child, -, hadd⟩ := Search.rootTree_eq_ok hroot
  refine ⟨search, hprepare, hsame, ?_⟩
  rw [hscan] at hgrown ⊢
  refine ⟨hgrown, ⟨region.id, (hrows 0 Nat.one_pos).trans hrow⟩,
    .add none region'.id search.params.target .null 0 :: ops,
    List.forall_mem_cons.2 ⟨rfl, hample⟩, ?_⟩
  rw [hops, Tree.run, List.foldl_cons, Tree.perform, hadd]

/-- The chains of a scan that ends well are those of its tree. -/
theorem flatten_eq (h : scan.Succeeds options settings areas pool read m image) :
    (scan.scan options settings areas pool read).2.1.tree.flatten m =
      .ok (scan.scan options settings areas pool read).2.1.chains := by
  obtain ⟨given, last, hareas, hpool⟩ := h.history
  obtain ⟨search, -, -, -, hflatten⟩ := grown_of_told h.map_eq h.built hareas hpool h.told h.ok
  exact hflatten

/-- The tree of a scan that ends well is one that operations make, and addresses tell its nodes
apart. -/
theorem tree_run (h : scan.Succeeds options settings areas pool read m image) :
    (∃ levels, ∃ ops : List Tree.Operation, (∀ op ∈ ops, op.memory = .ample) ∧
        (scan.scan options settings areas pool read).2.1.tree = Tree.run levels ops) ∧
      (scan.scan options settings areas pool read).2.1.tree.Determined := by
  obtain ⟨search, -, -, hcomplete⟩ := h.exists_complete
  exact ⟨⟨_, hcomplete.exists_run⟩, hcomplete.determined⟩

end Succeeds

end PointerScan

end PointerChains
