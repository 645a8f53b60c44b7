import PointerChains.Proofs.Map.Construction
import PointerChains.Proofs.Scan.Flattening

/-!
# Where the nodes of a scan stand

A scan adds only nodes that fit: the parent of each is there, one level up, with the pointer at it
or shortly before it, and no node lies below the object that owns it.  A tree of such nodes takes
candidates that fit without complaint and stays such a tree, and each of its leaves has a chain.
What a pass collects fits, since the matcher gives nodes of the level before only, and since the
regions that are swept are those of the map that the objects belong to, whichever selection and
partition led to them.

* `Node.Placed`, `Tree.Placed` — a node that fits at a level, and a tree of such nodes;
* `Tree.Placed.commit` — candidates that are added fit then if they did before;
* `Tree.Placed.exists_flatten` — the leaves of such a tree have chains;
* `Search.placed_of_collectLevel` — what is collected for a level fits there;
* `Search.exists_commit_of_collectLevel` — so all of it is added;
* `Search.placed_of_search` — **all nodes of a search fit, however far its tree is grown.**
-/

namespace PointerChains

variable {ρ : Type} {t t' : Tree} {m : MemoryMap} {size : UInt64} {depth : Nat}

/-- No region of an object starts below the object's base. -/
theorem MemoryMap.Built.base_le_start (h : m.Built) {id : RegionId} {r : Region}
    {object : MappedObject} (hr : m.region? id = some r) (hobject : m.objectOf? id = some object) :
    object.base.toNat ≤ r.range.start.toNat := by
  obtain ⟨entries, hbuild⟩ := h
  obtain ⟨-, rfl⟩ := MemoryMap.build_eq_ok_iff.1 hbuild
  rw [MemoryMap.region?_ofOrdered, Option.map_eq_some_iff] at hr
  obtain ⟨e, hentry, rfl⟩ := hr
  rw [MemoryMap.objectOf?_ofOrdered, hentry, Option.bind_some, Option.map_eq_some_iff] at hobject
  obtain ⟨name, howner, rfl⟩ := hobject
  have hname := Mapping.mem_owners_of_owner? hentry howner
  obtain ⟨-, hbase⟩ := Mapping.base_namedObject (Mapping.pairwise_startsBy entries) hname
  exact hbase e (List.mem_of_getElem? hentry) howner

/-! ### Nodes that fit -/

/-- The node fits at a level of a tree: unless it is the root, its parent is one level up, and its
pointer is at the parent or at most a size below it; and it is not below the object that owns it. -/
structure Node.Placed (node : Node) (t : Tree) (m : MemoryMap) (size : UInt64) (depth : Nat) :
    Prop where
  exists_parent : 0 < depth → ∃ p x, node.parent = some p ∧ p.depth + 1 = depth ∧
    t.own? p = some x ∧ node.pointer.toNat ≤ x.toNat ∧ x.toNat - node.pointer.toNat ≤ size.toNat
  base_le : ∀ object, m.objectOf? node.region = some object → object.base.toNat ≤ node.own.toNat

/-- All nodes of the tree fit. -/
def Tree.Placed (t : Tree) (m : MemoryMap) (size : UInt64) : Prop :=
  ∀ d, ∀ node ∈ (t.level d).toList, node.Placed t m size d

theorem Node.placed_bare {node : Node} :
    node.bare.Placed t m size depth ↔ node.Placed t m size depth := by
  constructor
  · intro h
    exact ⟨h.exists_parent, h.base_le⟩
  · intro h
    exact ⟨h.exists_parent, h.base_le⟩

namespace Tree

theorem placed_iff_row :
    t.Placed m size ↔ ∀ d, ∀ node ∈ t.row d, node.Placed t m size d := by
  simp only [Placed, row, List.forall_mem_map, Node.placed_bare]

/-- Nodes behind the others of a level do not change the address of any. -/
theorem own?_of_longer {n : NodeRef} {x : Address} (h : t.row n.depth <+: t'.row n.depth)
    (hown : t.own? n = some x) : t'.own? n = some x := by
  rw [own?_eq, Option.map_eq_some_iff] at hown ⊢
  obtain ⟨node, hnode, rfl⟩ := hown
  obtain ⟨hlt, -⟩ := List.getElem?_eq_some_iff.1 hnode
  obtain ⟨more, hmore⟩ := h
  refine ⟨node, ?_, rfl⟩
  rw [← hmore, List.getElem?_append_left hlt, hnode]

theorem isSome_own? {n : NodeRef} : (t.own? n).isSome = (t.node? n).isSome :=
  Option.isSome_map

end Tree

/-- A node stays in its place if its tree only grows. -/
theorem Node.Placed.mono {node : Node} (h : node.Placed t m size depth)
    (hrow : ∀ d, t.row d <+: t'.row d) : node.Placed t' m size depth where
  exists_parent := by
    intro hpos
    obtain ⟨p, x, hparent, hdepth, hown, hle, hnear⟩ := h.exists_parent hpos
    exact ⟨p, x, hparent, hdepth, Tree.own?_of_longer (hrow p.depth) hown, hle, hnear⟩
  base_le := h.base_le

/-! ### Commits -/

namespace Tree

variable {b : LevelBuilder}

/-- A node that nothing speaks against is added. -/
theorem exists_addNode {parent : Option NodeRef} (h : t.fault? parent depth = none)
    (region : RegionId) (own pointer : Address) :
    ∃ child after, t.addNode parent region own pointer depth = (.ok child, after) := by
  rw [addNode, h]
  simp [Memory.ample]

/-- All nodes fit after the commit of candidates that do. -/
theorem Placed.commit {count : Nat} {emptied : LevelBuilder} (h : t.Placed m size)
    (hb : ∀ c ∈ b.pending, c.node.Placed t m size b.depth)
    (hcommit : t.commit b = (.ok count, t', emptied)) : t'.Placed m size := by
  have hrow := (gains_of_commit hcommit).row_eq
  have hgrows : ∀ d, t.row d <+: t'.row d := by
    intro d
    rw [hrow]
    by_cases hd : d = b.depth
    · rw [if_pos hd]
      exact List.prefix_append ..
    · rw [if_neg hd]
  refine placed_iff_row.2 ?_
  intro d node hnode
  rw [hrow] at hnode
  by_cases hd : d = b.depth
  swap
  · rw [if_neg hd] at hnode
    exact (placed_iff_row.1 h d node hnode).mono hgrows
  rw [if_pos hd, List.mem_append] at hnode
  rcases hnode with hnode | hnode
  · exact (placed_iff_row.1 h d node hnode).mono hgrows
  · obtain ⟨c, hc, rfl⟩ := List.mem_map.1 hnode
    rw [hd]
    exact (hb c (List.mem_mergeSort.1 hc)).mono hgrows

/-! ### Chains -/

theorem mem_level_of_node? {n : NodeRef} {node : Node} (h : t.node? n = some node) :
    node ∈ (t.level n.depth).toList := by
  rw [node?_eq] at h
  exact Array.mem_toList_iff.2 (Array.mem_of_getElem? h)

/-- On the way from a node that fits every pointer is at the next node or below it. -/
theorem Placed.isChain_way (h : t.Placed m size) (hrooted : t.Rooted) {n : NodeRef}
    {way : List Node} (hway : t.Way n way) : way.IsChain Node.PointsUpTo := by
  induction hway with
  | root => exact .singleton _
  | up hnode hparent hrest ih =>
    obtain ⟨parent, rest, hp, rfl⟩ := hrest.exists_cons
    have hdepth := hrooted.depth_of_parent hnode hparent
    have hplaced := h _ _ (mem_level_of_node? hnode)
    obtain ⟨p', x, hparent', -, hown, hle, -⟩ := hplaced.exists_parent (by omega)
    rw [hparent, Option.some.injEq] at hparent'
    subst hparent'
    rw [own?, hp, Option.map_some, Option.some.injEq] at hown
    subst hown
    exact .cons_cons (Address.le_iff_toNat_le.2 hle) ih

/-- The leaves of a tree whose nodes fit have chains. -/
theorem Placed.exists_flatten (h : t.Placed m size) (hrooted : t.Rooted) :
    ∃ chains, t.flatten m = .ok chains := by
  refine hrooted.exists_flatten_iff.2 fun n node object way hleaf hway => ⟨?_, ?_⟩
  · rw [Address.le_iff_toNat_le]
    exact (h _ _ (mem_level_of_node? hleaf.found)).base_le object hleaf.owner
  · exact h.isChain_way hrooted hway

end Tree

/-! ### What is collected -/

/-- The parent of a candidate that fits is there, one level up. -/
theorem Node.Placed.parent_of_candidate {c : Candidate} (h : c.node.Placed t m size depth)
    (hpos : 0 < depth) : c.parent.depth + 1 = depth ∧ (t.node? c.parent).isSome := by
  obtain ⟨p, x, hparent, hdepth, hown, -⟩ := h.exists_parent hpos
  cases hparent
  refine ⟨hdepth, ?_⟩
  rw [← Tree.isSome_own?, hown]
  rfl

namespace Pool

variable {pool ready : Pool ρ} {job : Job} {flags : SetupFlags} {read : ρ → Reader} {stats : Stats}

/-- After a set-up, whatever the pool was used for before, a pass that ends with totals visits
regions of the job's map only. -/
theorem exists_region_of_visit (hmap : job.options.map = some m)
    (hsetup : pool.setup job.options job.areas job.visitor job.alignment flags = (.ok (), ready))
    (hok : (ready.runPass read).1.result = .ok stats) {v : Visit}
    (hv : v ∈ visitsOf (ready.runPass read).1.logs.flatten) :
    ∃ id r, m.region? id = some r ∧ v.region = r.id ∧ r.range.contains v.address := by
  obtain ⟨-, -, m', made, hcheck, -, hplans⟩ := setup_eq_ok hsetup
  obtain ⟨hmap', -⟩ := checkSetup_eq_ok hcheck
  rw [hmap, Option.some.injEq] at hmap'
  subst hmap'
  obtain ⟨hplans, -⟩ := plansFor_eq_ok hplans
  obtain ⟨-, heq⟩ | ⟨stats', cancel, hrunning, hlength, houtcome, heq⟩ | ⟨cause, herror, -⟩ :=
    ready.runPass_cases read
  · rw [heq] at hok
    cases hok
  · rw [← crew_eq_sessions hrunning] at hlength
    obtain ⟨hcompletes, hlogs, -⟩ := sweepRound_of_ok hlength houtcome
    rw [heq] at hv
    simp only [hlogs, ← List.flatMap_def, visitsOf_flatMap, List.mem_flatMap] at hv
    obtain ⟨w, hw, hv⟩ := hv
    obtain ⟨a, ha, u, hu, rfl⟩ := (Plan.exists_visit_iff fun u => u = v).1 ⟨v, hv, rfl⟩
    have hcomplete := (hcompletes w hw).2 a ha
    have hplan : w.2 ∈ ready.plans := (List.of_mem_zip hw).2
    rw [hplans, List.mem_map] at hplan
    obtain ⟨share, -, hshare⟩ := hplan
    rw [← hshare] at ha
    obtain ⟨id, -, r, hr, rfl⟩ := MemoryMap.mem_areas_iff.1 ha
    obtain ⟨-, -, hregion⟩ := (Plan.course_of_sweep hcomplete).1.mem_region u hu
    exact ⟨id, r, hr, hregion, Plan.contains_address hcomplete hu⟩
  · rw [hok] at herror
    cases herror

end Pool

namespace Search

variable {s : Search} {pool after : Pool ρ} {read : ρ → Reader} {level next : LevelBuilder}

theorem depth_of_collectLevel (h : s.collectLevel pool read level = (.ok next, after)) :
    next.depth = level.depth := by
  obtain ⟨ready, stats, -, -, -, rfl⟩ := collectLevel_eq_ok h
  rfl

/-- What is collected for a level fits there. -/
theorem placed_of_collectLevel (hm : s.map.Built) (hmap : s.options.map = some s.map)
    (hbuilder : t.levelBuilder depth = .ok level)
    (hcollect : s.collectLevel pool read level = (.ok next, after)) :
    ∀ c ∈ next.pending, c.node.Placed t s.map s.params.maxObjSize depth := by
  intro c hc
  obtain ⟨rfl, hpending, hlists⟩ := Tree.lists_of_levelBuilder hbuilder
  obtain ⟨ready, stats, hsetup, hok, -, rfl⟩ := collectLevel_eq_ok hcollect
  rw [LevelBuilder.flush, hpending, List.nil_append, Matcher.flatMap_collect, List.mem_flatMap]
    at hc
  obtain ⟨v, hv, hc⟩ := hc
  obtain ⟨-, hregion, hown, -, x, hparent⟩ := Matcher.mem_candidates_iff.1 hc
  obtain ⟨hreaches, -⟩ := (Matcher.mem_parents_iff hlists.sorted).1 hparent
  obtain ⟨hdepth, hx⟩ := (hlists.mem_iff (x, c.parent)).1 hreaches.mem
  refine ⟨fun _ => ⟨c.parent, x, rfl, hdepth, hx, hreaches.le, hreaches.near⟩, ?_⟩
  intro object hobject
  have hmap' : s.job.options.map = some s.map := hmap
  obtain ⟨id, r, hr, hid, hinside⟩ := Pool.exists_region_of_visit hmap' hsetup hok hv
  have hobject : s.map.objectOf? id = some object := by
    rw [← hm.region?_id hr, ← hid, ← hregion]
    exact hobject
  have hbase := hm.base_le_start hr hobject
  rw [AddressRange.contains_iff, ← hown] at hinside
  exact Nat.le_trans hbase hinside.1

/-- The parents of what is collected for a level are one level up, so all of it is added. -/
theorem exists_commit_of_collectLevel (hm : s.map.Built) (hmap : s.options.map = some s.map)
    (hbuilder : t.levelBuilder depth = .ok level)
    (hcollect : s.collectLevel pool read level = (.ok next, after)) :
    (∀ c ∈ next.pending, c.parent.depth + 1 = depth ∧ (t.node? c.parent).isSome) ∧
      ∃ count grown emptied, t.commit next = (.ok count, grown, emptied) := by
  obtain ⟨hlevel, -, hlists⟩ := Tree.lists_of_levelBuilder hbuilder
  have hnext := depth_of_collectLevel hcollect
  have hpending := placed_of_collectLevel hm hmap hbuilder hcollect
  have hparents : ∀ c ∈ next.pending, c.parent.depth + 1 = depth ∧ (t.node? c.parent).isSome := by
    intro c hc
    exact (hpending c hc).parent_of_candidate (hlists.pos.trans_eq hlevel)
  have hfits : ∀ c ∈ next.pending, c.Fits t next.depth := by
    rw [hnext]
    intro c hc
    obtain ⟨hparent, hsome⟩ := hparents c hc
    exact ⟨hlists.lt, hparent.trans hlevel.symm, hsome⟩
  obtain ⟨count, hcount⟩ := Tree.exists_commit_iff.2 hfits
  exact ⟨hparents, count, (t.commit next).2.1, (t.commit next).2.2, Prod.ext hcount rfl⟩

/-! ### Searches -/

/-- The target is not below the object of the region that it lies in. -/
theorem placed_of_rootTree (hm : s.map.Built) (h : s.rootTree = .ok t) :
    t.Placed s.map s.params.maxObjSize := by
  obtain ⟨-, hlater, region, hfind, hrow⟩ := row_of_rootTree h
  obtain ⟨hregion, hinside⟩ := hm.findRegion?_eq_some hfind
  refine Tree.placed_iff_row.2 fun d node hnode => ?_
  rcases Nat.eq_zero_or_pos d with rfl | hpos
  · rw [hrow, List.mem_singleton] at hnode
    subst hnode
    refine ⟨fun hlt => absurd hlt (Nat.lt_irrefl 0), ?_⟩
    intro object hobject
    have hbase := hm.base_le_start hregion hobject
    rw [AddressRange.contains_iff] at hinside
    exact Nat.le_trans hbase hinside.1
  · rw [hlater d hpos] at hnode
    cases hnode

theorem rooted_of_rootTree (h : s.rootTree = .ok t) : t.Rooted := by
  obtain ⟨region, child, -, hadd⟩ := rootTree_eq_ok h
  exact (Tree.Linked.empty _).toRooted.of_adds (Tree.adds_of_addNode hadd)

/-- A tree of nodes that fit stays one, however far it is grown. -/
theorem placed_of_grow (levels : Nat) (hm : s.map.Built) (hmap : s.options.map = some s.map)
    (hplaced : t.Placed s.map s.params.maxObjSize) (hrooted : t.Rooted)
    (h : s.grow read t pool depth levels = (.ok t', after)) :
    t'.Placed s.map s.params.maxObjSize ∧ t'.Rooted := by
  induction levels generalizing t pool depth with
  | zero =>
    cases h
    exact ⟨hplaced, hrooted⟩
  | succ levels ih =>
    obtain ⟨level, hbuilder, hstep⟩ := grow_succ_eq_ok h
    obtain ⟨-, rfl, -⟩ | ⟨next, ready, count, grown, emptied, -, hcollect, hcommit, hrest⟩ := hstep
    · exact ⟨hplaced, hrooted⟩
    · have hpending := placed_of_collectLevel hm hmap hbuilder hcollect
      rw [← (Tree.lists_of_levelBuilder hbuilder).1, ← depth_of_collectLevel hcollect] at hpending
      have hgrown := hrooted.commit next .ample
      rw [hcommit] at hgrown
      exact ih (hplaced.commit hpending hcommit) hgrown hrest

/-- **All nodes of a search fit, however far its tree is grown from the target.** -/
theorem placed_of_search {root : Tree} (levels : Nat) (hm : s.map.Built)
    (hmap : s.options.map = some s.map) (hroot : s.rootTree = .ok root)
    (h : s.grow read root pool 1 levels = (.ok t, after)) :
    t.Placed s.map s.params.maxObjSize ∧ t.Rooted :=
  placed_of_grow levels hm hmap (placed_of_rootTree hm hroot) (rooted_of_rootTree hroot) h

end Search

end PointerChains
