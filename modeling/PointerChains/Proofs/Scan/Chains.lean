import PointerChains.Proofs.Chain.Table
import PointerChains.Proofs.Scan.Search
import PointerChains.Proofs.Tree.Leaves

/-!
# The chains of a scan

A chain is read off the tree from a leaf to the root, and walked through memory from the base of an
object.  Both take the same way: what memory holds at a node is its pointer, and the offset that was
noted leads from there to its parent.

* `Search.Grown.follow_pathOffsets` — the path of a node leads to the target;
* `Chain.FromLeaf`, `Tree.exists_added` — the chains come from the leaves that objects own;
* `Chain.Holds` — a chain that starts at an object of the map and leads to the target;
* `PointerScan.scan_chains` — **every chain of a scan holds, so a verification keeps them all.**
-/

namespace PointerChains

variable {ρ : Type} {given : Selections} {image : Image} {reader : Reader}

/-! ### Sums of addresses -/

theorem Address.add_eq_ok {a b : Address} {offset : UInt64}
    (h : b.offsetFrom? a = some offset) : a.add offset = .ok b := by
  have hsum := Address.offsetFrom?_eq_some_iff.1 h
  rw [Address.add, Address.add?_eq_some_iff.2 hsum.symm]

/-! ### Paths -/

namespace Search

variable {s : Search} {t : Tree} {depth : Nat} {c : Candidate} {node : Node}
  {offsets : List UInt64}

/-- In served memory the pointer that a place stores is read from it. -/
theorem Stores.pointer_eq_ok (h : s.Stores image c)
    (hserved : s.areas.Served s.map reader image) :
    reader.pointer s.options.width c.own = .ok c.pointer := by
  obtain ⟨r, hr, hstart, hstop⟩ := h.inside
  have hread := hserved c.region h.selected r hr
  have hexactly := hread.exactly_eq c.own s.options.width.size s.options.width.size_pos hstart hstop
  rw [Reader.pointer, hexactly, h.pointer_eq]
  rfl

/-- A node of a level has a parent on the level before, at its stored pointer or above. -/
theorem IsLevel.exists_parent (h : s.IsLevel image t (depth + 1))
    (hnode : node ∈ t.level (depth + 1)) :
    ∃ ref parent, node.parent = some ref ∧ t.node? ref = some parent ∧
      parent ∈ t.level depth ∧ s.Stores image ⟨ref, node.region, node.own, node.pointer⟩ := by
  obtain ⟨ref, x, hparent, hlinks⟩ := h.exists_links hnode
  obtain ⟨parent, hfound, -⟩ := Option.map_eq_some_iff.1 hlinks.parent
  refine ⟨ref, parent, hparent, hfound, ?_, hlinks.toStores⟩
  rw [Tree.node?_eq, show ref.depth = depth from Nat.succ.inj hlinks.depth_eq] at hfound
  exact Array.mem_of_getElem? hfound

/-- **The path of a node leads to the target**, in as many steps as the node is deep. -/
theorem Grown.follow_pathOffsets (h : s.Grown image t s.params.maxDepth)
    (hserved : s.areas.Served s.map reader image) (hnode : node ∈ t.level depth)
    (hpath : t.pathOffsets depth node = .ok offsets) :
    follow reader s.options.width node.own offsets = .ok s.params.target ∧
      offsets.length = depth := by
  induction depth generalizing node offsets with
  | zero =>
    cases hpath
    obtain ⟨root, r, hlevel, hown, -⟩ := h.root
    rw [hlevel, Array.mem_singleton] at hnode
    refine ⟨?_, rfl⟩
    rw [hnode, follow, hown]
  | succ depth ih =>
    have hlt : depth + 1 < s.params.maxDepth := by
      rw [← h.depth_eq]
      exact Tree.depth_lt_of_mem hnode
    obtain ⟨ref, parent, hparent, hfound, hbefore, hstores⟩ :=
      (h.levels (depth + 1) (Nat.succ_pos depth) hlt).exists_parent hnode
    have hpointer : reader.pointer s.options.width node.own = .ok node.pointer :=
      hstores.pointer_eq_ok hserved
    rw [Tree.pathOffsets] at hpath
    simp only [hparent, hfound] at hpath
    cases hoffset : parent.own.offsetFrom? node.pointer with
    | none => rw [hoffset] at hpath; cases hpath
    | some offset =>
      rw [hoffset] at hpath
      obtain ⟨rest, hrest, hpath⟩ := exists_of_bind_eq_ok hpath
      cases hpath
      obtain ⟨hfollow, hlength⟩ := ih hbefore hrest
      refine ⟨?_, congrArg Nat.succ hlength⟩
      rw [follow, hpointer]
      show (node.pointer.add offset >>= fun next => follow reader s.options.width next rest) = _
      rw [Address.add_eq_ok hoffset]
      exact hfollow

end Search

/-! ### Leaves -/

/-- What stands on the right of a relation of lists is related to something on the left. -/
theorem exists_of_forall₂ {α β : Type} {R : α → β → Prop} {xs : List α} {ys : List β}
    (h : List.Forall₂ R xs ys) {y : β} (hy : y ∈ ys) : ∃ x ∈ xs, R x y := by
  induction h with
  | nil => cases hy
  | cons hab _ ih =>
    rcases List.mem_cons.1 hy with rfl | hy
    · exact ⟨_, List.mem_cons_self .., hab⟩
    · obtain ⟨x, hx, hxy⟩ := ih hy
      exact ⟨x, List.mem_cons_of_mem _ hx, hxy⟩

/-- The chain is that of a leaf, from the object that owns the leaf's region. -/
structure Chain.FromLeaf (c : Chain) (t : Tree) (m : MemoryMap) (table : ChainTable)
    (leaf : Nat × Node) (object : MappedObject) : Prop where
  owner : m.objectOf? leaf.2.region = some object
  offsets_eq : t.chainOffsets object leaf.1 leaf.2 = .ok c.offsets
  object_eq : c.object = some object.id
  pathname_eq : table.pathname? c = some object.pathname

namespace Tree

variable {t : Tree} {m : MemoryMap} {table after : ChainTable}

theorem mem_level_of_mem_leaves {leaf : Nat × Node} (h : leaf ∈ t.leaves) :
    1 ≤ leaf.1 ∧ leaf.2 ∈ t.level leaf.1 := by
  rw [leaves_eq] at h
  obtain ⟨⟨n, node⟩, hplaced, rfl⟩ := List.mem_map.1 h
  obtain ⟨hpos, hnode, -⟩ := mem_placedLeaves_iff.1 hplaced
  rw [node?_eq] at hnode
  exact ⟨hpos, Array.mem_of_getElem? hnode⟩

/-- The chains that are added come from the leaves that objects own, one from each, and the
pathnames that were there stay. -/
theorem exists_added {leaves : List (Nat × Node)}
    (h : t.flattenLeaves m table leaves = .ok after) :
    after.Extends table ∧ ∃ added, after.chains.toList = table.chains.toList ++ added ∧
      List.Forall₂ (fun leaf c => ∃ object, c.FromLeaf t m after leaf object)
        (leaves.filter fun leaf => (m.objectOf? leaf.2.region).isSome) added := by
  induction leaves generalizing table with
  | nil =>
    cases h
    exact ⟨ChainTable.Extends.refl _, [], (List.append_nil _).symm, .nil⟩
  | cons leaf rest ih =>
    obtain ⟨depth, node⟩ := leaf
    rw [flattenLeaves] at h
    cases howner : m.objectOf? node.region with
    | none =>
      rw [howner] at h
      rw [List.filter_cons_of_neg (by simp [howner])]
      exact ih h
    | some object =>
      simp only [howner] at h
      cases hoffsets : t.chainOffsets object depth node with
      | error cause => rw [hoffsets] at h; cases h
      | ok offsets =>
        rw [hoffsets] at h
        obtain ⟨hextends, added, hchains, hadded⟩ := ih h
        have hpush := table.extends_push object.pathname (some object.id) offsets
        have hpathname := table.pathname_push object.pathname (some object.id) offsets
        rw [ChainTable.chains_push, Array.toList_push, List.append_assoc] at hchains
        rw [List.filter_cons_of_pos (by simp [howner])]
        refine ⟨hextends.trans hpush, _, hchains, .cons ?_ hadded⟩
        exact ⟨object, howner, hoffsets, rfl, hextends.pathname? hpathname⟩

/-- Every chain that is added comes from a leaf. -/
theorem flattenLeaves_eq_ok {leaves : List (Nat × Node)}
    (h : t.flattenLeaves m table leaves = .ok after) :
    after.Extends table ∧ ∀ c ∈ after.chains, c ∈ table.chains ∨
      ∃ leaf ∈ leaves, ∃ object, c.FromLeaf t m after leaf object := by
  obtain ⟨hextends, added, hchains, hadded⟩ := exists_added h
  refine ⟨hextends, ?_⟩
  intro c hc
  rw [← Array.mem_toList_iff, hchains, List.mem_append] at hc
  rcases hc with hbefore | hnew
  · exact .inl (Array.mem_toList_iff.1 hbefore)
  · obtain ⟨leaf, hleaf, hfrom⟩ := exists_of_forall₂ hadded hnew
    exact .inr ⟨leaf, (List.mem_filter.1 hleaf).1, hfrom⟩

end Tree

/-! ### Chains that hold -/

/-- The chain starts at the object of the map that has its pathname, leads to the target, and has a
first offset, one for each pointer on the way, and no more than there are levels. -/
structure Chain.Holds (c : Chain) (table : ChainTable) (m : MemoryMap) (reader : Reader)
    (w : PointerWidth) (target : Address) (levels : Nat) : Prop where
  object : ∃ id object, c.object = some id ∧ m.object? id = some object ∧
    table.pathname? c = some object.pathname ∧ walk reader w object.base c.offsets = .ok target
  two_le_length : 2 ≤ c.offsets.length
  length_le : c.offsets.length ≤ levels

theorem MemoryMap.Built.objectOf?_eq_some {m : MemoryMap} (h : m.Built) {id : RegionId}
    {object : MappedObject} (howner : m.objectOf? id = some object) :
    m.object? object.id = some object := by
  obtain ⟨r, -, howner⟩ := Option.bind_eq_some_iff.1 howner
  obtain ⟨owner, -, hobject⟩ := Option.bind_eq_some_iff.1 howner
  rw [h.object?_id hobject]
  exact hobject

/-- A chain from a leaf of a grown tree holds. -/
theorem Chain.FromLeaf.holds {c : Chain} {s : Search} {t : Tree} {table : ChainTable}
    {leaf : Nat × Node} {object : MappedObject} (h : c.FromLeaf t s.map table leaf object)
    (hm : s.map.Built) (hgrown : s.Grown image t s.params.maxDepth)
    (hserved : s.areas.Served s.map reader image) (hleaf : leaf ∈ t.leaves) :
    c.Holds table s.map reader s.options.width s.params.target s.params.maxDepth := by
  obtain ⟨hpos, hnode⟩ := Tree.mem_level_of_mem_leaves hleaf
  have hlt : leaf.1 < s.params.maxDepth := by
    rw [← hgrown.depth_eq]
    exact Tree.depth_lt_of_mem hnode
  have hchain := h.offsets_eq
  rw [Tree.chainOffsets] at hchain
  cases hoffset : leaf.2.own.offsetFrom? object.base with
  | none => rw [hoffset] at hchain; cases hchain
  | some offset =>
    rw [hoffset] at hchain
    obtain ⟨rest, hrest, hchain⟩ := exists_of_bind_eq_ok hchain
    have hoffsets : offset :: rest = c.offsets := Except.ok.inj hchain
    obtain ⟨hfollow, hlength⟩ := hgrown.follow_pathOffsets hserved hnode hrest
    refine ⟨⟨object.id, object, h.object_eq, hm.objectOf?_eq_some h.owner, h.pathname_eq, ?_⟩,
      ?_, ?_⟩
    · rw [← hoffsets, walk, Address.add_eq_ok hoffset]
      exact hfollow
    · rw [← hoffsets, List.length_cons]
      omega
    · rw [← hoffsets, List.length_cons]
      omega

/-! ### Scans and verifications -/

namespace PointerScan

variable {scan : PointerScan} {options : Guarded Options} {settings : Guarded PointerScanOptions}
  {areas : Guarded AreaSet} {pool : Pool ρ} {read : ρ → Reader} {search : Search}

/-- What a scan needed to know, a verification with the same settings finds, too. -/
theorem prepareVerify_of_prepare (h : prepare options settings areas = .ok search) :
    prepareVerify options settings =
      .ok (search.params.target, search.map, search.options.width) := by
  rw [prepare] at h
  obtain ⟨o, hoptions, h⟩ := exists_of_bind_eq_ok h
  obtain ⟨ps, hsettings, h⟩ := exists_of_bind_eq_ok h
  obtain ⟨a, -, h⟩ := exists_of_bind_eq_ok h
  obtain ⟨params, hparams, h⟩ := exists_of_bind_eq_ok h
  obtain ⟨m, hmap, h⟩ := exists_of_bind_eq_ok h
  cases h
  rw [PointerScanOptions.params] at hparams
  obtain ⟨target, htarget, hparams⟩ := exists_of_bind_eq_ok hparams
  obtain ⟨alignment, -, hparams⟩ := exists_of_bind_eq_ok hparams
  obtain ⟨maxObjSize, -, hparams⟩ := exists_of_bind_eq_ok hparams
  obtain ⟨maxDepth, -, hparams⟩ := exists_of_bind_eq_ok hparams
  cases hparams
  rw [prepareVerify]
  rw [hoptions, hsettings]
  show (Options.require .target ps.target >>= fun target => o.getMap >>= fun map =>
    pure (target, map, o.width)) = _
  rw [htarget, hmap]
  rfl

/-- The base of the object that a chain starts at. -/
def base? (m : MemoryMap) (c : Chain) : Option Address :=
  (c.object.bind m.object?).map MappedObject.base

/-- Whether a chain leads to the target. -/
def leadsTo (read : Reader) (w : PointerWidth) (m : MemoryMap) (target : Address) (c : Chain) :
    Bool :=
  ((base? m c).map (arrives read w target c)).getD false

/-- The bases are those of all chains, unless one has none. -/
theorem bases_eq (m : MemoryMap) (n : Nat) (cs : List Chain) : bases m n cs =
    match cs.findIdx? fun c => (base? m c).isNone with
    | some k => .error (.unresolvedChain (n + k))
    | none => .ok (cs.filterMap (base? m)) := by
  induction cs generalizing n with
  | nil => rfl
  | cons c rest ih =>
    rw [bases, List.findIdx?_cons, List.filterMap_cons]
    cases hobject : c.object.bind m.object? with
    | none => simp [base?, hobject]
    | some object =>
      have hbase : base? m c = some object.base := by rw [base?, hobject, Option.map_some]
      simp only [ih, hbase, Option.isNone_some, Bool.false_eq_true, if_false]
      cases rest.findIdx? fun c => (base? m c).isNone with
      | none => rfl
      | some k =>
        show Except.error (Error.unresolvedChain (n + 1 + k)) =
          .error (.unresolvedChain (n + (k + 1)))
        rw [Nat.add_assoc, Nat.add_comm 1 k]

/-- Where all chains have bases, the answer for each is about the walk from its own base. -/
theorem answers_eq {m : MemoryMap} {w : PointerWidth} {target : Address} {cs : List Chain}
    (h : ∀ c ∈ cs, (base? m c).isSome) :
    ((cs.zip (cs.filterMap (base? m))).map fun (c, base) => arrives reader w target c base) =
      cs.map (leadsTo reader w m target) := by
  induction cs with
  | nil => rfl
  | cons c rest ih =>
    obtain ⟨hc, hrest⟩ := List.forall_mem_cons.1 h
    obtain ⟨base, hbase⟩ := Option.isSome_iff_exists.1 hc
    rw [List.filterMap_cons, hbase, List.zip_cons_cons, List.map_cons, List.map_cons, ih hrest,
      leadsTo, hbase]
    rfl

/-- **A verification names the first chain without a base, or keeps those that lead to the
target**: each chain is walked from its own base, and its own answer decides over it. -/
theorem verify_eq {read : Reader} : scan.verify read options settings =
    match prepareVerify options settings with
    | .error cause => (.error cause, scan)
    | .ok (target, map, width) =>
      match scan.chains.chains.findIdx? fun c => (base? map c).isNone with
      | some n => (.error (.unresolvedChain n), scan)
      | none => (.ok (), { scan with
          chains := scan.chains.retain (leadsTo read width map target), state := .verified }) := by
  rw [verify]
  cases prepareVerify options settings with
  | error cause => rfl
  | ok settled =>
    obtain ⟨target, map, width⟩ := settled
    have hfirst := List.findIdx?_toArray (fun c => (base? map c).isNone) scan.chains.chains.toList
    rw [Array.toArray_toList] at hfirst
    simp only [bases_eq, hfirst]
    cases hfind : scan.chains.chains.toList.findIdx? fun c => (base? map c).isNone with
    | some n => simp only [Nat.zero_add]
    | none =>
      have hsome : ∀ c ∈ scan.chains.chains.toList, (base? map c).isSome := by
        intro c hc
        have hnone := List.findIdx?_eq_none_iff.1 hfind c hc
        rw [Option.isNone_eq_false_iff] at hnone
        exact hnone
      simp only [answers_eq hsome, ChainTable.retainFrom_answers]

/-- A chain that holds starts at a known base and leads to the target. -/
theorem leadsTo_of_holds {c : Chain} {table : ChainTable} {m : MemoryMap} {w : PointerWidth}
    {target : Address} {levels : Nat} (h : c.Holds table m reader w target levels) :
    (base? m c).isSome ∧ leadsTo reader w m target c := by
  obtain ⟨id, object, hobject, hfound, -, hwalk⟩ := h.object
  have hbase : base? m c = some object.base := by
    rw [base?, hobject, Option.bind_some, hfound, Option.map_some]
  refine ⟨by rw [hbase, Option.isSome_some], ?_⟩
  rw [leadsTo, hbase, Option.map_some, Option.getD_some, arrives]
  simp only [hwalk, beq_self_eq_true]

/-- A verification of chains that all hold keeps them as they are. -/
theorem verify_of_holds {m : MemoryMap} {w : PointerWidth} {target : Address} {levels : Nat}
    (hprepare : prepareVerify options settings = .ok (target, m, w))
    (h : ∀ c ∈ scan.chains.chains, c.Holds scan.chains m reader w target levels) :
    scan.verify reader options settings = (.ok (), { scan with state := .verified }) := by
  have hresolved : scan.chains.chains.findIdx? (fun c => (base? m c).isNone) = none := by
    rw [Array.findIdx?_eq_none_iff]
    intro c hc
    rw [← Option.not_isSome, (leadsTo_of_holds (h c hc)).1]
    rfl
  have hkept : scan.chains.retain (leadsTo reader w m target) = scan.chains :=
    ChainTable.retain_eq_self fun c hc => (leadsTo_of_holds (h c hc)).2
  rw [verify_eq]
  simp only [hprepare, hresolved, hkept]

/-- **Every chain of a scan holds**: it starts at the object of the map that has its pathname, and
walking it leads to the target.  A verification right after the scan keeps all chains. -/
theorem scan_chains {m : MemoryMap} {last : Option Job} (hmap : options.value.map = some m)
    (hm : m.Built) (hareas : areas.value.IsFrom given) (hpool : Pool.History given pool last)
    (hserved : ∀ session ∈ pool.sessions, areas.value.Served m (read session) image)
    (hreader : areas.value.Served m reader image)
    (hok : (scan.scan options settings areas pool read).1 = .ok ()) :
    ∃ params, settings.value.params = .ok params ∧
      (∀ c ∈ (scan.scan options settings areas pool read).2.1.chains.chains,
        c.Holds (scan.scan options settings areas pool read).2.1.chains m reader
          options.value.width params.target params.maxDepth) ∧
      (scan.scan options settings areas pool read).2.1.verify reader options settings =
        (.ok (), { (scan.scan options settings areas pool read).2.1 with state := .verified }) := by
  obtain ⟨search, hprepare, hsame, hgrown, hflatten⟩ :=
    grown_of_scan hmap hm hareas hpool hserved hok
  obtain ⟨hoptions, hareas', hparams, -⟩ := prepare_eq_ok hprepare
  subst hsame
  rw [← hareas'] at hreader
  have hholds : ∀ c ∈ (scan.scan options settings areas pool read).2.1.chains.chains,
      c.Holds (scan.scan options settings areas pool read).2.1.chains search.map reader
        search.options.width search.params.target search.params.maxDepth := by
    intro c hc
    obtain ⟨-, hchains⟩ := Tree.flattenLeaves_eq_ok hflatten
    rcases hchains c hc with hnone | ⟨leaf, hleaf, object, hfrom⟩
    · exact absurd hnone (Array.not_mem_empty c)
    · exact hfrom.holds hm hgrown hreader hleaf
  refine ⟨search.params, hparams, ?_, verify_of_holds (prepareVerify_of_prepare hprepare) hholds⟩
  rw [← hoptions]
  exact hholds

theorem scan_chains_twoRegions :
    (MemoryMap.twoRegions.Built ∧ Job.twoRegions.areas.IsFrom .twoRegions ∧
      Pool.History .twoRegions .twoWorkers (some Job.twoRegions) ∧
      (∀ session ∈ Pool.twoWorkers.sessions, Job.twoRegions.areas.Served .twoRegions
        ((fun _ => Image.onePointer.reader) session) .onePointer) ∧
      Job.twoRegions.areas.Served .twoRegions Image.onePointer.reader .onePointer ∧
      twoRegions.1 = .ok ()) ∧
    ∃ params, PointerScanOptions.twoRegions.params = .ok params ∧
      (∀ c ∈ twoRegions.2.1.chains.chains, c.Holds twoRegions.2.1.chains .twoRegions
        Image.onePointer.reader .eight params.target params.maxDepth) ∧
      twoRegions.2.1.verify Image.onePointer.reader { name := "options", value := .twoRegions }
          { name := "settings", value := .twoRegions } =
        (.ok (), { twoRegions.2.1 with state := .verified }) := by
  have hreader : Job.twoRegions.areas.Served .twoRegions Image.onePointer.reader .onePointer :=
    fun _ _ r _ => Image.onePointer.serves_reader r.range
  have hok : twoRegions.1 = .ok () := by cbv
  exact ⟨⟨MemoryMap.built_twoRegions, rfl, Pool.history_twoWorkers, fun _ _ => hreader, hreader,
      hok⟩,
    scan_chains rfl MemoryMap.built_twoRegions Job.admissible_twoRegions.given
      Pool.history_twoWorkers (fun _ _ => hreader) hreader hok⟩

/-- The pointer is eight bytes above the base, and its value is the target. -/
example : twoRegions.2.1.chains.chains.map (fun c => (c.object, c.offsets)) =
    #[(some ⟨0⟩, [8, 0])] := by
  cbv

end PointerScan

end PointerChains
