import PointerChains.Proofs.Scan.Outcome

/-!
# What pruning takes away

A scan that counts only the nearest nodes, or only those at a required distance, finds less on every
level, and looks for less on the next one.  So the levels of two scans have little to do with each
other.  But a way to the root that the narrower scan finds, the wider one finds as well, at other
places of its tree.

* `PointerScanOptions.Loosens`, `Search.Loosens` — the same settings, with less to prune by;
* `Search.Loosens.exists_node` — what leads to a node leads to it in the wider search, too;
* `Search.Loosens.exists_way` — and so do whole ways;
* `PointerScan.isPath_of_loosens` — **pruning only removes paths.**
-/

namespace PointerChains

variable {ρ σ : Type} {image : Image}

/-- Settings with the same target, alignment and depth, by which all nodes count, at any distance up
to one that is not smaller. -/
structure PointerScanOptions.Loosens (loose tight : PointerScanOptions) : Prop where
  target_eq : loose.target = tight.target
  alignment_eq : loose.alignment = tight.alignment
  maxDepth_eq : loose.maxDepth = tight.maxDepth
  smartScan : loose.smartScan = false
  presets : ∀ offset ∈ loose.presets, offset = none
  maxObjSize_le : ∀ small ∈ tight.maxObjSize, ∀ large ∈ loose.maxObjSize, small ≤ large

namespace Search

variable {s s' : Search} {t t' : Tree} {depth : Nat} {c : Candidate} {x : Address}

/-- The searches go through the same memory, the one with less to prune by. -/
structure Loosens (s' s : Search) : Prop where
  map_eq : s'.map = s.map
  regions_eq : s'.areas.regions = s.areas.regions
  width_eq : s'.options.width = s.options.width
  target_eq : s'.params.target = s.params.target
  alignment_eq : s'.params.alignment = s.params.alignment
  maxDepth_eq : s'.params.maxDepth = s.params.maxDepth
  smartScan : s'.params.smartScan = false
  preset? : ∀ depth, s'.params.preset? depth = none
  maxObjSize_le : s.params.maxObjSize ≤ s'.params.maxObjSize

namespace Loosens

/-- What a place stores is the same for both, and for any parent. -/
theorem stores (hl : s'.Loosens s) (h : s.Stores image c) (p : NodeRef) :
    s'.Stores image { c with parent := p } where
  selected := by
    rw [hl.regions_eq]
    exact h.selected
  inside := by
    rw [hl.map_eq, hl.width_eq]
    exact h.inside
  aligned := by
    rw [hl.alignment_eq]
    exact h.aligned
  pointer_eq := by
    rw [hl.width_eq]
    exact h.pointer_eq

/-- A place that leads to a node leads to any node at the same address in the wider search. -/
theorem admits (hl : s'.Loosens s) (h : s.Links image t depth c x) {p : NodeRef}
    (hdepth : p.depth = c.parent.depth) (hown : t'.own? p = some x) :
    s'.Admits image t' depth { c with parent := p } := by
  refine ⟨x, ⟨hl.stores h.toStores p, ?_, hown, h.le, ?_, ?_⟩, ?_⟩
  · rw [← h.depth_eq, hdepth]
  · exact h.near.trans (UInt64.le_iff_toNat_le.1 hl.maxObjSize_le)
  · intro offset hoffset
    rw [hl.preset?] at hoffset
    cases hoffset
  · intro hsmart
    rw [hl.smartScan] at hsmart
    cases hsmart

/-- What leads to a node has a node in the wider search, too, below any that holds the same. -/
theorem exists_node (hl : s'.Loosens s) (h : s.Complete image t) (h' : s'.Complete image t')
    {n p p' : NodeRef} {node parent parent' : Node} (hnode : t.node? n = some node)
    (hparent : node.parent = some p) (hp : t.node? p = some parent)
    (hp' : t'.node? p' = some parent') (hdepth : p'.depth = p.depth)
    (hcontent : parent'.content = parent.content) :
    ∃ n' node', n'.depth = n.depth ∧ t'.node? n' = some node' ∧ node'.parent = some p' ∧
      node'.content = node.content := by
  have hbelow : n.depth = p.depth + 1 := h.rooted.depth_of_parent hnode hparent
  obtain ⟨hlevel, hmem⟩ := h.level_of_node? hnode (by omega)
  obtain ⟨ref, x, href, hlinks⟩ := hlevel.exists_links hmem
  rw [hparent, Option.some.injEq] at href
  subst href
  have hx : t'.own? p' = some x := by
    have hsame : t.own? p = some x := hlinks.parent
    have hown : parent'.own = parent.own := congrArg Prod.fst hcontent
    rw [Tree.own?, hp, Option.map_some] at hsame
    rw [Tree.own?, hp', Option.map_some, hown, hsame]
  have hadmits := hl.admits hlinks hdepth hx
  have hlt : n.depth < s'.params.maxDepth := by
    rw [hl.maxDepth_eq, ← h.depth_eq]
    exact Tree.depth_lt_of_mem hmem
  obtain ⟨index, node', hnode', hbare⟩ :=
    (h'.levels n.depth (by omega) hlt).exists_node hadmits
  rw [Node.bare, Candidate.node, Node.mk.injEq] at hbare
  obtain ⟨-, -, hown, hpointer, hparent', -⟩ := hbare
  exact ⟨⟨n.depth, index⟩, node', rfl, hnode', hparent', Prod.ext hown hpointer⟩

/-- **The ways to the root of a search are ways of a wider one**, from nodes that hold the same at
the same depth. -/
theorem exists_way (hl : s'.Loosens s) (h : s.Complete image t) (h' : s'.Complete image t')
    {n : NodeRef} {way : List Node} (hway : t.Way n way) :
    ∃ n' way', n'.depth = n.depth ∧ t'.Way n' way' ∧
      way'.map Node.content = way.map Node.content := by
  induction hway with
  | root hnode hparent =>
    obtain ⟨root, hroot, -, hcontent⟩ := h.exists_root
    obtain ⟨root', hroot', hparent', hcontent'⟩ := h'.exists_root
    obtain rfl := h.rooted.eq_root_of_parent hnode hparent
    rw [hroot, Option.some.injEq] at hnode
    subst hnode
    refine ⟨⟨0, 0⟩, [root'], rfl, .root hroot' hparent', ?_⟩
    rw [List.map_singleton, List.map_singleton, hcontent, hcontent', hl.target_eq]
  | up hnode hparent hrest ih =>
    obtain ⟨p', rest', hdepth, hrest', hcontents⟩ := ih
    obtain ⟨parent, ways, hp, rfl⟩ := hrest.exists_cons
    obtain ⟨parent', ways', hp', rfl⟩ := hrest'.exists_cons
    obtain ⟨n', node', hdepth', hnode', hparent', hcontent'⟩ :=
      hl.exists_node h h' hnode hparent hp hp' hdepth (List.cons.inj hcontents).1
    refine ⟨n', node' :: parent' :: ways', hdepth', .up hnode' hparent' hrest', ?_⟩
    rw [List.map_cons, hcontent', hcontents, ← List.map_cons]

end Loosens

end Search

/-! ### Scans -/

namespace PointerScan

variable {scan scan' : PointerScan} {options options' : Guarded Options}
  {settings settings' : Guarded PointerScanOptions} {areas areas' : Guarded AreaSet}
  {pool : Pool ρ} {pool' : Pool σ} {read : ρ → Reader} {read' : σ → Reader} {m : MemoryMap}
  {search search' : Search}

theorem loosens_of_prepare (hprepare : prepare options settings areas = .ok search)
    (hprepare' : prepare options' settings' areas' = .ok search') (hmap : search'.map = search.map)
    (hwidth : options'.value.width = options.value.width)
    (hareas : areas'.value.regions = areas.value.regions)
    (hloose : settings'.value.Loosens settings.value) : search'.Loosens search := by
  obtain ⟨hoptions, hselected, hparams, -⟩ := prepare_eq_ok hprepare
  obtain ⟨hoptions', hselected', hparams', -⟩ := prepare_eq_ok hprepare'
  obtain ⟨htarget, halign, hsize, hdepth, -, -⟩ := PointerScanOptions.params_eq_ok hparams
  obtain ⟨htarget', halign', hsize', hdepth', hsmart', hpresets'⟩ :=
    PointerScanOptions.params_eq_ok hparams'
  refine ⟨hmap, ?_, ?_, ?_, ?_, ?_, hsmart'.trans hloose.smartScan, ?_, ?_⟩
  · rw [hselected, hselected', hareas]
  · rw [hoptions, hoptions', hwidth]
  · rw [← Option.some.injEq, ← htarget, ← htarget', hloose.target_eq]
  · rw [← Option.some.injEq, ← halign, ← halign', hloose.alignment_eq]
  · rw [← Option.some.injEq, ← hdepth, ← hdepth', hloose.maxDepth_eq]
  · intro depth
    rw [PointerScanParams.preset?, hpresets']
    cases hat : settings'.value.presets[depth]? with
    | none => rfl
    | some offset => exact hloose.presets offset (List.mem_of_getElem? hat)
  · exact hloose.maxObjSize_le _ hsize _ hsize'

/-- **Pruning only removes paths.**  Let two scans end well over the same memory, one of them with
all nodes counting, at any distance up to one that is not smaller than the other's.  That one finds
every path from the root to a node that the other finds, whatever the other prunes by. -/
theorem isPath_of_loosens (h : scan.Succeeds options settings areas pool read m image)
    (h' : scan'.Succeeds options' settings' areas' pool' read' m image)
    (hwidth : options'.value.width = options.value.width)
    (hareas : areas'.value.regions = areas.value.regions)
    (hloose : settings'.value.Loosens settings.value) {path : List (Address × Address)}
    (hpath : (scan.scan options settings areas pool read).2.1.tree.IsPath path) :
    (scan'.scan options' settings' areas' pool' read').2.1.tree.IsPath path := by
  obtain ⟨search, hprepare, hmap, hcomplete⟩ := h.exists_complete
  obtain ⟨search', hprepare', hmap', hcomplete'⟩ := h'.exists_complete
  have hl : search'.Loosens search :=
    loosens_of_prepare hprepare hprepare' (hmap'.trans hmap.symm) hwidth hareas hloose
  obtain ⟨n, way, hway, rfl⟩ := hpath
  obtain ⟨n', way', -, hway', hcontents⟩ := hl.exists_way hcomplete hcomplete' hway
  refine ⟨n', way', hway', ?_⟩
  rw [hcontents]

end PointerScan

/-- Two pointers to the second region, and before them one to the first of the two. -/
def Image.threePointers : Image := fun n =>
  if n = 0x1009 ∨ n = 0x1011 then 0x20 else if n = 0x1000 then 0x08 else if n = 0x1001 then 0x10
  else 0

/-- Settings that prune, by distance and by a preset for the first level. -/
def PointerScanOptions.pruning : PointerScanOptions :=
  { PointerScanOptions.twoRegions with presets := [none, some 0] }

/-- Settings that prune less. -/
def PointerScanOptions.wide : PointerScanOptions :=
  { PointerScanOptions.twoRegions with smartScan := false, maxObjSize := some 24 }

namespace PointerScan

/-- A scan of three pointers with one worker. -/
def threePointers (settings : PointerScanOptions) : Except Error Unit × PointerScan × Pool Bool :=
  ({} : PointerScan).scan { name := "options", value := .twoRegions }
    { name := "settings", value := settings } { name := "areas", value := Job.twoRegions.areas }
    .oneSession fun _ => Image.threePointers.reader

/-- The way from the place before the two pointers, over the nearer one. -/
def farPath : List (Address × Address) :=
  [(.ofNat 0x2000, .null), (.ofNat 0x1008, .ofNat 0x2000), (.ofNat 0x1000, .ofNat 0x1008)]

theorem succeeds_threePointers {settings : PointerScanOptions}
    (hok : (threePointers settings).1 = .ok ()) :
    ({} : PointerScan).Succeeds { name := "options", value := .twoRegions }
      { name := "settings", value := settings } { name := "areas", value := Job.twoRegions.areas }
      Pool.oneSession (fun _ => Image.threePointers.reader) .twoRegions .threePointers where
  map_eq := rfl
  built := MemoryMap.built_twoRegions
  history := ⟨.twoRegions, none, Job.admissible_twoRegions.given, .new [true] rfl⟩
  told := fun _ _ _ _ r _ => (Image.threePointers.serves_reader r.range).tells
  ok := hok

theorem isPath_of_loosens_threePointers :
    ((threePointers .pruning).1 = .ok () ∧ (threePointers .wide).1 = .ok () ∧
      PointerScanOptions.wide.Loosens .pruning ∧
      (threePointers .pruning).2.1.tree.IsPath farPath) ∧
    (threePointers .wide).2.1.tree.IsPath farPath := by
  have hok : (threePointers .pruning).1 = .ok () := by cbv
  have hok' : (threePointers .wide).1 = .ok () := by cbv
  have hloose : PointerScanOptions.wide.Loosens .pruning :=
    ⟨rfl, rfl, rfl, rfl, by simp [PointerScanOptions.wide, PointerScanOptions.twoRegions], by
      simp [PointerScanOptions.wide, PointerScanOptions.pruning, PointerScanOptions.twoRegions]⟩
  have hfar : (threePointers .pruning).2.1.tree.node? ⟨2, 0⟩ =
      some ⟨3, ⟨0⟩, .ofNat 0x1000, .ofNat 0x1008, some ⟨1, 0⟩, #[]⟩ := by cbv
  have hnear : (threePointers .pruning).2.1.tree.node? ⟨1, 0⟩ =
      some ⟨1, ⟨0⟩, .ofNat 0x1008, .ofNat 0x2000, some ⟨0, 0⟩, #[⟨2, 0⟩]⟩ := by cbv
  have hroot : (threePointers .pruning).2.1.tree.node? ⟨0, 0⟩ =
      some ⟨0, ⟨1⟩, .ofNat 0x2000, .null, none, #[⟨1, 0⟩, ⟨1, 1⟩]⟩ := by cbv
  have hpath : (threePointers .pruning).2.1.tree.IsPath farPath :=
    ⟨_, _, .up hfar rfl (.up hnear rfl (.root hroot rfl)), rfl⟩
  exact ⟨⟨hok, hok', hloose, hpath⟩,
    isPath_of_loosens (succeeds_threePointers hok) (succeeds_threePointers hok') rfl rfl hloose
      hpath⟩

/-- Without pruning the place leads over the other pointer, too. -/
example : (threePointers .pruning).2.1.tree.levels.map Array.size = #[1, 2, 1] ∧
    (threePointers .wide).2.1.tree.levels.map Array.size = #[1, 2, 2] := by
  cbv

end PointerScan

end PointerChains
