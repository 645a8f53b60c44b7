import PointerChains.Proofs.Pool.Failure
import PointerChains.Proofs.Scan.Placement

/-!
# Scans without faults of nodes

A tree refuses nodes that do not fit, levels that it does not have, and chains through nodes that
are in the wrong place.  A scan never meets such a refusal: it asks only for levels that its tree
has, since at least two are demanded, and only for nodes that fit.  Whatever else goes wrong has
another cause.

* `Error.NotOfNode` — causes other than a fault of a node;
* `PointerScanOptions.Accepted` — settings that were all accepted by their setters;
* `Search.failsOnly_rootTree`, `Search.failsOnly_collectLevel`, `Search.failsOnly_grow` — the parts
  of a scan;
* `PointerScan.scan_placed` — **no scan fails for a node, and all of its nodes fit.**
-/

namespace PointerChains

variable {ρ : Type} {cause : Error}

/-- The cause is no fault of a node. -/
def Error.NotOfNode : Error → Prop
  | .invalidNode _ => False
  | _ => True

theorem Error.IsOfSetup.notOfNode (h : cause.IsOfSetup) : cause.NotOfNode := by
  cases h with
  | missingOption | invalidOption | emptyAreaSet | noSessions | unknownRegion => trivial

theorem Reader.failsOnly_exactly (read : Reader) (a : Address) (length : Nat) :
    FailsOnly Error.NotOfNode (read.exactly a length) := by
  rw [exactly]
  split
  · exact failsOnly_error trivial
  · split
    · exact failsOnly_ok
    · exact failsOnly_error trivial

/-- A worker whose visitor never fails does not fail for a node. -/
theorem Plan.CanFail.notOfNode {p : Plan} {read : Reader} (h : p.CanFail read cause)
    (hvisitor : ∀ v first, p.visitor v ≠ .fail first) : cause.NotOfNode := by
  cases h with
  | read hread => exact read.failsOnly_exactly _ _ cause hread
  | visitor hreply => exact absurd hreply (hvisitor _ cause)
  | zeroAdvance | allocation | cancelled => trivial

theorem Pool.CanFail.notOfNode {pool : Pool ρ} {read : ρ → Reader} (h : pool.CanFail read cause)
    (hvisitors : ∀ plan ∈ pool.plans, ∀ v first, plan.visitor v ≠ .fail first) :
    cause.NotOfNode := by
  cases h with
  | @worker w _ hw hfails => exact hfails.notOfNode (hvisitors w.2 (List.of_mem_zip hw).2)
  | workerLost | notSetUp => trivial

/-! ### Settings -/

theorem Guarded.failsOnly_get {α : Type} (g : Guarded α) : FailsOnly Error.NotOfNode g.get := by
  rw [get]
  split
  · exact failsOnly_ok
  · exact failsOnly_error trivial

theorem failsOnly_require {α : Type} (setting : Setting) (value : Option α) :
    FailsOnly Error.NotOfNode (Options.require setting value) :=
  (Options.failsOnly_require setting value).mono fun _ h => h.notOfNode

/-- The settings were made from the defaults by their setters, none of which was refused. -/
inductive PointerScanOptions.Accepted : PointerScanOptions → Prop where
  | default : Accepted {}
  | target {o : PointerScanOptions} (a : Address) :
      Accepted o → Accepted { o with target := some a }
  | alignment {o o' : PointerScanOptions} {n : Nat} :
      Accepted o → o.setAlignment n = (.ok (), o') → Accepted o'
  | maxObjSize {o o' : PointerScanOptions} {size : UInt64} :
      Accepted o → o.setMaxObjSize size = (.ok (), o') → Accepted o'
  | maxDepth {o o' : PointerScanOptions} {depth : Nat} :
      Accepted o → o.setMaxDepth depth = (.ok (), o') → Accepted o'
  | smartScan {o : PointerScanOptions} (smart : Bool) :
      Accepted o → Accepted { o with smartScan := smart }
  | preset {o o' : PointerScanOptions} {depth : Nat} {offset : Option UInt64} :
      Accepted o → o.setPreset depth offset = (some (.ok ()), o') → Accepted o'
  | staticAreas {o : PointerScanOptions} (ids : Option (List RegionId)) :
      Accepted o → Accepted (o.setStaticAreas ids)

namespace PointerScanOptions

variable {o : PointerScanOptions}

/-- What a call leaves of valid settings is valid. -/
theorem Valid.of_change {o' : PointerScanOptions} {answer : Option (Except Error Unit)} {c : Change}
    (h : o.Valid) (hchange : o.change c = (answer, o')) : o'.Valid := by
  have hvalid := h.change c
  rw [hchange] at hvalid
  exact hvalid

/-- Settings that were accepted are valid. -/
theorem Accepted.valid (h : o.Accepted) : o.Valid := by
  induction h with
  | default => exact valid_default
  | target a _ ih => exact ih.change (.target a)
  | alignment _ hset ih => exact ih.of_change (c := .alignment _) (by rw [change, hset]; rfl)
  | maxObjSize _ hset ih => exact ih.of_change (c := .maxObjSize _) (by rw [change, hset]; rfl)
  | maxDepth _ hset ih => exact ih.of_change (c := .maxDepth _) (by rw [change, hset]; rfl)
  | smartScan smart _ ih => exact ih.change (.smartScan smart)
  | preset _ hset ih => exact ih.of_change (c := .preset _ _) hset
  | staticAreas ids _ ih => exact ih.change (.staticAreas ids)

end PointerScanOptions

/-! ### Searches -/

namespace Search

variable {s : Search} {t : Tree} {pool : Pool ρ} {read : ρ → Reader} {depth : Nat}

/-- The target is added to a tree that has a level for it. -/
theorem failsOnly_rootTree (hpos : 0 < s.params.maxDepth) :
    FailsOnly Error.NotOfNode s.rootTree := by
  rw [rootTree]
  cases s.map.findRegion? s.params.target with
  | none => exact failsOnly_error trivial
  | some region =>
    have hfault : (Tree.empty s.params.maxDepth).fault? none 0 = none := by
      refine Tree.fault?_eq_none_iff.2 ⟨?_, .inl ⟨rfl, rfl, ?_⟩⟩
      · show 0 < (Array.replicate s.params.maxDepth #[]).size
        rw [Array.size_replicate]
        exact hpos
      · exact Array.toList_inj.1 (List.map_eq_nil_iff.1 (Tree.row_empty s.params.maxDepth 0))
    obtain ⟨child, after, hadded⟩ := Tree.exists_addNode hfault region.id s.params.target .null
    simp only [hadded]
    exact failsOnly_ok

/-- The visitor of a search never fails, so a pass fails for other causes. -/
theorem failsOnly_collectLevel (s : Search) (pool : Pool ρ) (read : ρ → Reader)
    (level : LevelBuilder) : FailsOnly Error.NotOfNode (s.collectLevel pool read level).1 := by
  rw [collectLevel]
  simp only
  split
  · rename_i cause after hsetup
    have hrefused := pool.failsOnly_setup s.options s.areas (fun _ => .advance s.params.alignment)
      s.params.alignment {} (fun _ => none) cause
    rw [hsetup] at hrefused
    obtain hcause | ⟨source, rfl⟩ := hrefused rfl
    · exact failsOnly_error hcause.notOfNode
    · exact failsOnly_error trivial
  · rename_i ready hsetup
    refine ((ready.failsOnly_runPass read).mono fun cause hcause => ?_).map _
    obtain ⟨-, -, m, made, -, -, hplans⟩ := Pool.setup_eq_ok hsetup
    have hjob : Pool.plansFor s.job.options m s.job.visitor s.job.alignment
        ready.partition.shares = .ok ready.plans := hplans
    obtain ⟨hplans, -⟩ := Pool.plansFor_eq_ok hjob
    refine hcause.notOfNode ?_
    intro plan hplan v first hreply
    rw [hplans, List.mem_map] at hplan
    obtain ⟨share, -, rfl⟩ := hplan
    cases hreply

/-- A tree grows by levels that it has, each of which takes what is collected for it. -/
theorem failsOnly_grow (levels : Nat) (hm : s.map.Built) (hmap : s.options.map = some s.map)
    (hpos : 0 < depth) (hlevels : depth + levels ≤ t.depth) :
    FailsOnly Error.NotOfNode (s.grow read t pool depth levels).1 := by
  induction levels generalizing t pool depth with
  | zero => exact failsOnly_ok
  | succ levels ih =>
    rw [grow]
    obtain ⟨level, hbuilder⟩ : ∃ level, t.levelBuilder depth = .ok level := by
      rw [Tree.levelBuilder, if_neg (by omega)]
      exact ⟨_, rfl⟩
    rw [hbuilder]
    simp only
    split
    · exact failsOnly_ok
    cases hcollect : s.collectLevel pool read level with
    | mk result after =>
    cases result with
    | error cause =>
      refine failsOnly_error (s.failsOnly_collectLevel pool read level cause ?_)
      rw [hcollect]
    | ok next =>
      obtain ⟨-, count, grown, emptied, hcommit⟩ :=
        exists_commit_of_collectLevel hm hmap hbuilder hcollect
      have hdepth := (Tree.gains_of_commit hcommit).depth_eq
      simp only [hcommit]
      exact ih (Nat.succ_pos depth) (by omega)

end Search

/-! ### Scans -/

namespace PointerScan

variable {options : Guarded Options} {settings : Guarded PointerScanOptions}
  {areas : Guarded AreaSet} {read : ρ → Reader} {search : Search}

/-- Settings that are missing or in use are no fault of a node. -/
theorem failsOnly_prepare (options : Guarded Options) (settings : Guarded PointerScanOptions)
    (areas : Guarded AreaSet) : FailsOnly Error.NotOfNode (prepare options settings areas) := by
  rw [prepare]
  refine options.failsOnly_get.bind fun o _ => settings.failsOnly_get.bind fun ps _ =>
    areas.failsOnly_get.bind fun selected _ => ?_
  refine FailsOnly.bind ?_ fun params _ => FailsOnly.bind ?_ fun m _ => failsOnly_ok
  · rw [PointerScanOptions.params]
    refine (failsOnly_require .target _).bind fun target _ =>
      (failsOnly_require .alignment _).bind fun alignment _ =>
        (failsOnly_require .maxObjSize _).bind fun size _ => ?_
    exact (failsOnly_require .maxDepth _).bind fun depth _ => failsOnly_ok
  · exact failsOnly_require .map o.map

/-- What is prepared has the map of the options, and at least two levels. -/
theorem spec_of_prepare (hmap : ∀ m, options.value.map = some m → m.Built)
    (hsettings : settings.value.Accepted) (h : prepare options settings areas = .ok search) :
    search.map.Built ∧ search.options.map = some search.map ∧ 2 ≤ search.params.maxDepth := by
  obtain ⟨hoptions, -, hparams, hsome⟩ := prepare_eq_ok h
  obtain ⟨-, -, -, hdepth, -⟩ := PointerScanOptions.params_eq_ok hparams
  refine ⟨hmap search.map hsome, ?_, hsettings.valid.maxDepth _ hdepth⟩
  rw [hoptions]
  exact hsome

/-- A scan fails for other causes than nodes: its parts do, and the leaves of its tree have
chains. -/
theorem failsOnly_scan (scan : PointerScan) (areas : Guarded AreaSet) (pool : Pool ρ)
    (read : ρ → Reader) (hmap : ∀ m, options.value.map = some m → m.Built)
    (hsettings : settings.value.Accepted) :
    FailsOnly Error.NotOfNode (scan.scan options settings areas pool read).1 := by
  rw [PointerScan.scan]
  cases hprepare : prepare options settings areas with
  | error cause => exact failsOnly_error (failsOnly_prepare options settings areas cause hprepare)
  | ok search =>
    obtain ⟨hm, hsome, hdepth⟩ := spec_of_prepare hmap hsettings hprepare
    simp only
    cases hroot : search.rootTree with
    | error cause =>
      exact failsOnly_error (Search.failsOnly_rootTree (by omega) cause hroot)
    | ok root =>
      simp only
      obtain ⟨hlevels, -⟩ := Search.row_of_rootTree hroot
      cases hgrow : search.grow read root pool 1 (search.params.maxDepth - 1) with
      | mk result after =>
      cases result with
      | error cause =>
        have hgrown : FailsOnly Error.NotOfNode
            (search.grow read root pool 1 (search.params.maxDepth - 1)).1 :=
          Search.failsOnly_grow _ hm hsome Nat.one_pos (by omega)
        rw [hgrow] at hgrown
        exact failsOnly_error (hgrown cause rfl)
      | ok tree =>
        obtain ⟨hplaced, hrooted⟩ := Search.placed_of_search _ hm hsome hroot hgrow
        obtain ⟨chains, hchains⟩ := hplaced.exists_flatten hrooted
        simp only [hchains]
        exact failsOnly_ok

/-- **No scan fails for a node, and all of its nodes fit**: whatever was selected, whatever the pool
did before and whatever memory holds.  However far the tree was grown, what a pass collects for its
next level has parents one level up, and the tree takes it. -/
theorem scan_placed (scan : PointerScan) (options : Guarded Options)
    (settings : Guarded PointerScanOptions) (areas : Guarded AreaSet) (pool : Pool ρ)
    (read : ρ → Reader) (hmap : ∀ m, options.value.map = some m → m.Built)
    (hsettings : settings.value.Accepted) :
    (∀ fault, (scan.scan options settings areas pool read).1 ≠ .error (.invalidNode fault)) ∧
    ∀ search, prepare options settings areas = .ok search →
      ((scan.scan options settings areas pool read).1 = .ok () →
        (scan.scan options settings areas pool read).2.1.tree.Placed search.map
          search.params.maxObjSize) ∧
      ∀ root levels t after, search.rootTree = .ok root →
        search.grow read root pool 1 levels = (.ok t, after) →
        t.Placed search.map search.params.maxObjSize ∧
        ∀ depth level next ready, t.levelBuilder depth = .ok level →
          search.collectLevel after read level = (.ok next, ready) →
          (∀ c ∈ next.pending, c.parent.depth + 1 = depth ∧ (t.node? c.parent).isSome) ∧
            ∃ count grown emptied, t.commit next = (.ok count, grown, emptied) := by
  refine ⟨?_, fun search hprepare => ?_⟩
  · intro fault hfailed
    exact failsOnly_scan scan areas pool read hmap hsettings _ hfailed
  obtain ⟨hm, hsome, -⟩ := spec_of_prepare hmap hsettings hprepare
  refine ⟨fun hok => ?_, fun root levels t after hroot hgrow => ⟨?_, ?_⟩⟩
  · obtain ⟨search', root, tree, after, chains, hprepare', hroot, hgrow, -, hscan⟩ :=
      scan_cases hok
    rw [hprepare] at hprepare'
    cases hprepare'
    rw [hscan]
    exact (Search.placed_of_search _ hm hsome hroot hgrow).1
  · exact (Search.placed_of_search levels hm hsome hroot hgrow).1
  · intro depth level next ready hbuilder hcollect
    exact Search.exists_commit_of_collectLevel hm hsome hbuilder hcollect

end PointerScan

theorem PointerScanOptions.accepted_twoRegions : PointerScanOptions.twoRegions.Accepted := by
  have hdepth : Accepted { maxDepth := some 3 } :=
    .maxDepth .default (show setMaxDepth {} 3 = _ from rfl)
  have halignment : Accepted { alignment := some 8, maxDepth := some 3 } :=
    .alignment hdepth (show setAlignment _ 8 = _ from rfl)
  have hsize : Accepted { alignment := some 8, maxObjSize := some 16, maxDepth := some 3 } :=
    .maxObjSize halignment (show setMaxObjSize _ 16 = _ from rfl)
  exact .smartScan true (.target (.ofNat 0x2000) hsize)

namespace PointerScan

theorem scan_placed_twoRegions :
    (∀ m, Options.twoRegions.map = some m → m.Built) ∧
    PointerScanOptions.twoRegions.Accepted ∧ twoRegions.1 = .ok () ∧
    (∀ fault, twoRegions.1 ≠ .error (.invalidNode fault)) ∧
    twoRegions.2.1.tree.Placed .twoRegions 16 := by
  have hmap : ∀ m, Options.twoRegions.map = some m → m.Built := by
    intro m hm
    cases hm
    exact MemoryMap.built_twoRegions
  have hok : twoRegions.1 = .ok () := by cbv
  obtain ⟨hfaults, hsearch⟩ := scan_placed {} { name := "options", value := .twoRegions }
    { name := "settings", value := .twoRegions } { name := "areas", value := Job.twoRegions.areas }
    .twoWorkers (fun _ => Image.onePointer.reader) hmap PointerScanOptions.accepted_twoRegions
  exact ⟨hmap, PointerScanOptions.accepted_twoRegions, hok, hfaults, (hsearch _ rfl).1 hok⟩

/-- Settings that no setter accepts may leave no room for the target itself. -/
example :
    (({} : PointerScan).scan { name := "options", value := .twoRegions }
      { name := "settings", value := { PointerScanOptions.twoRegions with maxDepth := some 0 } }
      { name := "areas", value := Job.twoRegions.areas } Pool.twoWorkers
      fun _ => Image.onePointer.reader).1 = .error (.invalidNode (.depthOutside 0 0)) := by
  cbv

end PointerScan

end PointerChains
