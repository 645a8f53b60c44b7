import Mathlib
import PointerChains.Proofs.Address.Lookup
import PointerChains.Proofs.Options.Setters
import PointerChains.Proofs.Scan.Level
import PointerChains.Proofs.Tree.Commit

/-!
# The tree of a scan

A search adds one level after the other, each found from the level before.  Since adding a level
leaves the rows of the earlier ones as they are, every level that was right when it was made stays
so, and the levels behind one without nodes are rightly empty.

* `Search.Grown` — the tree of a search that has come to a certain depth;
* `Search.Grown.succ`, `Search.Grown.commit` — one level more, and that a pass makes it;
* `Search.Grown.grow` — all levels;
* `PointerScan.scan_cases` — what a scan that ends well consists of;
* `PointerScan.scan_levels` — **the levels of a scan hold the target, and then exactly what leads to
  the level before.**
-/

namespace PointerChains

variable {ρ : Type} {given : Selections} {image : Image} {read : ρ → Reader}

/-- The region that holds an address is found at its own reference. -/
theorem MemoryMap.Built.findRegion?_eq_some {m : MemoryMap} (h : m.Built) {a : Address}
    {r : Region} (hfind : m.findRegion? a = some r) :
    m.region? r.id = some r ∧ r.range.contains a := by
  rw [MemoryMap.findRegion?, AddressRange.find?, Option.bind_eq_some_iff] at hfind
  obtain ⟨n, hindex, hr⟩ := hfind
  have hregion : m.region? ⟨n⟩ = some r := hr
  obtain ⟨s, hs, hcontains⟩ := AddressRange.contains_of_findIdx? hindex
  cases hs.symm.trans hr
  exact ⟨by rw [h.region?_id hregion]; exact hr, hcontains⟩

namespace Search

variable {s : Search} {t t' : Tree} {depth : Nat} {pool after : Pool ρ}
  {level next emptied : LevelBuilder} {count : Nat}

/-- Level 0 holds just the target, in the region that contains it. -/
def IsRoot (s : Search) (t : Tree) : Prop :=
  ∃ root r, t.level 0 = #[root] ∧ root.own = s.params.target ∧ root.parent = none ∧
    s.map.region? root.region = some r ∧ r.range.contains s.params.target

/-- The map is the one of the options and was made from entries, and the selection is the one that
was made under its stamp. -/
structure Admissible (s : Search) (given : Selections) : Prop where
  map_eq : s.options.map = some s.map
  built : s.map.Built
  given : s.areas.IsFrom given

theorem Admissible.job (h : s.Admissible given) : s.job.Admissible given where
  built m hm := by
    have hsame : s.options.map = some m := hm
    rw [h.map_eq, Option.some.injEq] at hsame
    rw [← hsame]
    exact h.built
  given := h.given

/-- The pool was reached by operations, and what its sessions bring from the selected regions is the
image. -/
structure Serves (s : Search) (given : Selections) (read : ρ → Reader) (image : Image)
    (pool : Pool ρ) : Prop where
  history : ∃ last, Pool.History given pool last
  told : ∀ session ∈ pool.sessions, s.areas.Told s.map (read session) image

/-- The tree has its root and the levels up to a depth, and none from there on. -/
structure Grown (s : Search) (image : Image) (t : Tree) (depth : Nat) : Prop where
  depth_eq : t.depth = s.params.maxDepth
  root : s.IsRoot t
  levels : ∀ d, 1 ≤ d → d < depth → s.IsLevel image t d
  later : ∀ d, depth ≤ d → t.row d = []

/-! ### The root -/

theorem isRoot_of_row {region : Region} (pointer : Address)
    (hrow : t.row 0 = [⟨0, region.id, s.params.target, pointer, none, #[]⟩])
    (hregion : s.map.region? region.id = some region)
    (hinside : region.range.contains s.params.target) : s.IsRoot t := by
  obtain ⟨root, hlevel, hbare⟩ := List.map_eq_singleton_iff.1 hrow
  rw [Node.bare, Node.mk.injEq] at hbare
  obtain ⟨-, hroot, hown, -, hparent, -⟩ := hbare
  refine ⟨root, region, ?_, hown, hparent, by rw [hroot]; exact hregion, hinside⟩
  rw [← Array.toList_inj]
  exact hlevel

theorem IsRoot.congr (h : s.IsRoot t) (hrow : t'.row 0 = t.row 0) : s.IsRoot t' := by
  obtain ⟨root, r, hlevel, hown, hparent, hregion, hinside⟩ := h
  have hrow' : t'.row 0 = [root.bare] := by
    rw [hrow, Tree.row, hlevel]
    rfl
  obtain ⟨root', hlevel', hbare⟩ := List.map_eq_singleton_iff.1 hrow'
  rw [Node.bare, Node.bare, Node.mk.injEq] at hbare
  obtain ⟨-, hregion', hown', -, hparent', -⟩ := hbare
  refine ⟨root', r, ?_, hown'.trans hown, hparent'.trans hparent, ?_, hinside⟩
  · rw [← Array.toList_inj]
    exact hlevel'
  · rw [hregion']
    exact hregion

/-- A search starts with a node for the target, in the region that it is found in. -/
theorem rootTree_eq_ok (h : s.rootTree = .ok t) :
    ∃ region child, s.map.findRegion? s.params.target = some region ∧
      (Tree.empty s.params.maxDepth).addNode none region.id s.params.target .null 0 =
        (.ok child, t) := by
  rw [rootTree] at h
  cases hfind : s.map.findRegion? s.params.target with
  | none => rw [hfind] at h; cases h
  | some region =>
    rw [hfind] at h
    simp only at h
    split at h
    · cases h
    · rename_i child after hadd
      cases h
      exact ⟨region, child, rfl, hadd⟩

theorem row_of_rootTree (h : s.rootTree = .ok t) :
    t.depth = s.params.maxDepth ∧ (∀ d, 1 ≤ d → t.row d = []) ∧
      ∃ region, s.map.findRegion? s.params.target = some region ∧
        t.row 0 = [⟨0, region.id, s.params.target, .null, none, #[]⟩] := by
  obtain ⟨region, child, hfind, hadd⟩ := rootTree_eq_ok h
  obtain ⟨hdepth, -, hrow⟩ := (Tree.adds_of_addNode hadd).row
  refine ⟨hdepth.trans Array.size_replicate, ?_, region, hfind, ?_⟩
  · intro d hd
    rw [hrow d, if_neg (by omega), Tree.row_empty]
  · rw [hrow 0, if_pos rfl, Tree.row_empty]
    rfl

theorem Grown.of_rootTree (hs : s.map.Built) (h : s.rootTree = .ok t) : s.Grown image t 1 := by
  obtain ⟨hdepth, hlater, region, hfind, hrow⟩ := row_of_rootTree h
  obtain ⟨hregion, hinside⟩ := hs.findRegion?_eq_some hfind
  refine ⟨hdepth, isRoot_of_row .null hrow hregion hinside, ?_, hlater⟩
  intro d hpos hlt
  omega

/-! ### The levels -/

theorem Serves.setup {ready : Pool ρ} (h : s.Serves given read image pool)
    (hs : s.Admissible given) {flags : SetupFlags}
    (hsetup : pool.setup s.job.options s.job.areas s.job.visitor s.job.alignment flags =
      (.ok (), ready)) :
    Pool.History given ready (some s.job) ∧ s.Serves given read image ready := by
  obtain ⟨last, hhistory⟩ := h.history
  obtain ⟨-, hsessions, -⟩ := Pool.RunsFor.of_setup hhistory.sound.fits hs.job hsetup
  have hready : Pool.History given ready (some s.job) := .accepted hhistory hs.job hsetup
  refine ⟨hready, ⟨_, hready⟩, ?_⟩
  rw [hsessions]
  exact h.told

theorem Serves.pass (h : s.Serves given read image pool) {stats : Stats}
    (hok : (pool.runPass read).1.result = .ok stats) :
    s.Serves given read image (pool.runPass read).2 := by
  obtain ⟨last, hhistory⟩ := h.history
  refine ⟨⟨last, .pass read hhistory⟩, ?_⟩
  obtain ⟨-, heq⟩ | ⟨stats', cancel, -, -, -, heq⟩ | ⟨cause, herror, -, -⟩ :=
    pool.runPass_cases read
  · rw [heq]
    exact h.told
  · rw [heq]
    exact h.told
  · rw [hok] at herror
    cases herror

/-- A right level above a grown tree, the other rows of which stay, makes it grow by one level. -/
theorem Grown.succ (h : s.Grown image t depth) (hpos : 0 < depth) (hdepth : t'.depth = t.depth)
    (hother : ∀ d, d ≠ depth → t'.row d = t.row d) (hlevel : s.IsLevel image t' depth) :
    s.Grown image t' (depth + 1) where
  depth_eq := hdepth.trans h.depth_eq
  root := h.root.congr (hother 0 (Nat.ne_of_lt hpos))
  levels := by
    intro d hd hlt
    rcases Nat.lt_succ_iff_lt_or_eq.1 hlt with hlt | rfl
    · refine (h.levels d hd hlt).congr (hother d (Nat.ne_of_lt hlt)) ?_
      intro e he
      exact (hother e (by omega)).symm
    · exact hlevel
  later := by
    intro d hle
    rw [hother d (by omega)]
    exact h.later d (by omega)

/-- What a pool has the plans for is the map of the search. -/
theorem Admissible.eq_of_runsFor (h : s.Admissible given) {m : MemoryMap}
    {shares : List (List RegionId)} (hruns : pool.RunsFor s.job m shares) : s.map = m := by
  have hmap : s.options.map = some m := hruns.map_eq
  rw [h.map_eq, Option.some.injEq] at hmap
  exact hmap

/-- A level that is collected and committed is the next level of the tree. -/
theorem Grown.commit (h : s.Grown image t depth) (hs : s.Admissible given)
    (hpool : s.Serves given read image pool) (hbuilder : t.levelBuilder depth = .ok level)
    (hcollect : s.collectLevel pool read level = (.ok next, after))
    (hcommit : t.commit next = (.ok count, t', emptied)) :
    s.Grown image t' (depth + 1) ∧ s.Serves given read image after := by
  obtain ⟨hlevel, hpending, hlists⟩ := Tree.lists_of_levelBuilder hbuilder
  obtain ⟨ready, stats, hsetup, hok, rfl, rfl⟩ := collectLevel_eq_ok hcollect
  obtain ⟨hhistory, hready⟩ := hpool.setup hs hsetup
  obtain ⟨job, m, shares, hlast, -, hruns, hcovers⟩ := hhistory.covers hok
  cases hlast
  obtain rfl := hs.eq_of_runsFor hruns
  have hpos : 0 < s.params.alignment := pos_of_isPowerOfTwo hruns.aligned
  have hgains := Tree.gains_of_commit hcommit
  subst hlevel
  have hother : ∀ d, d ≠ level.depth → t'.row d = t.row d := by
    intro d hne
    rw [hgains.row_eq d]
    exact if_neg hne
  have hnew : t'.row level.depth =
      (((ready.runPass read).1.logs.flatMap (s.matcher level).collect).mergeSort
        Candidate.le).map Candidate.node := by
    rw [hgains.row_eq, LevelBuilder.flush, if_pos rfl, h.later level.depth (Nat.le_refl _),
      hpending, List.nil_append, List.nil_append]
  have hbefore : ∀ d, d + 1 = level.depth → t.row d = t'.row d := by
    intro d hd
    exact (hother d (by omega)).symm
  refine ⟨h.succ hlists.pos hgains.depth_eq hother ?_, hready.pass hok⟩
  exact isLevel_of_commit hcovers hs.built hpos hruns.fits hready.told hlists hnew hbefore

/-- Behind a level without nodes all levels are empty, and rightly so. -/
theorem Grown.exhausted (h : s.Grown image t depth) (hbuilder : t.levelBuilder depth = .ok level)
    (hempty : level.previous.isEmpty = true) (levels : Nat) :
    s.Grown image t (depth + levels) := by
  obtain ⟨hlevel, -, hlists⟩ := Tree.lists_of_levelBuilder hbuilder
  refine ⟨h.depth_eq, h.root, ?_, fun d hle => h.later d (by omega)⟩
  intro d hd _
  rcases Nat.lt_or_ge d depth with hlt | hge
  · exact h.levels d hd hlt
  · refine isLevel_of_empty (h.later d hge) ?_
    intro p hp
    rcases Nat.eq_or_lt_of_le hge with rfl | hlt
    · cases hown : t.own? p with
      | none => rfl
      | some x =>
        have hmem := (hlists.mem_iff (x, p)).2 ⟨hp.trans hlevel.symm, hown⟩
        rw [Array.isEmpty_iff] at hempty
        rw [hempty] at hmem
        cases hmem
    · rw [Tree.own?_eq, h.later p.depth (by omega)]
      rfl

/-- A search goes on with a level that was collected and committed, unless the one before has no
nodes. -/
theorem grow_succ_eq_ok {levels : Nat}
    (h : s.grow read t pool depth (levels + 1) = (.ok t', after)) :
    ∃ level, t.levelBuilder depth = .ok level ∧
      ((level.previous.isEmpty = true ∧ t' = t ∧ after = pool) ∨
        ∃ next ready count grown emptied, level.previous.isEmpty = false ∧
          s.collectLevel pool read level = (.ok next, ready) ∧
          t.commit next = (.ok count, grown, emptied) ∧
          s.grow read grown ready (depth + 1) levels = (.ok t', after)) := by
  rw [grow] at h
  cases hbuilder : t.levelBuilder depth with
  | error cause => rw [hbuilder] at h; cases h
  | ok level =>
    refine ⟨level, rfl, ?_⟩
    simp only [hbuilder] at h
    cases hempty : level.previous.isEmpty with
    | true =>
      rw [if_pos hempty] at h
      cases h
      exact .inl ⟨rfl, rfl, rfl⟩
    | false =>
      rw [if_neg (by simp [hempty])] at h
      split at h
      · cases h
      · rename_i next ready hcollect
        split at h
        · cases h
        · rename_i count grown emptied hcommit
          exact .inr ⟨next, ready, count, grown, emptied, rfl, hcollect, hcommit, h⟩

/-- **A search that ends well has found every level.** -/
theorem Grown.grow (levels : Nat) (h : s.Grown image t depth) (hs : s.Admissible given)
    (hpool : s.Serves given read image pool)
    (hgrow : s.grow read t pool depth levels = (.ok t', after)) :
    s.Grown image t' (depth + levels) := by
  induction levels generalizing t pool depth with
  | zero =>
    cases hgrow
    exact h
  | succ levels ih =>
    obtain ⟨level, hbuilder, hstep⟩ := grow_succ_eq_ok hgrow
    obtain ⟨hempty, rfl, -⟩ | ⟨next, ready, count, grown, emptied, -, hcollect, hcommit, hrest⟩ :=
      hstep
    · exact h.exhausted hbuilder hempty (levels + 1)
    · obtain ⟨hgrown, hready⟩ := h.commit hs hpool hbuilder hcollect hcommit
      have hdone := ih hgrown hready hrest
      rw [Nat.add_assoc, Nat.add_comm 1 levels] at hdone
      exact hdone

/-- What is grown is made by commits, which leave the rows of earlier levels as they are. -/
theorem exists_commits (levels : Nat)
    (h : s.grow read t pool depth levels = (.ok t', after)) :
    ∃ ops : List Tree.Operation, (∀ op ∈ ops, op.memory = .ample) ∧
      t' = ops.foldl Tree.perform t ∧ ∀ d, d < depth → t'.row d = t.row d := by
  induction levels generalizing t pool depth with
  | zero =>
    cases h
    exact ⟨[], by simp, rfl, fun d _ => rfl⟩
  | succ levels ih =>
    obtain ⟨level, hbuilder, hstep⟩ := grow_succ_eq_ok h
    obtain ⟨-, rfl, -⟩ | ⟨next, ready, count, grown, emptied, -, hcollect, hcommit, hrest⟩ := hstep
    · exact ⟨[], by simp, rfl, fun d _ => rfl⟩
    · obtain ⟨ops, hample, hops, hrows⟩ := ih hrest
      obtain ⟨collected, stats, -, -, -, hnext⟩ := collectLevel_eq_ok hcollect
      have hdepth : next.depth = depth := by
        rw [hnext]
        exact (Tree.lists_of_levelBuilder hbuilder).1
      refine ⟨.commit next :: ops, List.forall_mem_cons.2 ⟨rfl, hample⟩, ?_, ?_⟩
      · rw [hops, List.foldl_cons, Tree.perform, hcommit]
      · intro d hd
        rw [hrows d (by omega), (Tree.gains_of_commit hcommit).row_eq, if_neg (by omega)]

end Search

/-! ### Scans -/

theorem Guarded.get_eq_ok {α : Type} {g : Guarded α} {a : α} (h : g.get = .ok a) : g.value = a := by
  rw [Guarded.get] at h
  split at h
  · cases h
    rfl
  · cases h

namespace PointerScan

variable {scan : PointerScan} {options : Guarded Options} {settings : Guarded PointerScanOptions}
  {areas : Guarded AreaSet} {pool : Pool ρ} {search : Search}

theorem prepare_eq_ok (h : prepare options settings areas = .ok search) :
    search.options = options.value ∧ search.areas = areas.value ∧
      settings.value.params = .ok search.params ∧ options.value.map = some search.map := by
  rw [prepare] at h
  obtain ⟨o, hoptions, h⟩ := exists_of_bind_eq_ok h
  obtain ⟨ps, hsettings, h⟩ := exists_of_bind_eq_ok h
  obtain ⟨a, hareas, h⟩ := exists_of_bind_eq_ok h
  obtain ⟨params, hparams, h⟩ := exists_of_bind_eq_ok h
  obtain ⟨m, hmap, h⟩ := exists_of_bind_eq_ok h
  cases h
  rw [Guarded.get_eq_ok hoptions, Guarded.get_eq_ok hsettings, Guarded.get_eq_ok hareas]
  exact ⟨rfl, rfl, hparams, Options.getMap_eq_ok hmap⟩

/-- What is prepared from a built map and a selection made under its stamp is a search of them. -/
theorem admissible_of_prepare {m : MemoryMap} (hmap : options.value.map = some m) (hm : m.Built)
    (hareas : areas.value.IsFrom given) (h : prepare options settings areas = .ok search) :
    search.Admissible given ∧ search.map = m ∧ search.areas = areas.value := by
  obtain ⟨hoptions, hareas', -, hmap'⟩ := prepare_eq_ok h
  have hsame : search.map = m := by
    rw [hmap, Option.some.injEq] at hmap'
    exact hmap'.symm
  refine ⟨⟨?_, ?_, ?_⟩, hsame, hareas'⟩
  · rw [hoptions, hmap, hsame]
  · rw [hsame]
    exact hm
  · rw [hareas']
    exact hareas

/-- A scan that ends well has prepared a search, grown its tree and flattened it. -/
theorem scan_cases (h : (scan.scan options settings areas pool read).1 = .ok ()) :
    ∃ search root tree after chains, prepare options settings areas = .ok search ∧
      search.rootTree = .ok root ∧
      search.grow read root pool 1 (search.params.maxDepth - 1) = (.ok tree, after) ∧
      tree.flatten search.map = .ok chains ∧
      scan.scan options settings areas pool read =
        (.ok (), { tree, chains, state := .flattened }, after) := by
  rw [PointerScan.scan] at h ⊢
  cases hprepare : prepare options settings areas with
  | error cause => rw [hprepare] at h; cases h
  | ok search =>
    simp only [hprepare] at h ⊢
    cases hroot : search.rootTree with
    | error cause => rw [hroot] at h; cases h
    | ok root =>
      simp only [hroot] at h ⊢
      split at h
      · cases h
      · rename_i tree after hgrow
        cases hflatten : tree.flatten search.map with
        | error cause => rw [hflatten] at h; cases h
        | ok chains =>
          refine ⟨search, root, tree, after, chains, rfl, hroot, hgrow, hflatten, ?_⟩
          rfl

/-- The tree of a scan that ends well has grown to its full depth, and gave the chains. -/
theorem grown_of_told {m : MemoryMap} {last : Option Job} (hmap : options.value.map = some m)
    (hm : m.Built) (hareas : areas.value.IsFrom given) (hpool : Pool.History given pool last)
    (htold : ∀ session ∈ pool.sessions, areas.value.Told m (read session) image)
    (hok : (scan.scan options settings areas pool read).1 = .ok ()) :
    ∃ search, prepare options settings areas = .ok search ∧ search.map = m ∧
      search.Grown image (scan.scan options settings areas pool read).2.1.tree
        search.params.maxDepth ∧
      (scan.scan options settings areas pool read).2.1.tree.flatten m =
        .ok (scan.scan options settings areas pool read).2.1.chains := by
  obtain ⟨search, root, tree, after, chains, hprepare, hroot, hgrow, hflatten, hscan⟩ :=
    scan_cases hok
  obtain ⟨hsearch, hsame, hareas'⟩ := admissible_of_prepare hmap hm hareas hprepare
  have hserves : search.Serves given read image pool := by
    refine ⟨⟨last, hpool⟩, ?_⟩
    rw [hareas', hsame]
    exact htold
  have hstart : search.Grown image root 1 := .of_rootTree hsearch.built hroot
  have hgrown := hstart.grow _ hsearch hserves hgrow
  have hdepth : 1 + (search.params.maxDepth - 1) = search.params.maxDepth := by
    have hlevel : root.depth = search.params.maxDepth := hstart.depth_eq
    obtain ⟨node, r, hnode, -⟩ := hstart.root
    rcases Nat.eq_zero_or_pos search.params.maxDepth with hzero | hpos
    · rw [Tree.level_of_depth_le (by omega)] at hnode
      cases hnode
    · omega
  rw [hdepth] at hgrown
  rw [hsame] at hflatten
  refine ⟨search, hprepare, hsame, ?_⟩
  rw [hscan]
  exact ⟨hgrown, hflatten⟩

/-- So it has if all sessions serve the image. -/
theorem grown_of_scan {m : MemoryMap} {last : Option Job} (hmap : options.value.map = some m)
    (hm : m.Built) (hareas : areas.value.IsFrom given) (hpool : Pool.History given pool last)
    (hserved : ∀ session ∈ pool.sessions, areas.value.Served m (read session) image)
    (hok : (scan.scan options settings areas pool read).1 = .ok ()) :
    ∃ search, prepare options settings areas = .ok search ∧ search.map = m ∧
      search.Grown image (scan.scan options settings areas pool read).2.1.tree
        search.params.maxDepth ∧
      (scan.scan options settings areas pool read).2.1.tree.flatten m =
        .ok (scan.scan options settings areas pool read).2.1.chains :=
  grown_of_told hmap hm hareas hpool (fun session hsession => (hserved session hsession).told) hok

/-- **The levels of a scan hold the target, and then exactly what leads to the level before**: every
aligned place of the selected regions whose stored pointer is at or shortly before a node of the
level before, at the required distance if there is one, and nearest if only the nearest count. -/
theorem scan_levels {m : MemoryMap} {last : Option Job} (hmap : options.value.map = some m)
    (hm : m.Built) (hareas : areas.value.IsFrom given) (hpool : Pool.History given pool last)
    (hserved : ∀ session ∈ pool.sessions, areas.value.Served m (read session) image)
    (hok : (scan.scan options settings areas pool read).1 = .ok ()) :
    ∃ search, prepare options settings areas = .ok search ∧
      search.IsRoot (scan.scan options settings areas pool read).2.1.tree ∧
      ∀ depth, 1 ≤ depth → depth < search.params.maxDepth →
        search.IsLevel image (scan.scan options settings areas pool read).2.1.tree depth := by
  obtain ⟨search, hprepare, -, hgrown, -⟩ := grown_of_scan hmap hm hareas hpool hserved hok
  exact ⟨search, hprepare, hgrown.root, hgrown.levels⟩

end PointerScan

/-- Settings to search for pointers to the second region, on two levels below it. -/
def PointerScanOptions.twoRegions : PointerScanOptions :=
  { target := some (.ofNat 0x2000), alignment := some 8, maxObjSize := some 16,
    maxDepth := some 3, smartScan := true }

namespace PointerScan

/-- The scan of two regions with one pointer in them. -/
def twoRegions : Except Error Unit × PointerScan × Pool Unit :=
  ({} : PointerScan).scan { name := "options", value := .twoRegions }
    { name := "settings", value := .twoRegions } { name := "areas", value := Job.twoRegions.areas }
    .twoWorkers fun _ => Image.onePointer.reader

theorem scan_levels_twoRegions :
    (MemoryMap.twoRegions.Built ∧ Job.twoRegions.areas.IsFrom .twoRegions ∧
      Pool.History .twoRegions .twoWorkers (some Job.twoRegions) ∧
      (∀ session ∈ Pool.twoWorkers.sessions, Job.twoRegions.areas.Served .twoRegions
        ((fun _ => Image.onePointer.reader) session) .onePointer) ∧
      twoRegions.1 = .ok ()) ∧
    ∃ search, prepare { name := "options", value := .twoRegions }
        { name := "settings", value := .twoRegions }
        { name := "areas", value := Job.twoRegions.areas } = .ok search ∧
      search.IsRoot twoRegions.2.1.tree ∧
      ∀ depth, 1 ≤ depth → depth < search.params.maxDepth →
        search.IsLevel .onePointer twoRegions.2.1.tree depth := by
  have hserved : ∀ session ∈ Pool.twoWorkers.sessions, Job.twoRegions.areas.Served .twoRegions
      ((fun _ => Image.onePointer.reader) session) .onePointer := by
    intro session _ id _ r _
    exact Image.onePointer.serves_reader r.range
  have hok : twoRegions.1 = .ok () := by cbv
  exact ⟨⟨MemoryMap.built_twoRegions, rfl, Pool.history_twoWorkers, hserved, hok⟩,
    scan_levels rfl MemoryMap.built_twoRegions Job.admissible_twoRegions.given
      Pool.history_twoWorkers hserved hok⟩

/-- The one pointer is found on level 1, and nothing leads to it. -/
example : (List.range 3).map (fun depth => (twoRegions.2.1.tree.row depth).map Node.own) =
    [[.ofNat 0x2000], [.ofNat 0x1008], []] := by
  cbv

end PointerScan

end PointerChains
