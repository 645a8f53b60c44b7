import PointerChains.Proofs.Scan.Turns

/-!
# Scans do not depend on the schedule

How many workers a pool has, which of them sweeps a region, in which order candidates are found, and
how wide the read windows are, does not show in the results.  A level can be collected exactly if
its settings are possible, its windows fit into memory and every selected region can be swept, which
is a matter of the answers to reads alone.  What is collected are the candidates that count, and in
order they are one list.

* `Search.Feasible` — a level can be collected; `Search.collect_of_ready`, `Search.exists_collect`;
* `Search.commit_eq` — two pools that collect a level make the same level of it;
* `Search.grow_of_ready` — a search that ends well with one pool ends well with the other, too;
* `PointerScan.scan_independent` — **scans with different pools agree, and so do those with
  different buffer sizes.**
-/

namespace PointerChains

variable {ρ σ : Type} {given : Selections} {image : Image} {answer : Reader} {read : ρ → Reader}
  {read' : σ → Reader}

theorem Pool.exists_checkSetup {pool after : Pool ρ} {o : Options} {areas : AreaSet}
    {visitor : Visitor} {alignment : Nat} {flags : SetupFlags}
    (h : pool.setup o areas visitor alignment flags = (.ok (), after)) :
    ∃ m, Pool.checkSetup o areas alignment = .ok m := by
  rw [Pool.setup] at h
  cases hcheck : Pool.checkSetup o areas alignment with
  | error cause => rw [hcheck] at h; cases h
  | ok m => exact ⟨m, rfl⟩

namespace Search

variable {s : Search} {t t' : Tree} {depth : Nat} {pool after : Pool ρ} {pool' after' : Pool σ}
  {level next next' : LevelBuilder} {size : Nat}

/-- A level can be collected: the settings are possible, the windows fit into memory, the regions
are in the map, and every one of them can be swept to its end. -/
structure Feasible (s : Search) (answer : Reader) : Prop where
  check : Pool.checkSetup s.options s.areas s.params.alignment = .ok s.map
  fits : s.options.bufferSize ≤ largestBuffer
  knows : s.map.Knows s.areas.regions
  completes : (s.job.plan []).Completes answer (s.map.areas s.areas.regions)

/-- The sweep of a selected region is the same for every session of the pool and every share. -/
theorem sweep_eq (hpool : pool.Ready given s.areas s.map read answer)
    (hfit : 2 * s.options.width.size ≤ s.options.bufferSize) {session : ρ}
    (hsession : session ∈ pool.sessions) {a : Area} (ha : a ∈ s.map.areas s.areas.regions)
    (others : List Area) :
    (s.job.plan others).sweep (read session) a {} = (s.job.plan []).sweep answer a {} := by
  obtain ⟨id, hid, r, hr, rfl⟩ := MemoryMap.mem_areas_iff.1 ha
  have hplan : s.job.plan others = { s.job.plan [] with areas := others } := rfl
  rw [hplan]
  exact Plan.sweep_congr (hpool.agrees session hsession id hid r hr) hfit others

/-- In every share each region can be swept, if each selected region can. -/
theorem Feasible.completes_share (hf : s.Feasible answer)
    (hpool : pool.Ready given s.areas s.map read answer)
    (hfit : 2 * s.options.width.size ≤ s.options.bufferSize) {shares : List (List RegionId)}
    (hperm : shares.flatten.Perm s.areas.regions) (w : ρ × List RegionId)
    (hw : w ∈ pool.sessions.zip shares) :
    (s.job.plan (s.map.areas w.2)).Completes (read w.1) (s.map.areas w.2) := by
  obtain ⟨hsession, hshare⟩ := List.of_mem_zip hw
  intro a ha
  have hselected : a ∈ s.map.areas s.areas.regions := by
    obtain ⟨id, hid, r, hr, rfl⟩ := MemoryMap.mem_areas_iff.1 ha
    have hmem := hperm.mem_iff.1 (List.mem_flatten.2 ⟨w.2, hshare, hid⟩)
    exact MemoryMap.mem_areas_iff.2 ⟨id, hmem, r, hr, rfl⟩
  rw [sweep_eq hpool hfit hsession hselected]
  exact hf.completes a hselected

/-- A level that was covered can be collected. -/
theorem feasible_of_covers (hpool : pool.Ready given s.areas s.map read answer)
    (hcheck : Pool.checkSetup s.options s.areas s.params.alignment = .ok s.map)
    (hfits : s.options.bufferSize ≤ largestBuffer)
    (hfit : 2 * s.options.width.size ≤ s.options.bufferSize) {pass : Pass}
    {shares : List (List RegionId)}
    (hcovers : pass.Covers read pool.sessions s.job s.map shares) : s.Feasible answer := by
  refine ⟨hcheck, hfits, hcovers.knows, ?_⟩
  intro a ha
  obtain ⟨id, hid, r, hr, rfl⟩ := MemoryMap.mem_areas_iff.1 ha
  obtain ⟨w, hw, b, hb, rfl⟩ := (hcovers.exists_area_iff fun b => b = r.area).2
    ⟨id, hid, r, hr, rfl⟩
  rw [← sweep_eq hpool hfit (List.of_mem_zip hw).1 ha (s.map.areas w.2)]
  exact hcovers.completes w hw r.area hb

/-- A pass over a level that can be collected ends with totals, and leaves the pool ready. -/
theorem Feasible.exists_pass (hf : s.Feasible answer)
    (hpool : pool.Ready given s.areas s.map read answer) (hrunning : pool.running = true)
    {shares : List (List RegionId)} (hruns : pool.RunsFor s.job s.map shares) :
    ∃ stats, (pool.runPass read).1.result = .ok stats ∧
      (pool.runPass read).2.Ready given s.areas s.map read answer := by
  obtain ⟨last, hhistory⟩ := hpool.history
  obtain ⟨stats, hpass⟩ := hruns.exists_pass hrunning hpool.clear hf.fits s.isQuiet_plan
    (hf.completes_share hpool hruns.fits hruns.perm)
  refine ⟨stats, congrArg (fun pass => pass.1.result) hpass, ⟨last, hhistory.pass read⟩, ?_, ?_, ?_⟩
  · rw [hpass]
    exact hpool.sessions_ne
  · rw [hpass]
  · rw [hpass]
    exact hpool.agrees

/-- A pool that is ready collects a level that can be collected. -/
theorem Feasible.exists_collect (hf : s.Feasible answer) (hs : s.Admissible given)
    (hpool : pool.Ready given s.areas s.map read answer) (level : LevelBuilder) :
    ∃ next after, s.collectLevel pool read level = (.ok next, after) := by
  obtain ⟨last, hhistory⟩ := hpool.history
  obtain ⟨ready, hsetup⟩ : ∃ ready, pool.setup s.job.options s.job.areas s.job.visitor
      s.job.alignment {} = (.ok (), ready) :=
    Pool.exists_setup hhistory.sound.fits hs.given hpool.sessions_ne hf.check hf.knows {}
  obtain ⟨hready, hrunning, shares, hruns⟩ := ready_of_setup hs hpool hsetup
  obtain ⟨stats, hok, -⟩ := hf.exists_pass hready hrunning hruns
  exact ⟨_, _, collectLevel_of_pass level hsetup hok⟩

/-- A level that a pool has collected can be collected.  The pool is ready again, and its pass has
covered the level. -/
theorem collect_of_ready (hs : s.Admissible given)
    (hpool : pool.Ready given s.areas s.map read answer)
    (hcollect : s.collectLevel pool read level = (.ok next, after)) :
    s.Feasible answer ∧ after.Ready given s.areas s.map read answer ∧
      ∃ (pass : Pass) (sessions : List ρ) (shares : List (List RegionId)),
        pass.Covers read sessions s.job s.map shares ∧
        (∀ session ∈ sessions, s.areas.Agrees s.map (read session) answer) ∧
        next = level.flush (pass.logs.flatMap (s.matcher level).collect) := by
  obtain ⟨ready, stats, hsetup, hok, rfl, rfl⟩ := collectLevel_eq_ok hcollect
  obtain ⟨hready, hrunning, shares, hruns⟩ := ready_of_setup hs hpool hsetup
  have hcovers := hruns.covers hs.job hok
  obtain ⟨m, hcheck⟩ := Pool.exists_checkSetup hsetup
  obtain ⟨hmap, -⟩ := Pool.checkSetup_eq_ok hcheck
  have hsame : s.options.map = some m := hmap
  rw [hs.map_eq, Option.some.injEq] at hsame
  subst hsame
  have hfits : s.options.bufferSize ≤ largestBuffer := hruns.bufferSize_le hready.sessions_ne hok
  have hf := feasible_of_covers hready hcheck hfits hruns.fits hcovers
  obtain ⟨stats, -, hafter⟩ := hf.exists_pass hready hrunning hruns
  exact ⟨hf, hafter, _, _, shares, hcovers, hready.agrees, rfl⟩

/-! ### One level -/

/-- The search with read windows of another size. -/
def withBuffer (s : Search) (size : Nat) : Search :=
  { s with options := { s.options with bufferSize := size } }

theorem Admissible.withBuffer (h : s.Admissible given) (size : Nat) :
    (s.withBuffer size).Admissible given :=
  ⟨h.map_eq, h.built, h.given⟩

/-- What counts at a level does not depend on the windows. -/
theorem admits_withBuffer (hlists : level.Lists t) (size : Nat) (c : Candidate) :
    (s.withBuffer size).Admits image t level.depth c ↔ s.Admits image t level.depth c := by
  have hstores : (s.withBuffer size).Stores image c ↔ s.Stores image c :=
    ⟨fun h => ⟨h.selected, h.inside, h.aligned, h.pointer_eq⟩,
      fun h => ⟨h.selected, h.inside, h.aligned, h.pointer_eq⟩⟩
  rw [admits_iff hlists, admits_iff hlists, hstores]
  rfl

/-- A collected level has just the candidates that count. -/
theorem mem_collected_of_ready (hs : s.Admissible given) (htold : s.areas.Told s.map answer image)
    (hpool : pool.Ready given s.areas s.map read answer) (hlists : level.Lists t)
    (hcollect : s.collectLevel pool read level = (.ok next, after)) :
    ∃ cs, next = level.flush cs ∧
      (cs.Pairwise fun c d => (c.own, c.parent) ≠ (d.own, d.parent)) ∧
      ∀ c, c ∈ cs ↔ s.Admits image t level.depth c := by
  obtain ⟨hf, -, pass, sessions, shares, hcovers, hagrees, rfl⟩ :=
    collect_of_ready hs hpool hcollect
  have hcheck : Pool.checkSetup s.job.options s.job.areas s.job.alignment = .ok s.map := hf.check
  obtain ⟨-, haligned, hfit, -⟩ := Pool.checkSetup_eq_ok hcheck
  have htold' : ∀ session ∈ sessions, s.areas.Told s.map (read session) image :=
    fun session hsession => htold.congr (hagrees session hsession)
  refine ⟨_, rfl, pairwise_collected hcovers hs.built hlists, ?_⟩
  intro c
  exact mem_collected_iff hcovers hs.built (pos_of_isPowerOfTwo haligned) hfit htold' hlists

/-- Two pools that collect a level, be it with windows of different sizes, make the same of it. -/
theorem commit_eq (hs : s.Admissible given) (htold : s.areas.Told s.map answer image)
    (hpool : pool.Ready given s.areas s.map read answer)
    (hpool' : pool'.Ready given s.areas s.map read' answer)
    (hbuilder : t.levelBuilder depth = .ok level)
    (hcollect : s.collectLevel pool read level = (.ok next, after))
    (hcollect' : (s.withBuffer size).collectLevel pool' read' level = (.ok next', after')) :
    t.commit next' = t.commit next := by
  obtain ⟨-, hpending, hlists⟩ := Tree.lists_of_levelBuilder hbuilder
  obtain ⟨cs, rfl, hpairs, hmem⟩ := mem_collected_of_ready hs htold hpool hlists hcollect
  obtain ⟨ds, rfl, hpairs', hmem'⟩ :=
    mem_collected_of_ready (hs.withBuffer size) htold hpool' hlists hcollect'
  have hperm : cs.Perm ds := by
    refine (List.perm_ext_iff_of_nodup (Candidate.nodup_of_pairwise hpairs)
      (Candidate.nodup_of_pairwise hpairs')).2 ?_
    intro c
    rw [hmem, hmem', admits_withBuffer hlists]
  refine Tree.commit_of_perm rfl rfl (hperm.append_left level.pending) ?_
  rw [LevelBuilder.flush, hpending]
  exact Candidate.distinct_of_pairwise hpairs

/-! ### All levels -/

/-- **A search that ends well with one pool ends well with another**, provided that levels can be
collected with its windows, too, and then the trees are the same. -/
theorem grow_of_ready (levels : Nat) (hs : s.Admissible given)
    (htold : s.areas.Told s.map answer image)
    (hpool : pool.Ready given s.areas s.map read answer)
    (hpool' : pool'.Ready given s.areas s.map read' answer)
    (hf : s.Feasible answer → (s.withBuffer size).Feasible answer)
    (hgrow : s.grow read t pool depth levels = (.ok t', after)) :
    ∃ after', (s.withBuffer size).grow read' t pool' depth levels = (.ok t', after') := by
  induction levels generalizing t pool pool' depth with
  | zero =>
    cases hgrow
    exact ⟨pool', rfl⟩
  | succ levels ih =>
    obtain ⟨level, hbuilder, hstep⟩ := grow_succ_eq_ok hgrow
    rw [Search.grow, hbuilder]
    simp only
    obtain ⟨hempty, rfl, -⟩ |
      ⟨next, ready, count, grown, emptied, hempty, hcollect, hcommit, hrest⟩ := hstep
    · rw [if_pos hempty]
      exact ⟨pool', rfl⟩
    · rw [if_neg (by simp [hempty])]
      obtain ⟨hfeasible, hready, -⟩ := collect_of_ready hs hpool hcollect
      obtain ⟨next', ready', hcollect'⟩ :=
        (hf hfeasible).exists_collect (hs.withBuffer size) hpool' level
      obtain ⟨-, hready', -⟩ := collect_of_ready (hs.withBuffer size) hpool' hcollect'
      have hsame := commit_eq hs htold hpool hpool' hbuilder hcollect hcollect'
      rw [hcommit] at hsame
      simp only [hcollect', hsame]
      exact ih hready hready' hrest

end Search

/-! ### Scans -/

namespace PointerScan

variable {scan scan' : PointerScan} {options options' : Guarded Options}
  {settings : Guarded PointerScanOptions} {areas : Guarded AreaSet} {m : MemoryMap}
  {pool : Pool ρ} {pool' : Pool σ} {search search' : Search}

/-- With options that differ in the buffer size only, the same search is prepared. -/
theorem eq_withBuffer_of_prepare (hprepare : prepare options settings areas = .ok search)
    (hprepare' : prepare options' settings areas = .ok search')
    (hsame : options'.value =
      { options.value with bufferSize := options'.value.bufferSize }) :
    search' = search.withBuffer options'.value.bufferSize := by
  obtain ⟨hoptions, hareas, hparams, hmap⟩ := prepare_eq_ok hprepare
  obtain ⟨hoptions', hareas', hparams', hmap'⟩ := prepare_eq_ok hprepare'
  have hmap' : options.value.map = some search'.map := by
    rw [hsame] at hmap'
    exact hmap'
  rw [hparams, Except.ok.injEq] at hparams'
  rw [hmap, Option.some.injEq] at hmap'
  obtain ⟨o, params, a, map⟩ := search
  obtain ⟨o', params', a', map'⟩ := search'
  simp only at hoptions hoptions' hareas hareas' hparams' hmap'
  rw [Search.withBuffer, Search.mk.injEq]
  refine ⟨?_, hparams'.symm, hareas'.trans hareas.symm, hmap'.symm⟩
  rw [hoptions', hoptions]
  exact hsame

/-- A scan that ends well with one pool ends well with another, provided that levels can be
collected with its windows, too, and then the results are the same. -/
theorem scan_of_ready {size : Nat} (hprepare : prepare options settings areas = .ok search)
    (hprepare' : prepare options' settings areas = .ok (search.withBuffer size))
    (hs : search.Admissible given) (htold : search.areas.Told search.map answer image)
    (hpool : pool.Ready given search.areas search.map read answer)
    (hpool' : pool'.Ready given search.areas search.map read' answer)
    (hf : search.Feasible answer → (search.withBuffer size).Feasible answer)
    (hok : (scan.scan options settings areas pool read).1 = .ok ()) :
    (scan'.scan options' settings areas pool' read').1 = .ok () ∧
      (scan'.scan options' settings areas pool' read').2.1 =
        (scan.scan options settings areas pool read).2.1 := by
  obtain ⟨search', root, tree, after, chains, hsearch, hroot, hgrow, hflatten, hscan⟩ :=
    scan_cases hok
  rw [hprepare, Except.ok.injEq] at hsearch
  subst hsearch
  obtain ⟨after', hgrow'⟩ := Search.grow_of_ready _ hs htold hpool hpool' hf hgrow
  have hroot' : (search.withBuffer size).rootTree = .ok root := hroot
  have hflatten' : tree.flatten (search.withBuffer size).map = .ok chains := hflatten
  have hscan' : scan'.scan options' settings areas pool' read' =
      (.ok (), { tree, chains, state := .flattened }, after') := by
    rw [PointerScan.scan, hprepare']
    simp only [hroot', hflatten', show (search.withBuffer size).params = search.params from rfl,
      hgrow']
  rw [hscan, hscan']
  exact ⟨rfl, rfl⟩

/-- With the same settings levels can be collected with both pools or with neither. -/
theorem scan_ok_of_ready (hmap : options.value.map = some m) (hm : m.Built)
    (hareas : areas.value.IsFrom given) (htold : areas.value.Told m answer image)
    (hpool : pool.Ready given areas.value m read answer)
    (hpool' : pool'.Ready given areas.value m read' answer)
    (hok : (scan.scan options settings areas pool read).1 = .ok ()) :
    (scan'.scan options settings areas pool' read').1 = .ok () ∧
      (scan'.scan options settings areas pool' read').2.1 =
        (scan.scan options settings areas pool read).2.1 := by
  obtain ⟨search, root, tree, after, chains, hprepare, -⟩ := scan_cases hok
  obtain ⟨hs, rfl, hareas'⟩ := admissible_of_prepare hmap hm hareas hprepare
  rw [← hareas'] at htold hpool hpool'
  have hprepare' : prepare options settings areas =
      .ok (search.withBuffer search.options.bufferSize) := hprepare
  exact scan_of_ready hprepare hprepare' hs htold hpool hpool' id hok

/-- **Scans do not depend on the schedule.**  With pools whose sessions answer reads in the selected
regions alike, and with the memory that is there or not at all, a scan ends well with both pools or
with neither, and has the same results.  Whichever worker has its turn first and in whatever order
batches of candidates are handed over, it can come to no others.  So have scans that end well with
options that differ in the buffer size only. -/
theorem scan_independent (hmap : options.value.map = some m) (hm : m.Built)
    (hareas : areas.value.IsFrom given) (htold : areas.value.Told m answer image)
    (hpool : pool.Ready given areas.value m read answer)
    (hpool' : pool'.Ready given areas.value m read' answer) :
    ((scan.scan options settings areas pool read).1 = .ok () ↔
      (scan'.scan options settings areas pool' read').1 = .ok ()) ∧
    ((scan.scan options settings areas pool read).1 = .ok () →
      (scan'.scan options settings areas pool' read').2.1 =
        (scan.scan options settings areas pool read).2.1) ∧
    (∀ results, CanYield options settings areas pool' read' results ↔
      (scan.scan options settings areas pool read).1 = .ok () ∧
        (scan.scan options settings areas pool read).2.1 = results) ∧
    ∀ options' : Guarded Options,
      options'.value = { options.value with bufferSize := options'.value.bufferSize } →
      (scan.scan options settings areas pool read).1 = .ok () →
      (scan'.scan options' settings areas pool' read').1 = .ok () →
      (scan'.scan options' settings areas pool' read').2.1 =
        (scan.scan options settings areas pool read).2.1 := by
  refine ⟨⟨fun hok => ?_, fun hok => ?_⟩, fun hok => ?_, fun results => ?_, ?_⟩
  · exact (scan_ok_of_ready hmap hm hareas htold hpool hpool' hok).1
  · exact (scan_ok_of_ready hmap hm hareas htold hpool' hpool hok).1
  · exact (scan_ok_of_ready hmap hm hareas htold hpool hpool' hok).2
  · rw [canYield_iff scan' hmap hm hareas hpool']
    constructor
    · intro h
      obtain ⟨hok', rfl⟩ := h
      exact scan_ok_of_ready hmap hm hareas htold hpool' hpool hok'
    · intro h
      obtain ⟨hok, rfl⟩ := h
      exact scan_ok_of_ready hmap hm hareas htold hpool hpool' hok
  · intro options' hsame hok hok'
    obtain ⟨search, root, tree, after, chains, hprepare, -⟩ := scan_cases hok
    obtain ⟨search', root', tree', after', chains', hprepare', -⟩ := scan_cases hok'
    obtain ⟨hs, rfl, hareas'⟩ := admissible_of_prepare hmap hm hareas hprepare
    obtain rfl := eq_withBuffer_of_prepare hprepare hprepare' hsame
    rw [← hareas'] at htold hpool hpool'
    by_cases hf : (search.withBuffer options'.value.bufferSize).Feasible answer
    · exact (scan_of_ready hprepare hprepare' hs htold hpool hpool' (fun _ => hf) hok).2
    · -- no level was collected with these windows, so that the other way needs none, either
      have hback : prepare options settings areas = .ok
          ((search.withBuffer options'.value.bufferSize).withBuffer search.options.bufferSize) :=
        hprepare
      exact (scan_of_ready hprepare' hback (hs.withBuffer _) htold hpool' hpool
        (fun h => absurd h hf) hok').2.symm

/-! ### One worker or two -/

/-- The scan of two regions with one worker, and windows of some size. -/
def oneWorker (bufferSize : Nat) : Except Error Unit × PointerScan × Pool Bool :=
  ({} : PointerScan).scan { name := "options", value := { Options.twoRegions with bufferSize } }
    { name := "settings", value := .twoRegions } { name := "areas", value := Job.twoRegions.areas }
    .oneSession fun _ => Image.onePointer.reader

theorem scan_independent_twoRegions :
    (MemoryMap.twoRegions.Built ∧ Job.twoRegions.areas.IsFrom .twoRegions ∧
      Job.twoRegions.areas.Told .twoRegions Image.onePointer.reader .onePointer ∧
      Pool.twoWorkers.Ready .twoRegions Job.twoRegions.areas .twoRegions
        (fun _ => Image.onePointer.reader) Image.onePointer.reader ∧
      Pool.oneSession.Ready .twoRegions Job.twoRegions.areas .twoRegions
        (fun _ => Image.onePointer.reader) Image.onePointer.reader) ∧
    (twoRegions.1 = .ok () ↔ (oneWorker 16).1 = .ok ()) ∧
    (twoRegions.1 = .ok () ∧ (oneWorker 16).2.1 = twoRegions.2.1) ∧
    (∀ results, CanYield { name := "options", value := .twoRegions }
        { name := "settings", value := .twoRegions }
        { name := "areas", value := Job.twoRegions.areas } .twoWorkers
        (fun _ => Image.onePointer.reader) results ↔
      (oneWorker 16).1 = .ok () ∧ (oneWorker 16).2.1 = results) ∧
    (oneWorker 24).1 = .ok () ∧ (oneWorker 24).2.1 = twoRegions.2.1 := by
  have htold : Job.twoRegions.areas.Told .twoRegions Image.onePointer.reader .onePointer :=
    fun _ _ r _ => (Image.onePointer.serves_reader r.range).tells
  have hagrees : Job.twoRegions.areas.Agrees .twoRegions Image.onePointer.reader
      Image.onePointer.reader := fun _ _ _ _ _ _ _ _ _ => rfl
  have hsessions : Pool.twoWorkers.sessions = [(), ()] := by cbv
  have htwo : Pool.twoWorkers.Ready .twoRegions Job.twoRegions.areas .twoRegions
      (fun _ => Image.onePointer.reader) Image.onePointer.reader :=
    ⟨⟨_, Pool.history_twoWorkers⟩, by simp [hsessions], by cbv, fun _ _ => hagrees⟩
  have hone : Pool.oneSession.Ready .twoRegions Job.twoRegions.areas .twoRegions
      (fun _ => Image.onePointer.reader) Image.onePointer.reader :=
    ⟨⟨_, .new [true] rfl⟩, by decide, rfl, fun _ _ => hagrees⟩
  have hok : twoRegions.1 = .ok () := by cbv
  have hwide : (oneWorker 24).1 = .ok () := by cbv
  have hall : (twoRegions.1 = .ok () ↔ (oneWorker 16).1 = .ok ()) ∧
      (twoRegions.1 = .ok () → (oneWorker 16).2.1 = twoRegions.2.1) ∧ _ ∧ _ :=
    scan_independent rfl MemoryMap.built_twoRegions Job.admissible_twoRegions.given htold htwo hone
  have hback : ((oneWorker 16).1 = .ok () ↔ twoRegions.1 = .ok ()) ∧
      ((oneWorker 16).1 = .ok () → twoRegions.2.1 = (oneWorker 16).2.1) ∧ _ ∧ _ :=
    scan_independent rfl MemoryMap.built_twoRegions Job.admissible_twoRegions.given htold hone htwo
  obtain ⟨hiff, hsame, -, hbuffer⟩ := hall
  exact ⟨⟨MemoryMap.built_twoRegions, rfl, htold, htwo, hone⟩, hiff, ⟨hok, hsame hok⟩,
    hback.2.2.1, hwide,
    hbuffer { name := "options", value := { Options.twoRegions with bufferSize := 24 } } rfl hok
      hwide⟩

end PointerScan

end PointerChains
