import PointerChains.Proofs.Pool.Ready
import PointerChains.Proofs.Scan.Flushes
import PointerChains.Proofs.Scan.Search

/-!
# Scans whose workers take turns

Nobody chooses which worker of a pass has its turn first, nor how the batches of candidates follow
each other that the workers hand over.  In a pass that ends well every worker sweeps its share to
the end, and what it finds is the same in any turn; a commit does not see the order of what is
found.  So a scan has one result at most, the one that it has if the workers follow each other.

* `Pool.Ready` — a pool whose sessions answer alike in the selected regions;
* `Pool.Passes` — a pass that ends well, with the turns in some order;
* `Search.Collects`, `Search.Grows`, `PointerScan.CanYield` — all that a pass for a level, a search
  and a scan can come to;
* `Pool.Passes.runPass` — in any order a pass finds the same;
* `Search.Collects.commit_eq`, `Search.Grows.grow_eq` — a commit makes the same of it, and so does
  a search;
* `PointerScan.canYield_iff` — **a scan can come to one result only.**
-/

namespace PointerChains

variable {ρ : Type} {given : Selections} {answer : Reader} {read : ρ → Reader}

/-- The readers answer alike in the regions of the selection. -/
def AreaSet.Agrees (areas : AreaSet) (m : MemoryMap) (read answer : Reader) : Prop :=
  ∀ id ∈ areas.regions, ∀ r, m.region? id = some r → read.Agrees answer r.range

theorem AreaSet.Told.congr {areas : AreaSet} {m : MemoryMap} {read : Reader}
    (h : areas.Told m answer image) (hagrees : areas.Agrees m read answer) :
    areas.Told m read image :=
  fun id hid r hr => (h id hid r hr).congr (hagrees id hid r hr)

/-- The pool was reached by operations, has sessions, and is not to be cancelled.  In the selected
regions its sessions answer as one reader. -/
structure Pool.Ready (pool : Pool ρ) (given : Selections) (areas : AreaSet) (m : MemoryMap)
    (read : ρ → Reader) (answer : Reader) : Prop where
  history : ∃ last, Pool.History given pool last
  sessions_ne : pool.sessions ≠ []
  clear : pool.cancel.isSet = false
  agrees : ∀ session ∈ pool.sessions, areas.Agrees m (read session) answer

/-! ### Passes -/

namespace Pool

variable {pool after : Pool ρ} {turns : List ((ρ × Plan) × Nat)} {stats : Stats}

/-- A pass that ends well, in which the workers take their turns in some order. -/
structure Passes (pool : Pool ρ) (read : ρ → Reader) (turns : List ((ρ × Plan) × Nat))
    (after : Pool ρ) : Prop where
  running : pool.running = true
  length_eq : pool.plans.length = pool.crew.length
  perm : turns.Perm (pool.crew.zip pool.plans).zipIdx
  exists_outcome : ∃ stats, (pool.roundBy read turns).finalTally.outcome = .ok stats
  after_eq : after = { pool with cancel := ⟨(pool.roundBy read turns).cancelled⟩ }

/-- The workers can follow each other. -/
theorem passes_of_ok (h : (pool.runPass read).1.result = .ok stats) :
    pool.Passes read (pool.crew.zip pool.plans).zipIdx (pool.runPass read).2 ∧
      (pool.runPass read).1.logs =
        (pool.roundBy read (pool.crew.zip pool.plans).zipIdx).logs := by
  rw [runPass] at h ⊢
  split at h
  · cases h
  · rename_i hready
    rw [idle_iff, not_not] at hready
    rw [if_neg (by rw [idle_iff, not_not]; exact hready)]
    simp only at h ⊢
    split at h
    · rename_i stats' houtcome
      refine ⟨⟨hready.1, ?_, .refl _, ⟨stats', houtcome⟩, rfl⟩, rfl⟩
      rw [crew_eq_sessions hready.1]
      exact hready.2
    · cases h

theorem Passes.perm_workers (h : pool.Passes read turns after) :
    (turns.map Prod.fst).Perm (pool.crew.zip pool.plans) := by
  have hmap := h.perm.map Prod.fst
  rw [List.zipIdx_map_fst] at hmap
  exact hmap

/-- In any order the workers sweep their shares to the end. -/
theorem Passes.sweeps (h : pool.Passes read turns after)
    (hquiet : ∀ plan ∈ pool.plans, plan.IsQuiet) :
    ∀ w ∈ pool.crew.zip pool.plans,
      w.2.bufferSize ≤ largestBuffer ∧ w.2.IsQuiet ∧ w.2.Completes (read w.1) w.2.areas := by
  obtain ⟨stats, houtcome⟩ := h.exists_outcome
  obtain ⟨hall, -⟩ := roundBy_of_ok h.length_eq h.perm houtcome
  intro w hw
  obtain ⟨hfits, hcompletes⟩ := hall w (h.perm_workers.mem_iff.2 hw)
  exact ⟨hfits, hquiet w.2 (List.of_mem_zip hw).2, hcompletes⟩

/-- Workers that do not cancel the pass find the same in any order. -/
theorem Passes.runPass (h : pool.Passes read turns after) (hclear : pool.cancel.isSet = false)
    (hquiet : ∀ plan ∈ pool.plans, plan.IsQuiet) :
    after = { pool with cancel := {} } ∧
      ∃ stats, pool.runPass read = (⟨.ok stats, (pool.sweepRound read).logs⟩, after) ∧
        (pool.roundBy read turns).logs.Perm (pool.sweepRound read).logs := by
  have hsweeps := h.sweeps hquiet
  have hafter : after = { pool with cancel := {} } := by
    have hcalm := calm_roundBy hclear fun w hw => hsweeps w (h.perm_workers.mem_iff.1 hw)
    rw [h.after_eq, hcalm.cancelled_eq]
  have hlogs : (pool.roundBy read turns).logs.Perm (pool.sweepRound read).logs := by
    obtain ⟨stats, houtcome⟩ := h.exists_outcome
    rw [(roundBy_of_ok h.length_eq h.perm houtcome).2.1,
      logs_sweepRound hclear h.length_eq hsweeps]
    exact h.perm_workers.map _
  have hcrew := crew_eq_sessions h.running
  have hlength := h.length_eq
  rw [hcrew] at hlength hsweeps
  obtain ⟨stats, hpass⟩ := runPass_of_completes h.running hlength hclear hsweeps
  rw [← hafter] at hpass
  exact ⟨hafter, stats, hpass, hlogs⟩

end Pool

/-! ### Levels -/

/-- Each worker hands over one batch, one after the other. -/
theorem LevelBuilder.flushed_each {b : LevelBuilder} (batches : List (List Candidate))
    {before : List (List (List Candidate))} (hbefore : ∀ worker ∈ before, worker = []) :
    b.Flushed (before ++ batches.map fun batch => [batch]) (b.flush batches.flatten) := by
  induction batches generalizing b before with
  | nil =>
    have hsame : b.flush [] = b := by
      rw [flush, List.append_nil]
    rw [List.map_nil, List.append_nil, List.flatten_nil, hsame]
    exact .done hbefore
  | cons batch rest ih =>
    have hflush : b.flush (batch :: rest).flatten = (b.flush batch).flush rest.flatten := by
      simp only [flush, List.flatten_cons, List.append_assoc]
    have hidle : ∀ worker ∈ before ++ [[]], worker = [] :=
      List.forall_mem_append.2 ⟨hbefore, List.forall_mem_singleton.2 rfl⟩
    rw [hflush]
    apply Flushed.turn
    rw [List.append_cons]
    exact ih hidle

namespace Search

variable {s : Search} {image : Image} {t t' : Tree} {depth : Nat} {pool after : Pool ρ}
  {level next : LevelBuilder}

/-- All that a pass for a level can come to if it ends well: the workers take their turns in some
order, and hand over what they find in batches, each its own in order, and one at a time. -/
inductive Collects (s : Search) (read : ρ → Reader) (pool : Pool ρ) (level : LevelBuilder) :
    LevelBuilder → Pool ρ → Prop
  | pass {ready after : Pool ρ} {turns : List ((ρ × Plan) × Nat)}
      {workers : List (List (List Candidate))} {next : LevelBuilder}
      (hsetup : pool.setup s.job.options s.job.areas s.job.visitor s.job.alignment {} =
        (.ok (), ready))
      (hpasses : ready.Passes read turns after)
      (hbatches : workers.map List.flatten =
        (ready.roundBy read turns).logs.map (s.matcher level).collect)
      (hflushed : level.Flushed workers next) : Collects s read pool level next after

/-- All that a search can come to if it ends well. -/
inductive Grows (s : Search) (read : ρ → Reader) :
    Tree → Pool ρ → (depth levels : Nat) → Tree → Pool ρ → Prop
  | done {t : Tree} {pool : Pool ρ} {depth : Nat} : Grows s read t pool depth 0 t pool
  | exhausted {t : Tree} {pool : Pool ρ} {depth levels : Nat} {level : LevelBuilder}
      (hbuilder : t.levelBuilder depth = .ok level) (hempty : level.previous.isEmpty = true) :
      Grows s read t pool depth (levels + 1) t pool
  | level {t grown t' : Tree} {pool ready after : Pool ρ} {depth levels count : Nat}
      {level next emptied : LevelBuilder} (hbuilder : t.levelBuilder depth = .ok level)
      (hempty : level.previous.isEmpty = false) (hcollects : s.Collects read pool level next ready)
      (hcommit : t.commit next = (.ok count, grown, emptied))
      (hgrows : Grows s read grown ready (depth + 1) levels t' after) :
      Grows s read t pool depth (levels + 1) t' after

/-- The visitor of a search never cancels the pass. -/
theorem isQuiet_plan (s : Search) (areas : List Area) : (s.job.plan areas).IsQuiet := by
  intro v count cancel h
  cases h
  rfl

/-- A set-up leaves a pool that is ready, and runs for the search. -/
theorem ready_of_setup (hs : s.Admissible given)
    (hpool : pool.Ready given s.areas s.map read answer)
    (hsetup : pool.setup s.job.options s.job.areas s.job.visitor s.job.alignment {} =
      (.ok (), after)) :
    after.Ready given s.areas s.map read answer ∧ after.running = true ∧
      ∃ shares, after.RunsFor s.job s.map shares := by
  obtain ⟨last, hhistory⟩ := hpool.history
  obtain ⟨-, hsessions, hrunning, m, hruns⟩ :=
    Pool.RunsFor.of_setup hhistory.sound.fits hs.job hsetup
  obtain rfl := hs.eq_of_runsFor hruns
  have hcancel := pool.cancel_setup s.job.options s.job.areas s.job.visitor s.job.alignment {}
    fun _ => none
  rw [hsetup] at hcancel
  refine ⟨⟨⟨_, .accepted hhistory hs.job hsetup⟩, ?_, ?_, ?_⟩, hrunning, _, hruns⟩
  · rw [hsessions]
    exact hpool.sessions_ne
  · exact (congrArg Token.isSet hcancel).trans hpool.clear
  · rw [hsessions]
    exact hpool.agrees

/-- The workers can follow each other, and hand over all that they find at once. -/
theorem collects_of_collectLevel (h : s.collectLevel pool read level = (.ok next, after)) :
    s.Collects read pool level next after := by
  obtain ⟨ready, stats, hsetup, hok, rfl, rfl⟩ := collectLevel_eq_ok h
  obtain ⟨hpasses, hlogs⟩ := Pool.passes_of_ok hok
  rw [hlogs, List.flatMap_def]
  refine .pass hsetup hpasses ?_ (LevelBuilder.flushed_each _ (List.forall_mem_nil _))
  simp

/-- Whichever worker has its turn first, and however batches follow each other, a commit makes the
same of the level. -/
theorem Collects.commit_eq (h : s.Collects read pool level next after) (hs : s.Admissible given)
    (hpool : pool.Ready given s.areas s.map read answer)
    (hbuilder : t.levelBuilder depth = .ok level) :
    after.Ready given s.areas s.map read answer ∧
      ∃ collected, s.collectLevel pool read level = (.ok collected, after) ∧
        t.commit collected = t.commit next := by
  obtain ⟨hsetup, hpasses, hbatches, hflushed⟩ := h
  rename_i ready turns workers
  obtain ⟨hready, -, shares, hruns⟩ := ready_of_setup hs hpool hsetup
  have hquiet : ∀ plan ∈ ready.plans, plan.IsQuiet := by
    intro plan hplan
    rw [hruns.plans_eq] at hplan
    obtain ⟨share, -, rfl⟩ := List.mem_map.1 hplan
    exact s.isQuiet_plan _
  obtain ⟨hafter, stats, hpass, hlogs⟩ := hpasses.runPass hready.clear hquiet
  have hok : (ready.runPass read).1.result = .ok stats := congrArg (fun pass => pass.1.result) hpass
  have hcollect := collectLevel_of_pass level hsetup hok
  have hcovers := hruns.covers hs.job hok
  obtain ⟨-, hpending, hlists⟩ := Tree.lists_of_levelBuilder hbuilder
  rw [hpass] at hcollect hcovers
  refine ⟨?_, _, hcollect, ?_⟩
  · obtain ⟨last, hhistory⟩ := hready.history
    have hpassed := hhistory.pass read
    rw [hpass] at hpassed
    refine ⟨⟨last, hpassed⟩, ?_, ?_, ?_⟩
    · rw [hafter]
      exact hready.sessions_ne
    · rw [hafter]
    · rw [hafter]
      exact hready.agrees
  have hfound : (workers.map List.flatten).Perm
      ((ready.sweepRound read).logs.map (s.matcher level).collect) := by
    rw [hbatches]
    exact hlogs.map _
  exact (commit_of_flushed hcovers hs.built hlists hpending hfound hflushed t).symm

/-! ### Searches -/

/-- What a search comes to if the workers follow each other is one of the things. -/
theorem grows_of_grow (levels : Nat) (h : s.grow read t pool depth levels = (.ok t', after)) :
    s.Grows read t pool depth levels t' after := by
  induction levels generalizing t pool depth with
  | zero =>
    cases h
    exact .done
  | succ levels ih =>
    obtain ⟨level, hbuilder, hstep⟩ := grow_succ_eq_ok h
    obtain ⟨hempty, rfl, rfl⟩ |
      ⟨next, ready, count, grown, emptied, hempty, hcollect, hcommit, hrest⟩ := hstep
    · exact .exhausted hbuilder hempty
    · exact .level hbuilder hempty (collects_of_collectLevel hcollect) hcommit (ih hrest)

/-- A search can come to one tree only. -/
theorem Grows.grow_eq {levels : Nat} (h : s.Grows read t pool depth levels t' after)
    (hs : s.Admissible given) (hpool : pool.Ready given s.areas s.map read answer) :
    s.grow read t pool depth levels = (.ok t', after) := by
  induction h with
  | done => rfl
  | exhausted hbuilder hempty => rw [grow, hbuilder]; simp only [hempty, if_true]
  | level hbuilder hempty hcollects hcommit hgrows ih =>
    obtain ⟨hready, collected, hcollect, hsame⟩ := hcollects.commit_eq hs hpool hbuilder
    rw [hcommit] at hsame
    rw [grow, hbuilder]
    simp only [hempty, Bool.false_eq_true, if_false, hcollect, hsame]
    exact ih hready

end Search

/-! ### Scans -/

namespace PointerScan

variable {results : PointerScan} {options : Guarded Options}
  {settings : Guarded PointerScanOptions} {areas : Guarded AreaSet} {m : MemoryMap} {pool : Pool ρ}

/-- The results that a scan can come to if it ends well. -/
def CanYield (options : Guarded Options) (settings : Guarded PointerScanOptions)
    (areas : Guarded AreaSet) (pool : Pool ρ) (read : ρ → Reader) (results : PointerScan) : Prop :=
  ∃ search root tree after chains, prepare options settings areas = .ok search ∧
    search.rootTree = .ok root ∧
    search.Grows read root pool 1 (search.params.maxDepth - 1) tree after ∧
    tree.flatten search.map = .ok chains ∧ results = { tree, chains, state := .flattened }

/-- **A scan can come to one result only**, if it can end well at all: the one that it has if the
workers follow each other. -/
theorem canYield_iff (scan : PointerScan) (hmap : options.value.map = some m) (hm : m.Built)
    (hareas : areas.value.IsFrom given) (hpool : pool.Ready given areas.value m read answer) :
    CanYield options settings areas pool read results ↔
      (scan.scan options settings areas pool read).1 = .ok () ∧
        (scan.scan options settings areas pool read).2.1 = results := by
  constructor
  · intro h
    obtain ⟨search, root, tree, after, chains, hprepare, hroot, hgrows, hflatten, rfl⟩ := h
    obtain ⟨hs, rfl, hareas'⟩ := admissible_of_prepare hmap hm hareas hprepare
    rw [← hareas'] at hpool
    have hgrow := hgrows.grow_eq hs hpool
    rw [PointerScan.scan, hprepare]
    simp only [hroot, hgrow, hflatten, and_self]
  · intro h
    obtain ⟨hok, rfl⟩ := h
    obtain ⟨search, root, tree, after, chains, hprepare, hroot, hgrow, hflatten, hscan⟩ :=
      scan_cases hok
    rw [hscan]
    exact ⟨search, root, tree, after, chains, hprepare, hroot, Search.grows_of_grow _ hgrow,
      hflatten, rfl⟩

end PointerScan

end PointerChains
