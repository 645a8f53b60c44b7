import PointerChains.Proofs.Pool.Crew
import PointerChains.Proofs.Pool.Partition
import PointerChains.Proofs.Pool.Refusals

/-!
# What a set-up leaves

A set-up that is accepted gives each session to a worker, with the plan for its share of the job.
One that is refused may have taken the workers down or dealt the regions out again, but a pool that
still runs has the plans of before.  It has all of its sessions, too, unless a worker could not be
started.

* `Job` — what a pool is set up to do, and `Job.plan` — the same for one worker;
* `Pool.RunsFor` — the workers together have the plans for a job;
* `Pool.RunsFor.of_setup`, `Pool.setup_refused` — the two outcomes of a set-up.
-/

namespace PointerChains

variable {ρ : Type} {m : MemoryMap} {given : Selections}

/-- What a pool is set up to do. -/
structure Job where
  options : Options
  areas : AreaSet
  visitor : Visitor
  alignment : Nat

/-- What a worker does for a job with the regions of its share. -/
def Job.plan (job : Job) (areas : List Area) : Plan :=
  { areas, visitor := job.visitor, alignment := job.alignment, width := job.options.width,
    bufferSize := job.options.bufferSize }

/-- The map was made from entries, and the selection is the one that was made under its stamp. -/
structure Job.Admissible (job : Job) (given : Selections) : Prop where
  built : ∀ m, job.options.map = some m → m.Built
  given : job.areas.IsFrom given

theorem Job.Admissible.nodup_regions {job : Job} (h : job.Admissible given) :
    job.areas.regions.Nodup := by
  rw [h.given]
  exact given.nodup_regions _

/-- A region, as it is swept. -/
def Region.area (r : Region) : Area := ⟨r.id, r.range⟩

/-- The regions of a map with the given references. -/
def MemoryMap.areas (m : MemoryMap) (ids : List RegionId) : List Area :=
  ids.filterMap fun id => (m.region? id).map Region.area

theorem MemoryMap.areas_flatten (m : MemoryMap) (shares : List (List RegionId)) :
    m.areas shares.flatten = shares.flatMap m.areas := by
  rw [areas, List.filterMap_flatten, List.flatMap_def]
  rfl

theorem Options.require_eq_ok {α : Type} {setting : Setting} {value : Option α} {a : α}
    (h : require setting value = .ok a) : value = some a := by
  cases value with
  | none => cases h
  | some b =>
    cases h
    rfl

theorem Options.getMap_eq_ok {o : Options} {m : MemoryMap} (h : o.getMap = .ok m) :
    o.map = some m :=
  require_eq_ok h

namespace Pool

/-- The workers have the plans for a job: their shares hold its regions, and each has the plan for
its share. -/
structure RunsFor (pool : Pool ρ) (job : Job) (m : MemoryMap) (shares : List (List RegionId)) :
    Prop where
  map_eq : job.options.map = some m
  aligned : isPowerOfTwo job.alignment
  fits : 2 * job.options.width.size ≤ job.options.bufferSize
  knows : m.Knows job.areas.regions
  perm : shares.flatten.Perm job.areas.regions
  length_eq : shares.length = pool.sessions.length
  plans_eq : pool.plans = shares.map fun share => job.plan (m.areas share)

/-- There is a plan for each session. -/
theorem RunsFor.length_plans {pool : Pool ρ} {job : Job} {shares : List (List RegionId)}
    (h : pool.RunsFor job m shares) : pool.plans.length = pool.sessions.length := by
  rw [h.plans_eq, List.length_map, h.length_eq]

/-! ### Checks and plans -/

theorem checkSetup_eq_ok {job : Job}
    (h : checkSetup job.options job.areas job.alignment = .ok m) :
    job.options.map = some m ∧ isPowerOfTwo job.alignment ∧
      2 * job.options.width.size ≤ job.options.bufferSize ∧ job.areas.regions ≠ [] := by
  rw [checkSetup] at h
  cases halign : isPowerOfTwo job.alignment with
  | false => rw [halign] at h; cases h
  | true =>
    rw [halign] at h
    obtain ⟨-, -, h⟩ := exists_of_bind_eq_ok h
    obtain ⟨m', hmap, h⟩ := exists_of_bind_eq_ok h
    cases hfits : job.options.width.fitsTwice job.options.bufferSize with
    | false => rw [hfits] at h; cases h
    | true =>
      rw [hfits] at h
      cases hempty : job.areas.isEmpty with
      | true => rw [hempty] at h; cases h
      | false =>
        rw [hempty] at h
        cases h
        rw [AreaSet.isEmpty, List.isEmpty_eq_false_iff] at hempty
        exact ⟨Options.getMap_eq_ok hmap, rfl, of_decide_eq_true hfits, hempty⟩

theorem areasOf_eq_ok {ids : List RegionId} {areas : List Area} (h : areasOf m ids = .ok areas) :
    areas = m.areas ids ∧ m.Knows ids := by
  induction ids generalizing areas with
  | nil =>
    cases h
    refine ⟨rfl, ?_⟩
    intro id hid
    cases hid
  | cons id ids ih =>
    rw [areasOf] at h
    cases hregion : m.region? id with
    | none => rw [hregion] at h; cases h
    | some r =>
      rw [hregion] at h
      obtain ⟨rest, hrest, hareas⟩ := exists_of_bind_eq_ok h
      cases hareas
      obtain ⟨rfl, hknows⟩ := ih hrest
      refine ⟨?_, List.forall_mem_cons.2 ⟨⟨r, hregion⟩, hknows⟩⟩
      rw [MemoryMap.areas, MemoryMap.areas, List.filterMap_cons, hregion]
      rfl

theorem plansFor_eq_ok {job : Job} {shares : List (List RegionId)} {plans : List Plan}
    (h : plansFor job.options m job.visitor job.alignment shares = .ok plans) :
    plans = (shares.map fun share => job.plan (m.areas share)) ∧ m.Knows shares.flatten := by
  induction shares generalizing plans with
  | nil =>
    cases h
    refine ⟨rfl, ?_⟩
    intro id hid
    cases hid
  | cons share shares ih =>
    rw [plansFor] at h
    obtain ⟨areas, hareas, hplans⟩ := exists_of_bind_eq_ok h
    obtain ⟨rest, hrest, hplans⟩ := exists_of_bind_eq_ok hplans
    cases hplans
    obtain ⟨rfl, hknows⟩ := areasOf_eq_ok hareas
    obtain ⟨rfl, hknows'⟩ := ih hrest
    refine ⟨rfl, ?_⟩
    rw [List.flatten_cons]
    exact List.forall_mem_append.2 ⟨hknows, hknows'⟩

/-! ### Outcomes -/

variable {pool after : Pool ρ} {o : Options} {areas : AreaSet} {visitor : Visitor}
  {alignment : Nat} {flags : SetupFlags} {faults : StartFaults}

theorem cancel_respawn (pool : Pool ρ) (respawn : Bool) :
    (if respawn then pool.shutdown else pool).cancel = pool.cancel := by
  cases respawn with
  | false => rfl
  | true => exact cancel_shutdown pool

/-- Taking the workers down first keeps the sessions and the partition. -/
theorem keeps_respawn (pool : Pool ρ) (respawn : Bool) :
    (if respawn then pool.shutdown else pool).sessions = pool.sessions ∧
      (if respawn then pool.shutdown else pool).partition = pool.partition ∧
      ((if respawn then pool.shutdown else pool).running = true →
        pool.running = true ∧ (if respawn then pool.shutdown else pool).plans = pool.plans) := by
  cases respawn with
  | false => exact ⟨rfl, rfl, fun hrunning => ⟨hrunning, rfl⟩⟩
  | true =>
    refine ⟨sessions_shutdown pool, partition_shutdown pool, ?_⟩
    intro hrunning
    rw [if_pos rfl, running_shutdown] at hrunning
    cases hrunning

/-- A set-up that is accepted has passed the checks, made plans for the shares of all workers, and
given each of them its session. -/
theorem setup_eq_ok (h : pool.setup o areas visitor alignment flags faults = (.ok (), after)) :
    after.sessions = pool.sessions ∧ after.crew = pool.sessions ∧
      ∃ m made, checkSetup o areas alignment = .ok m ∧
        pool.partition.update m areas.regions areas.generation pool.workers flags.rebalance =
          .ok (made, after.partition) ∧
        plansFor o m visitor alignment after.partition.shares = .ok after.plans := by
  rw [setup] at h
  split at h
  · cases h
  · rename_i m hcheck
    simp only at h
    obtain ⟨hsessions, hpartition, -⟩ := pool.keeps_respawn flags.respawn
    rw [← length_sessions, hsessions, length_sessions, hpartition] at h
    split at h
    · cases h
    · rename_i made partition hupdate
      split at h
      · cases h
      · rename_i plans hplans
        rw [← hsessions]
        obtain ⟨hrunning, hspawn⟩ | ⟨-, -, hspawn⟩ | ⟨source, broken, -, -, hspawn, -⟩ :=
          spawn_cases { (if flags.respawn then pool.shutdown else pool) with partition, plans }
            faults
        · rw [hspawn] at h
          cases h
          exact ⟨rfl, crew_eq_sessions hrunning, m, made, hcheck, hupdate, hplans⟩
        · rw [hspawn] at h
          cases h
          exact ⟨rfl, rfl, m, made, hcheck, hupdate, hplans⟩
        · rw [hspawn] at h
          cases h

/-- A set-up with possible settings, shares and plans whose workers can be started is accepted, and
of the pool before it leaves the sessions and the token. -/
theorem setup_of_plans {made : Bool} {partition : Partition} {plans : List Plan}
    (hfaults : ∀ n, faults n = none) (hcheck : checkSetup o areas alignment = .ok m)
    (hupdate : pool.partition.update m areas.regions areas.generation pool.workers flags.rebalance =
      .ok (made, partition))
    (hplans : plansFor o m visitor alignment partition.shares = .ok plans) :
    pool.setup o areas visitor alignment flags faults =
      (.ok (), { idle := [], crew := pool.sessions, partition, plans, cancel := pool.cancel
                 apart := .inr rfl }) := by
  obtain ⟨hsessions, hpartition, -⟩ := pool.keeps_respawn flags.respawn
  have hcancel := pool.cancel_respawn flags.respawn
  have hworkers : (if flags.respawn then pool.shutdown else pool).workers = pool.workers := by
    rw [← length_sessions, hsessions, length_sessions]
  simp only [setup, hcheck, hworkers, hpartition, hupdate, hplans]
  rw [spawn_of_startable hfaults]
  exact congrArg (Prod.mk _) (Pool.ext rfl hsessions rfl rfl hcancel)

/-- A set-up that is refused may have dealt the regions out again.  The pool no longer runs, or has
the plans of before.  It has lost sessions only if a worker could not be started: that of the first
such worker, and the ones behind it. -/
theorem setup_eq_error {cause : Error}
    (h : pool.setup o areas visitor alignment flags faults = (.error cause, after)) :
    (after.running = true → pool.running = true ∧ after.plans = pool.plans) ∧
      (after.partition = pool.partition ∨ ∃ m made,
        pool.partition.update m areas.regions areas.generation pool.workers flags.rebalance =
          .ok (made, after.partition)) ∧
      (cause.IsOfSetup ∧ after.sessions = pool.sessions ∨
        ∃ source, cause = .spawn source ∧ after.running = false ∧
          started faults pool.sessions.length < pool.sessions.length ∧
          after.sessions = pool.sessions.take (started faults pool.sessions.length)) := by
  rw [setup] at h
  split at h
  · rename_i first hcheck
    cases h
    exact ⟨fun hrunning => ⟨hrunning, rfl⟩, .inl rfl,
      .inl ⟨failsOnly_checkSetup o areas alignment _ hcheck, rfl⟩⟩
  · rename_i m hcheck
    simp only at h
    obtain ⟨hsessions, hpartition, hplans⟩ := pool.keeps_respawn flags.respawn
    rw [← length_sessions, hsessions, length_sessions, hpartition] at h
    split at h
    · rename_i first hupdate
      cases h
      exact ⟨hplans, .inl hpartition, .inl ⟨failsOnly_update _ _ _ _ _ _ _ hupdate, hsessions⟩⟩
    · rename_i made partition hupdate
      split at h
      · rename_i first hplansFor
        cases h
        exact ⟨hplans, .inr ⟨m, made, hupdate⟩,
          .inl ⟨failsOnly_plansFor _ _ _ _ _ _ hplansFor, hsessions⟩⟩
      · rename_i plans hplansFor
        rw [← hsessions]
        obtain ⟨-, hspawn⟩ | ⟨-, -, hspawn⟩ |
            ⟨source, broken, -, hlt, hspawn, hstopped, hleft, hkept, -⟩ :=
          spawn_cases { (if flags.respawn then pool.shutdown else pool) with partition, plans }
            faults
        · rw [hspawn] at h
          cases h
        · rw [hspawn] at h
          cases h
        · rw [hspawn] at h
          cases h
          refine ⟨?_, .inr ⟨m, made, ?_⟩, .inr ⟨source, rfl, hstopped, hlt, hleft⟩⟩
          · intro hrunning
            rw [hstopped] at hrunning
            cases hrunning
          · rw [hkept]
            exact hupdate

/-- A set-up that is accepted leaves one plan for each worker. -/
theorem length_plans_of_setup
    (h : pool.setup o areas visitor alignment flags faults = (.ok (), after)) :
    after.plans.length = after.sessions.length := by
  obtain ⟨hsessions, -, m, made, -, hupdate, hplans⟩ := setup_eq_ok h
  have hlength := Partition.length_update hupdate
  let job : Job := ⟨o, areas, visitor, alignment⟩
  have hjob : plansFor job.options m job.visitor job.alignment after.partition.shares =
      .ok after.plans := hplans
  rw [(plansFor_eq_ok hjob).1, List.length_map, hlength, hsessions, length_sessions]

/-- A pool that runs for a job with regions has workers. -/
theorem RunsFor.sessions_ne {job : Job} {shares : List (List RegionId)}
    (h : pool.RunsFor job m shares) (hregions : job.areas.regions ≠ []) : pool.sessions ≠ [] := by
  intro hsessions
  have hlength := h.length_eq
  rw [hsessions, List.length_nil, List.length_eq_zero_iff] at hlength
  have hperm := h.perm
  rw [hlength, List.flatten_nil, List.nil_perm] at hperm
  exact hregions hperm

/-- A set-up that is accepted leaves a pool that runs for the job. -/
theorem RunsFor.of_setup {job : Job} (hfits : pool.partition.FitsStamps given)
    (hjob : job.Admissible given)
    (h : pool.setup job.options job.areas job.visitor job.alignment flags faults =
      (.ok (), after)) :
    after.partition.FitsStamps given ∧ after.sessions = pool.sessions ∧ after.running = true ∧
      ∃ m, after.RunsFor job m after.partition.shares := by
  obtain ⟨hsessions, hcrew, m, made, hcheck, hupdate, hplans⟩ := setup_eq_ok h
  obtain ⟨hfits', hlength, hperm⟩ := hfits.update hjob.given hupdate
  obtain ⟨hmap, haligned, hroom, hregions⟩ := checkSetup_eq_ok hcheck
  obtain ⟨hplans, hknows⟩ := plansFor_eq_ok hplans
  have hknows' : m.Knows job.areas.regions := fun id hid => hknows id (hperm.mem_iff.2 hid)
  rw [← length_sessions, ← hsessions] at hlength
  have hruns : after.RunsFor job m after.partition.shares :=
    ⟨hmap, haligned, hroom, hknows', hperm, hlength, hplans⟩
  refine ⟨hfits', hsessions, ?_, m, hruns⟩
  rw [running_iff, hcrew, ← hsessions]
  exact hruns.sessions_ne hregions

/-- A set-up that is refused leaves a pool that no longer runs, or the workers and plans of
before. -/
theorem setup_refused {cause : Error} (hfits : pool.partition.FitsStamps given)
    (hareas : areas.IsFrom given)
    (h : pool.setup o areas visitor alignment flags faults = (.error cause, after)) :
    after.partition.FitsStamps given ∧
      (after.running = true →
        pool.running = true ∧ after.sessions = pool.sessions ∧ after.plans = pool.plans) := by
  obtain ⟨hplans, hpartition, hcause⟩ := setup_eq_error h
  refine ⟨?_, ?_⟩
  · rcases hpartition with hsame | ⟨m, made, hupdate⟩
    · rw [hsame]
      exact hfits
    · exact (hfits.update hareas hupdate).1
  · intro hrunning
    obtain ⟨-, hsessions⟩ | ⟨-, -, hstopped, -⟩ := hcause
    · exact ⟨(hplans hrunning).1, hsessions, (hplans hrunning).2⟩
    · rw [hstopped] at hrunning
      cases hrunning

end Pool

end PointerChains
