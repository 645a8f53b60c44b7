import PointerChains.Proofs.Pool.History
import PointerChains.Proofs.Sweep.Agreement

/-!
# Pools that are ready

A pool with sessions and without a cancellation that is due does what its job asks for, if that can
be done at all: a set-up is refused only for its settings or for regions that are not in the map,
and a pass fails only if a window is too large or the sweep of some region fails.  Which session
serves which region, and what the pool has done before, play no part in that.

* `Pool.exists_setup` — a set-up with possible settings is accepted;
* `Pool.runPass_of_completes` — a pass over regions whose sweeps are complete ends with totals.
-/

namespace PointerChains

variable {ρ : Type} {m : MemoryMap} {given : Selections}

/-! ### Shares of known regions -/

theorem MemoryMap.Knows.exists_areasOf {ids : List RegionId} (h : m.Knows ids) :
    ∃ areas, Pool.areasOf m ids = .ok areas := by
  induction ids with
  | nil => exact ⟨[], rfl⟩
  | cons id ids ih =>
    obtain ⟨⟨r, hr⟩, hrest⟩ := List.forall_mem_cons.1 h
    obtain ⟨rest, hareas⟩ := ih hrest
    exact ⟨⟨r.id, r.range⟩ :: rest, by simp [Pool.areasOf, hr, hareas]⟩

theorem MemoryMap.Knows.exists_plansFor {o : Options} {visitor : Visitor} {alignment : Nat}
    {shares : List (List RegionId)} (h : m.Knows shares.flatten) :
    ∃ plans, Pool.plansFor o m visitor alignment shares = .ok plans := by
  induction shares with
  | nil => exact ⟨[], rfl⟩
  | cons share shares ih =>
    obtain ⟨hshare, hrest⟩ := List.forall_mem_append.1 h
    obtain ⟨areas, hareas⟩ := MemoryMap.Knows.exists_areasOf hshare
    obtain ⟨plans, hplans⟩ := ih hrest
    exact ⟨_, by simp [Pool.plansFor, hareas, hplans]; rfl⟩

/-- Known regions can be shared out among workers, if there are any. -/
theorem Partition.exists_update {p : Partition} {regions : List RegionId} {workers : Nat}
    (hknows : m.Knows regions) (hworkers : workers ≠ 0) (stamp : Nat) (force : Bool) :
    ∃ made, p.update m regions stamp workers force = .ok made := by
  have hshares := partition_eq_ok_iff.2 ⟨hworkers, hknows, rfl⟩
  rw [Partition.update, hshares]
  split
  · exact ⟨_, rfl⟩
  · exact ⟨_, rfl⟩

namespace Pool

variable {pool : Pool ρ} {job : Job}

theorem cancel_spawn (pool : Pool ρ) (faults : StartFaults) :
    (pool.spawn faults).2.cancel = pool.cancel := by
  obtain ⟨-, hspawn⟩ | ⟨-, -, hspawn⟩ | ⟨source, after, -, -, hspawn, -, -, -, hcancel⟩ :=
    pool.spawn_cases faults
  · rw [hspawn]
  · rw [hspawn]
  · rw [hspawn]
    exact hcancel

/-- A set-up leaves the token as it is. -/
theorem cancel_setup (pool : Pool ρ) (o : Options) (areas : AreaSet) (visitor : Visitor)
    (alignment : Nat) (flags : SetupFlags) (faults : StartFaults) :
    (pool.setup o areas visitor alignment flags faults).2.cancel = pool.cancel := by
  have hrespawn := pool.cancel_respawn flags.respawn
  rw [setup]
  split
  · rfl
  · simp only
    split
    · exact hrespawn
    · split
      · exact hrespawn
      · rw [cancel_spawn]
        exact hrespawn

/-- A set-up with possible settings and known regions is accepted, if workers can be started. -/
theorem exists_setup (hfits : pool.partition.FitsStamps given) (hareas : job.areas.IsFrom given)
    (hsessions : pool.sessions ≠ [])
    (hcheck : checkSetup job.options job.areas job.alignment = .ok m)
    (hknows : m.Knows job.areas.regions) (flags : SetupFlags) :
    ∃ ready, pool.setup job.options job.areas job.visitor job.alignment flags =
      (.ok (), ready) := by
  have hworkers : pool.workers ≠ 0 := by
    rw [← length_sessions, ne_eq, List.length_eq_zero_iff]
    exact hsessions
  obtain ⟨⟨made, partition⟩, hupdate⟩ := Partition.exists_update (p := pool.partition) hknows
    hworkers job.areas.generation flags.rebalance
  obtain ⟨-, -, hperm⟩ := hfits.update hareas hupdate
  have hshares : m.Knows partition.shares.flatten := fun id hid => hknows id (hperm.mem_iff.1 hid)
  obtain ⟨plans, hplans⟩ : ∃ plans,
      plansFor job.options m job.visitor job.alignment partition.shares = .ok plans :=
    hshares.exists_plansFor
  exact ⟨_, setup_of_plans (fun _ => rfl) hcheck hupdate hplans⟩

/-! ### Passes -/

variable {read : ρ → Reader} {r : Round} {session : ρ} {plan : Plan} {n : Nat}

/-- Nothing has failed, no worker was lost, and the pass is not cancelled. -/
structure Round.Calm (r : Round) : Prop extends r.Clean where
  cancelled_eq : r.cancelled = false

theorem Round.Calm.turn (h : r.Calm) (hfits : plan.bufferSize ≤ largestBuffer)
    (hquiet : plan.IsQuiet)
    (hcompletes : plan.Completes (read session) plan.areas) (n : Nat) :
    (r.turn read ((session, plan), n)).Calm := by
  have haborted : r.tally.aborted = false := by simp [Tally.aborted, h.error_eq]
  have hsweep : Round.sweepOf read r session plan = plan.run (read session) {} := by
    rw [Round.sweepOf, h.cancelled_eq, haborted]
  obtain ⟨⟨stats, hreport⟩, hcancelled⟩ := Plan.run_of_completes hfits hquiet hcompletes
  rw [← hsweep] at hreport hcancelled
  obtain ⟨report, hreport', heq⟩ | ⟨hnone, -⟩ := r.turn_cases read session plan n
  · rw [hreport, Option.some.injEq] at hreport'
    subst hreport'
    rw [heq]
    exact ⟨⟨(Tally.error_record_ok ..).trans h.error_eq, h.lost_eq⟩, hcancelled⟩
  · rw [hreport] at hnone
    cases hnone

theorem Round.Calm.turns {ws : List ((ρ × Plan) × Nat)} (h : r.Calm)
    (hws : ∀ w ∈ ws.map Prod.fst, w.2.bufferSize ≤ largestBuffer ∧ w.2.IsQuiet ∧
      w.2.Completes (read w.1) w.2.areas) :
    (ws.foldl (Round.turn read) r).Calm := by
  induction ws generalizing r with
  | nil => exact h
  | cons w ws ih =>
    rw [List.map_cons] at hws
    obtain ⟨⟨hfits, hquiet, hcompletes⟩, hrest⟩ := List.forall_mem_cons.1 hws
    exact ih (h.turn hfits hquiet hcompletes w.2) hrest

/-- Whichever worker has its turn first, such a round stays calm. -/
theorem calm_roundBy (hclear : pool.cancel.isSet = false) {turns : List ((ρ × Plan) × Nat)}
    (hplans : ∀ w ∈ turns.map Prod.fst,
      w.2.bufferSize ≤ largestBuffer ∧ w.2.IsQuiet ∧ w.2.Completes (read w.1) w.2.areas) :
    (pool.roundBy read turns).Calm := by
  have hstart : ({ tally := .start pool.crew.length, cancelled := pool.cancel.isSet } :
      Round).Calm := ⟨⟨rfl, rfl⟩, hclear⟩
  exact hstart.turns hplans

/-- Workers that follow each other log what they find, each in its place. -/
theorem logs_sweepRound (hclear : pool.cancel.isSet = false)
    (hlength : pool.plans.length = pool.crew.length)
    (hplans : ∀ w ∈ pool.crew.zip pool.plans,
      w.2.bufferSize ≤ largestBuffer ∧ w.2.IsQuiet ∧ w.2.Completes (read w.1) w.2.areas) :
    (pool.sweepRound read).logs = (pool.crew.zip pool.plans).map (Round.logOf read) := by
  rw [← List.zipIdx_map_fst 0 (pool.crew.zip pool.plans)] at hplans
  have hround := Round.turns_of_clean _ (awaits_sweepRound hlength)
    (calm_roundBy hclear hplans).toClean
  rw [List.zipIdx_map_fst] at hround
  exact hround.2.1

/-- A pass over regions whose sweeps are complete ends with totals, and leaves no cancellation. -/
theorem runPass_of_completes (hrunning : pool.running = true)
    (hlength : pool.plans.length = pool.sessions.length) (hclear : pool.cancel.isSet = false)
    (hplans : ∀ w ∈ pool.sessions.zip pool.plans,
      w.2.bufferSize ≤ largestBuffer ∧ w.2.IsQuiet ∧ w.2.Completes (read w.1) w.2.areas) :
    ∃ stats, pool.runPass read =
      (⟨.ok stats, (pool.sweepRound read).logs⟩, { pool with cancel := {} }) := by
  have hcrew := crew_eq_sessions hrunning
  rw [← hcrew] at hplans
  have hcalm : (pool.sweepRound read).Calm := by
    apply calm_roundBy hclear
    rw [List.zipIdx_map_fst]
    exact hplans
  have houtcome : (pool.sweepRound read).finalTally.outcome =
      .ok (pool.sweepRound read).tally.stats := by
    rw [Round.finalTally, hcalm.lost_eq]
    exact Tally.outcome_eq_ok_iff.2 ⟨hcalm.error_eq, rfl⟩
  refine ⟨(pool.sweepRound read).tally.stats, ?_⟩
  simp [runPass, hrunning, hlength, hcrew, houtcome, hcalm.cancelled_eq]

/-- The same, said of the shares of a job. -/
theorem RunsFor.exists_pass {shares : List (List RegionId)} (h : pool.RunsFor job m shares)
    (hrunning : pool.running = true) (hclear : pool.cancel.isSet = false)
    (hfits : job.options.bufferSize ≤ largestBuffer) (hquiet : ∀ areas, (job.plan areas).IsQuiet)
    (hcompletes : ∀ w ∈ pool.sessions.zip shares,
      (job.plan (m.areas w.2)).Completes (read w.1) (m.areas w.2)) :
    ∃ stats, pool.runPass read =
      (⟨.ok stats, (pool.sweepRound read).logs⟩, { pool with cancel := {} }) := by
  apply runPass_of_completes hrunning h.length_plans
  · exact hclear
  · intro w hw
    rw [h.zip_plans] at hw
    obtain ⟨share, hshare, rfl⟩ := List.mem_map.1 hw
    exact ⟨hfits, hquiet _, hcompletes share hshare⟩

end Pool

end PointerChains
