import PointerChains.Proofs.Pool.Cancellation
import PointerChains.Proofs.Pool.Ready

/-!
# Passes that are cancelled beforehand

In a pass that is cancelled before it starts, a worker with regions gives up before the first of
them, and one without has nothing to do.  As some worker has regions, the pass is cancelled, and
that is all that it does.  It takes the workers down; but what a set-up makes of a pool depends on
its sessions, its partition and its token alone, which are those of a pool that was not cancelled.

The memory for a window comes before the look at the token, though.  If a window is too large for
any memory, no worker gets to see the cancellation: the pass fails for the memory, and the
cancellation is still there.

* `Pool.Round.turns_of_inert`, `Pool.runPass_of_inert` — workers that do nothing but report;
* `Pool.setup_congr` — what an accepted set-up depends on;
* `Pool.Uncancelled` — the pool as it could be without the cancellation;
* `Pool.History.cancelled_beforehand` — **a pass that is cancelled beforehand does nothing, and if
  its windows fit, the next set-up makes up for it.**
-/

namespace PointerChains

variable {ρ : Type} {given : Selections} {m : MemoryMap}

/-- In a cancelled pass the plan does nothing for a reader: it is done, or fails for the cause. -/
def Plan.IsInert (p : Plan) (read : Reader) (done : Bool) (cause : Error) : Prop :=
  ∀ signals : Signals, signals.cancelled = true →
    p.run read signals = { cancelled := true, ending := if done then .complete else .failed cause }

/-- A worker that is cancelled before it starts does nothing. -/
theorem Plan.isInert_of_fits {p : Plan} (hfits : p.bufferSize ≤ largestBuffer) (read : Reader) :
    p.IsInert read p.areas.isEmpty .cancelled := by
  intro signals h
  rw [run_of_fits hfits]
  cases p.areas with
  | nil =>
    rw [sweepAll, h]
    rfl
  | cons a rest =>
    rw [sweepAll, if_pos h]
    rfl

/-- A worker whose window is too large does nothing in any pass. -/
theorem Plan.isInert_of_large {p : Plan} (hlarge : largestBuffer < p.bufferSize) (read : Reader) :
    p.IsInert read false .allocation := by
  intro signals h
  rw [run_of_large hlarge, h]
  rfl

namespace Pool

variable {pool other : Pool ρ} {read : ρ → Reader} {done : Plan → Bool} {cause : Error}

/-! ### The pass -/

namespace Round

variable {r : Round} {n : Nat}

/-- The turn of a worker that does nothing. -/
theorem turn_of_inert {w : ρ × Plan} (hw : w.2.IsInert (read w.1) (done w.2) cause) (n : Nat)
    (h : r.cancelled = true) : r.turn read (w, n) =
      { r with tally := r.tally.record n (if done w.2 then .ok {} else .error cause)
               logs := r.logs ++ [[]] } := by
  have hsweep := hw { cancelled := r.cancelled, aborted := r.tally.aborted } h
  simp only [turn, hsweep, Sweep.report?]
  cases done w.2 with
  | false => simp only [h, Bool.false_eq_true, if_false]
  | true => simp only [h, if_true]

/-- In a cancelled round of such workers nothing is done or lost, and one that is not done makes it
fail. -/
theorem turns_of_inert (ws : List (ρ × Plan))
    (hws : ∀ w ∈ ws, w.2.IsInert (read w.1) (done w.2) cause)
    (hawaits : r.Awaits ((ws.zipIdx n).map Prod.snd)) (hcancelled : r.cancelled = true) :
    ((ws.zipIdx n).foldl (turn read) r).cancelled = true ∧
      ((ws.zipIdx n).foldl (turn read) r).lost = r.lost ∧
      ((ws.zipIdx n).foldl (turn read) r).logs = r.logs ++ List.replicate ws.length [] ∧
      ((r.tally.error = some cause ∨ (r.tally.error = none ∧ ∃ w ∈ ws, done w.2 = false)) →
        ((ws.zipIdx n).foldl (turn read) r).tally.error = some cause) := by
  induction ws generalizing r n with
  | nil =>
    refine ⟨hcancelled, rfl, (List.append_nil _).symm, ?_⟩
    rintro (herror | ⟨-, w, hw, -⟩)
    · exact herror
    · cases hw
  | cons w ws ih =>
    rw [List.zipIdx_cons, List.map_cons] at hawaits
    rw [List.zipIdx_cons, List.foldl_cons]
    obtain ⟨hw, hrest⟩ := List.forall_mem_cons.1 hws
    have hdone := hawaits.head
    have hlater : (r.turn read (w, n)).Awaits ((ws.zipIdx (n + 1)).map Prod.snd) := hawaits.turn
    have hturn := turn_of_inert hw n hcancelled
    obtain ⟨hcancelled', hlost, hlogs, herror⟩ :=
      ih hrest hlater (by rw [hturn]; exact hcancelled)
    refine ⟨hcancelled', ?_, ?_, ?_⟩
    · rw [hlost, hturn]
    · rw [hlogs, hturn, List.append_assoc, List.length_cons, List.replicate_succ,
        List.singleton_append]
    · intro hbefore
      apply herror
      rw [hturn]
      cases hidle : done w.2 with
      | true =>
        rw [if_pos rfl, Tally.error_record_ok]
        obtain hfirst | ⟨hnone, v, hv, hbusy⟩ := hbefore
        · exact .inl hfirst
        · obtain rfl | hv := List.mem_cons.1 hv
          · rw [hidle] at hbusy
            cases hbusy
          · exact .inr ⟨hnone, v, hv, hbusy⟩
      | false =>
        rw [if_neg (by decide)]
        obtain hfirst | ⟨hnone, -⟩ := hbefore
        · exact .inl (Tally.error_record_of_error hfirst _ _)
        · exact .inl (Tally.error_record_of_none hnone hdone _)

end Round

/-- In a cancelled round of workers that do nothing each of them is logged as such, and the first
that is not done says why. -/
theorem sweepRound_of_inert (done : Plan → Bool) (hlength : pool.plans.length = pool.crew.length)
    (hcancelled : pool.cancel.isSet = true)
    (hinert : ∀ w ∈ pool.crew.zip pool.plans, w.2.IsInert (read w.1) (done w.2) cause)
    (hbusy : ∃ plan ∈ pool.plans, done plan = false) :
    (pool.sweepRound read).cancelled = true ∧ (pool.sweepRound read).lost = [] ∧
      (pool.sweepRound read).logs = List.replicate pool.crew.length [] ∧
      (pool.sweepRound read).finalTally.outcome = .error cause := by
  obtain ⟨hround, hlost, hlogs, herror⟩ :=
    Round.turns_of_inert _ hinert (awaits_sweepRound hlength) hcancelled
  rw [List.length_zip, hlength, Nat.min_self] at hlogs
  refine ⟨hround, hlost, hlogs, Round.outcome_of_error (herror (.inr ⟨rfl, ?_⟩))⟩
  obtain ⟨plan, hplan, hidle⟩ := hbusy
  rw [← List.map_snd_zip (Nat.le_of_eq hlength)] at hplan
  obtain ⟨w, hw, rfl⟩ := List.mem_map.1 hplan
  exact ⟨w, hw, hidle⟩

/-- A cancelled pass of workers that do nothing takes them down with all of their sessions.  It uses
up the cancellation if that is what it fails for. -/
theorem runPass_of_inert (done : Plan → Bool) (hrunning : pool.running = true)
    (hlength : pool.plans.length = pool.sessions.length) (hcancelled : pool.cancel.isSet = true)
    (hinert : ∀ w ∈ pool.sessions.zip pool.plans, w.2.IsInert (read w.1) (done w.2) cause)
    (hbusy : ∃ plan ∈ pool.plans, done plan = false) :
    pool.runPass read = (⟨.error cause, List.replicate pool.workers []⟩,
      { idle := pool.sessions, partition := pool.partition
        cancel := if cause = .cancelled then {} else pool.cancel }) := by
  have hready : ¬(!pool.running || pool.plans.length != pool.crew.length) = true := by
    rw [idle_iff, not_not]
    exact ⟨hrunning, hlength⟩
  have hcrew := crew_eq_sessions hrunning
  rw [← hcrew] at hinert hlength
  obtain ⟨hround, hlost, hlogs, houtcome⟩ :=
    sweepRound_of_inert done hlength hcancelled hinert hbusy
  rw [hcrew, length_sessions] at hlogs
  have hdown : ∀ cancel : Token, ({ pool with cancel } : Pool ρ).shutdown =
      { idle := pool.sessions, partition := pool.partition, cancel } := by
    intro cancel
    have hrunning' : ({ pool with cancel } : Pool ρ).running = true := hrunning
    exact shutdown_of_running hrunning'
  have hset : pool.cancel = ⟨true⟩ := congrArg Token.mk hcancelled
  rw [runPass, if_neg hready]
  simp only [houtcome, hlogs, hlost, hround]
  refine congrArg (Prod.mk _) ?_
  by_cases hcause : cause = .cancelled
  · rw [if_pos hcause, if_pos hcause]
    exact hdown {}
  · rw [if_neg hcause, if_neg hcause, hset]
    exact hdown ⟨true⟩

/-! ### The next set-up -/

/-- What an accepted set-up makes of a pool depends on its sessions, its partition and its token
alone. -/
theorem setup_congr {o : Options} {areas : AreaSet} {visitor : Visitor} {alignment : Nat}
    {flags : SetupFlags} (hsessions : other.sessions = pool.sessions)
    (hpartition : other.partition = pool.partition) (hcancel : other.cancel = pool.cancel)
    (haccepted : (pool.setup o areas visitor alignment flags).1 = .ok ()) :
    other.setup o areas visitor alignment flags = pool.setup o areas visitor alignment flags := by
  have hsetup : pool.setup o areas visitor alignment flags =
      (.ok (), (pool.setup o areas visitor alignment flags).2) := Prod.ext haccepted rfl
  obtain ⟨-, -, m, made, hcheck, hupdate, hplans⟩ := setup_eq_ok hsetup
  have hother : other.partition.update m areas.regions areas.generation other.workers
      flags.rebalance = .ok (made, (pool.setup o areas visitor alignment flags).2.partition) := by
    rw [← length_sessions, hsessions, length_sessions, hpartition]
    exact hupdate
  rw [setup_of_plans (fun _ => rfl) hcheck hupdate hplans,
    setup_of_plans (fun _ => rfl) hcheck hother hplans]
  exact congrArg (Prod.mk _) (Pool.ext rfl hsessions rfl rfl hcancel)

/-- The pool as it could be without its cancellation: it is still to make its pass, or has made some
that ended with totals. -/
inductive Uncancelled (pool : Pool ρ) : Pool ρ → Prop where
  | waiting : Uncancelled pool { pool with cancel := {} }
  | passed {other : Pool ρ} {read : ρ → Reader} {stats : Stats} :
      Uncancelled pool other → (other.runPass read).1.result = .ok stats →
      (other.runPass read).2.cancel = {} → Uncancelled pool (other.runPass read).2

theorem Uncancelled.keeps (h : pool.Uncancelled other) :
    other.sessions = pool.sessions ∧ other.partition = pool.partition ∧ other.cancel = {} := by
  induction h with
  | waiting => exact ⟨rfl, rfl, rfl⟩
  | @passed other read stats _ hok hclear ih =>
    obtain ⟨hsessions, hpartition, -⟩ := ih
    obtain ⟨-, heq⟩ | ⟨stats, cancel, -, -, -, heq⟩ | ⟨cause, herror, -⟩ := other.runPass_cases read
    · rw [heq] at hok
      cases hok
    · refine ⟨?_, ?_, hclear⟩
      · rw [heq]
        exact hsessions
      · rw [heq]
        exact hpartition
    · rw [hok] at herror
      cases herror

/-! ### Histories -/

/-- Some worker of a pool that runs for a job with regions has regions. -/
theorem RunsFor.exists_areas {job : Job} {shares : List (List RegionId)}
    (h : pool.RunsFor job m shares) (hregions : job.areas.regions ≠ []) :
    ∃ plan ∈ pool.plans, plan.areas ≠ [] := by
  obtain ⟨id, hid⟩ := List.exists_mem_of_ne_nil _ hregions
  obtain ⟨share, hshare, hmem⟩ := List.mem_flatten.1 (h.perm.mem_iff.2 hid)
  obtain ⟨r, hr⟩ := h.knows id hid
  refine ⟨job.plan (m.areas share), ?_, ?_⟩
  · rw [h.plans_eq]
    exact List.mem_map_of_mem hshare
  · exact List.ne_nil_of_mem (MemoryMap.mem_areas_iff.2 ⟨id, hmem, r, hr, rfl⟩)

namespace History

variable {last : Option Job}

/-- The last accepted job has passed the checks. -/
theorem exists_checkSetup {job : Job} (h : History given pool (some job)) :
    ∃ m, checkSetup job.options job.areas job.alignment = .ok m := by
  generalize hlast : some job = last at h
  induction h with
  | new => cases hlast
  | accepted _ _ hsetup _ =>
    cases hlast
    obtain ⟨-, -, m, -, hcheck, -⟩ := setup_eq_ok hsetup
    exact ⟨m, hcheck⟩
  | refused _ _ _ ih => exact ih hlast
  | pass _ _ ih => exact ih hlast
  | shutdown _ ih => exact ih hlast
  | signal _ _ ih => exact ih hlast

/-- **A pass that is cancelled before it starts does nothing.**  Whatever the history of the pool,
its shares and its memory: no worker reads or visits anything, and the pass leaves all sessions,
with the workers down.  If the windows fit into memory, it is cancelled and uses the cancellation
up.  The next set-up for the same job is accepted then, and leaves the very pool that it makes of
one that was not cancelled, so that all passes are those of that pool.  If the windows are too large
for any memory, the pass fails for that, and the cancellation stays. -/
theorem cancelled_beforehand (h : History given pool last) (hrunning : pool.running = true)
    (hcancelled : pool.cancel.isSet = true) (read : ρ → Reader) :
    ∃ job, last = some job ∧
      (job.options.bufferSize ≤ largestBuffer →
        pool.runPass read = (⟨.error .cancelled, List.replicate pool.workers []⟩,
          { idle := pool.sessions, partition := pool.partition, cancel := {} }) ∧
        ∀ flags, ∀ other : Pool ρ, pool.Uncancelled other →
          (other.setup job.options job.areas job.visitor job.alignment flags).1 = .ok () ∧
          (pool.runPass read).2.setup job.options job.areas job.visitor job.alignment flags =
            other.setup job.options job.areas job.visitor job.alignment flags) ∧
      (largestBuffer < job.options.bufferSize →
        pool.runPass read = (⟨.error .allocation, List.replicate pool.workers []⟩,
          { idle := pool.sessions, partition := pool.partition, cancel := pool.cancel })) := by
  obtain ⟨job, m, shares, rfl, hjob, hruns⟩ := h.sound.runs hrunning
  obtain ⟨m', hcheck⟩ := h.exists_checkSetup
  obtain ⟨hmap, -, -, hregions⟩ := checkSetup_eq_ok hcheck
  obtain rfl : m' = m := Option.some.inj (hmap.symm.trans hruns.map_eq)
  have hlength := hruns.length_plans
  have hareas := hruns.exists_areas hregions
  have hwindow : ∀ w ∈ pool.sessions.zip pool.plans, w.2.bufferSize = job.options.bufferSize := by
    intro w hw
    rw [hruns.zip_plans] at hw
    obtain ⟨⟨session, share⟩, -, rfl⟩ := List.mem_map.1 hw
    rfl
  refine ⟨job, rfl, ?_, ?_⟩
  · intro hfits
    have hpass : pool.runPass read = (⟨.error .cancelled, List.replicate pool.workers []⟩,
        { idle := pool.sessions, partition := pool.partition, cancel := {} }) := by
      refine runPass_of_inert (fun plan => plan.areas.isEmpty) hrunning hlength hcancelled
        ?_ ?_
      · intro w hw
        refine Plan.isInert_of_fits ?_ (read w.1)
        rw [hwindow w hw]
        exact hfits
      · obtain ⟨plan, hplan, hne⟩ := hareas
        exact ⟨plan, hplan, List.isEmpty_eq_false_iff.2 hne⟩
    refine ⟨hpass, ?_⟩
    intro flags other hother
    obtain ⟨hsessions, hpartition, hclear⟩ := hother.keeps
    have hne : other.sessions ≠ [] := by
      rw [hsessions]
      exact hruns.sessions_ne hregions
    have hfits : other.partition.FitsStamps given := by
      rw [hpartition]
      exact h.sound.fits
    obtain ⟨ready, hready⟩ := exists_setup hfits hjob.given hne hcheck hruns.knows flags
    have haccepted := congrArg Prod.fst hready
    refine ⟨haccepted, ?_⟩
    rw [hpass]
    refine setup_congr ?_ hpartition.symm hclear.symm haccepted
    exact (List.append_nil _).trans hsessions.symm
  · intro hlarge
    refine runPass_of_inert (fun _ => false) hrunning hlength hcancelled ?_ ?_
    · intro w hw
      refine Plan.isInert_of_large ?_ (read w.1)
      rw [hwindow w hw]
      exact hlarge
    · obtain ⟨plan, hplan, -⟩ := hareas
      exact ⟨plan, hplan, rfl⟩

end History

/-- Three workers for two regions, so that one of them has none. -/
def threeWorkers : Pool Unit :=
  (({ idle := [(), (), ()] } : Pool Unit).setup Job.twoRegions.options Job.twoRegions.areas
    Job.twoRegions.visitor Job.twoRegions.alignment {}).2

/-- The same with a cancellation. -/
def threeCancelled : Pool Unit := { threeWorkers with cancel := ⟨true⟩ }

theorem history_threeCancelled : History .twoRegions threeCancelled (some .twoRegions) := by
  have hsetup : ({ idle := [(), (), ()] } : Pool Unit).setup Job.twoRegions.options
      Job.twoRegions.areas Job.twoRegions.visitor Job.twoRegions.alignment {} =
        (.ok (), threeWorkers) := by
    refine Prod.ext ?_ rfl
    cbv
  have hworkers : History .twoRegions threeWorkers (some .twoRegions) :=
    .accepted (.new [(), (), ()] rfl) Job.admissible_twoRegions hsetup
  exact hworkers.signal ⟨true⟩

theorem History.cancelled_beforehand_threeWorkers :
    (History .twoRegions threeCancelled (some .twoRegions) ∧ threeCancelled.running = true ∧
      threeCancelled.cancel.isSet = true ∧
      (threeCancelled.plans.map fun plan => plan.areas.length) = [1, 1, 0]) ∧
    (threeCancelled.runPass lowBytes).1 = ⟨.error .cancelled, [[], [], []]⟩ ∧
    (threeCancelled.runPass lowBytes).2.idle = [(), (), ()] ∧
    ∃ job, some Job.twoRegions = some job ∧ ∀ flags,
      (threeCancelled.runPass lowBytes).2.setup job.options job.areas job.visitor job.alignment
          flags =
        { threeCancelled with cancel := {} }.setup job.options job.areas job.visitor job.alignment
          flags := by
  have hrunning : threeCancelled.running = true := by cbv
  have hcancelled : threeCancelled.cancel.isSet = true := rfl
  have hplans : (threeCancelled.plans.map fun plan => plan.areas.length) = [1, 1, 0] := by cbv
  have hsessions : threeCancelled.sessions = [(), (), ()] := by cbv
  obtain ⟨job, hjob, hfits, -⟩ :=
    history_threeCancelled.cancelled_beforehand hrunning hcancelled lowBytes
  have hbuffer : job.options.bufferSize ≤ largestBuffer := by
    cases hjob
    decide
  obtain ⟨hpass, hsetup⟩ := hfits hbuffer
  refine ⟨⟨history_threeCancelled, hrunning, hcancelled, hplans⟩, ?_, ?_, job, hjob, ?_⟩
  · rw [hpass, ← length_sessions, hsessions]
    rfl
  · rw [hpass]
    exact hsessions
  · exact fun flags => (hsetup flags _ .waiting).2

/-! ### A window that is too large -/

/-- A sweep of both regions with windows as large as a setting can ask for. -/
def hugeWindow : Job :=
  { Job.twoRegions with options := { Options.twoRegions with bufferSize := 2 ^ 64 - 1 } }

/-- A worker that is set up for it, with a cancellation. -/
def hugeCancelled : Pool Unit :=
  { (({ idle := [()] } : Pool Unit).setup hugeWindow.options hugeWindow.areas hugeWindow.visitor
      hugeWindow.alignment {}).2 with cancel := ⟨true⟩ }

theorem admissible_hugeWindow : hugeWindow.Admissible .twoRegions where
  built m hm := by
    cases hm
    exact MemoryMap.built_twoRegions
  given := rfl

/-- **A pass that is cancelled before it starts need not be cancelled.**  It fails for the memory of
its windows, and the cancellation is still there. -/
theorem not_cancelled_hugeWindow :
    History .twoRegions hugeCancelled (some hugeWindow) ∧ hugeCancelled.running = true ∧
      hugeCancelled.cancel.isSet = true ∧
      (hugeCancelled.runPass lowBytes).1.result = .error .allocation ∧
      (hugeCancelled.runPass lowBytes).2.cancel.isSet = true := by
  have hsetup : ({ idle := [()] } : Pool Unit).setup hugeWindow.options hugeWindow.areas
      hugeWindow.visitor hugeWindow.alignment {} = (.ok (), (({ idle := [()] } : Pool Unit).setup
        hugeWindow.options hugeWindow.areas hugeWindow.visitor hugeWindow.alignment {}).2) := by
    refine Prod.ext ?_ rfl
    cbv
  have hhistory : History .twoRegions hugeCancelled (some hugeWindow) :=
    (History.accepted (.new [()] rfl) admissible_hugeWindow hsetup).signal ⟨true⟩
  refine ⟨hhistory, ?_, rfl, ?_, ?_⟩
  · cbv
  · cbv
  · cbv

end Pool

end PointerChains
