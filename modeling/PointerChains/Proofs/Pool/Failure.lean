import PointerChains.Proofs.Causes
import PointerChains.Proofs.Pool.Cancellation

/-!
# Why passes fail

A worker fails for a read that fails, for a visitor that does or that stands still, since there is
no memory for its window, or since the pass is cancelled.  A pass fails as one of its workers does,
for a worker that is lost, or since the pool is not set up.  A set-up is refused for its settings,
for the lack of sessions, or for regions that the map does not have, or it cannot start a worker.

* `Plan.CanFail`, `Plan.failsOnly_run` — the causes in a worker;
* `Pool.CanFail`, `Pool.failsOnly_runPass` — **the causes in a pass**;
* `Pool.failsOnly_setup` — **the causes of a set-up that is refused.**
-/

namespace PointerChains

variable {ρ : Type} {P : Error → Prop}

/-! ### Workers -/

/-- What a worker can fail for. -/
inductive Plan.CanFail (p : Plan) (read : Reader) : Error → Prop where
  | read {a : Address} {length : Nat} {cause : Error} :
      read.exactly a length = .error cause → Plan.CanFail p read cause
  | visitor {v : Visit} {cause : Error} : p.visitor v = .fail cause → Plan.CanFail p read cause
  | zeroAdvance : Plan.CanFail p read .zeroAdvance
  | allocation : Plan.CanFail p read .allocation
  | cancelled : Plan.CanFail p read .cancelled

section Workers

variable {p : Plan} {read : Reader} {a : Area} {c : Cursor} {signals : Signals}
  {events : List Event} {ending : Ending} {cause : Error}

theorem Plan.canFail_of_prepare
    (h : c.prepare p read a signals = (events, .error (.failed cause))) : p.CanFail read cause := by
  obtain ⟨request, -, -, ⟨first, hread, hfailed⟩ | ⟨-, -, hsignals⟩⟩ := Cursor.prepare_eq_error h
  · cases hfailed
    exact .read hread
  · obtain ⟨-, hfailed⟩ | ⟨-, -, hstopped⟩ := hsignals
    · cases hfailed
      exact .cancelled
    · cases hstopped

theorem Plan.canFail_of_endingAt? {v : Visit} (h : p.endingAt? v = some (.failed cause)) :
    p.CanFail read cause := by
  rw [endingAt?] at h
  split at h
  · rename_i first hreply
    cases h
    exact .visitor hreply
  · cases h
  · cases h
    exact .zeroAdvance
  · split at h
    · cases h
    · cases h

/-- Every step of a sweep that fails does so for one of the causes. -/
theorem Plan.Sweeps.canFail (h : p.Sweeps read a c signals events ending)
    (hfailed : ending = .failed cause) : p.CanFail read cause := by
  induction h with
  | past => cases hfailed
  | unprepared _ hprepare =>
    rw [hfailed] at hprepare
    exact canFail_of_prepare hprepare
  | last _ _ hending =>
    rw [hfailed] at hending
    exact canFail_of_endingAt? hending
  | move _ _ ih => exact ih hfailed

theorem Plan.canFail_of_sweepAll {areas : List Area}
    (h : (p.sweepAll read signals areas).ending = .failed cause) : p.CanFail read cause := by
  induction areas generalizing signals with
  | nil => cases h
  | cons a rest ih =>
    obtain ⟨-, heq⟩ | ⟨-, -, heq⟩ | ⟨-, ⟨-, heq⟩ | ⟨-, heq⟩⟩ := p.sweepAll_cases read signals a rest
    · rw [heq] at h
      cases h
      exact .cancelled
    · rw [heq] at h
      cases h
    · rw [heq] at h
      exact ih h
    · rw [heq] at h
      exact (p.sweeps_sweep read a _).canFail h

/-- What a worker reports of its sweep. -/
theorem Plan.failsOnly_run {report : Except Error Stats}
    (h : (p.run read signals).report? = some report) : FailsOnly (p.CanFail read) report := by
  rw [Sweep.report?] at h
  split at h
  · cases h
    exact failsOnly_ok
  · cases h
    exact failsOnly_ok
  · rename_i cause hending
    cases h
    refine failsOnly_error ?_
    rcases Nat.lt_or_ge largestBuffer p.bufferSize with hlarge | hfits
    · rw [run_of_large hlarge] at hending
      cases hending
      exact .allocation
    · rw [run_of_fits hfits] at hending
      exact canFail_of_sweepAll hending
  · cases h

end Workers

/-! ### Passes -/

namespace Pool

variable {pool : Pool ρ} {read : ρ → Reader}

/-- What a pass can fail for. -/
inductive CanFail (pool : Pool ρ) (read : ρ → Reader) : Error → Prop where
  | worker {w : ρ × Plan} {cause : Error} : w ∈ pool.sessions.zip pool.plans →
      w.2.CanFail (read w.1) cause → CanFail pool read cause
  | workerLost (n : Nat) : CanFail pool read (.workerLost n)
  | notSetUp : CanFail pool read .poolNotSetUp

/-- A report keeps the kind of the first error, if its own is of that kind. -/
theorem Tally.error_record_of_failsOnly {t : Tally} {n : Nat} {report : Except Error Stats}
    (ht : ∀ cause, t.error = some cause → P cause) (hreport : FailsOnly P report) :
    ∀ cause, (t.record n report).error = some cause → P cause := by
  rw [Tally.record]
  split
  swap
  · exact ht
  cases report with
  | ok stats => exact ht
  | error last =>
    intro cause h
    cases hfirst : t.error with
    | none =>
      rw [hfirst] at h
      cases h
      exact hreport last rfl
    | some first =>
      rw [hfirst] at h
      cases h
      exact ht cause hfirst

theorem Round.error_turns {r : Round} {ws : List (ρ × Plan)} {n : Nat}
    (hr : ∀ cause, r.tally.error = some cause → P cause)
    (hws : ∀ w ∈ ws, ∀ cause, w.2.CanFail (read w.1) cause → P cause) :
    ∀ cause, ((ws.zipIdx n).foldl (Round.turn read) r).tally.error = some cause → P cause := by
  induction ws generalizing r n with
  | nil => exact hr
  | cons w ws ih =>
    rw [List.zipIdx_cons, List.foldl_cons]
    obtain ⟨hw, hrest⟩ := List.forall_mem_cons.1 hws
    refine ih ?_ hrest
    obtain ⟨report, hreport, heq⟩ | ⟨-, heq⟩ := r.turn_cases read w.1 w.2 n
    · rw [heq]
      exact Tally.error_record_of_failsOnly hr ((Plan.failsOnly_run hreport).mono hw)
    · rw [heq]
      exact hr

theorem Round.error_losses (lost : List Nat) {t : Tally}
    (ht : ∀ cause, t.error = some cause → P cause) (hlost : ∀ n, P (.workerLost n)) :
    ∀ cause, (lost.foldl (fun t n => t.record n (.error (.workerLost n))) t).error = some cause →
      P cause := by
  induction lost generalizing t with
  | nil => exact ht
  | cons n lost ih => exact ih (Tally.error_record_of_failsOnly ht (failsOnly_error (hlost n)))

/-- **A pass fails as one of its workers does, for a lost worker, or for a pool that is not set
up.** -/
theorem failsOnly_runPass (pool : Pool ρ) (read : ρ → Reader) :
    FailsOnly (pool.CanFail read) (pool.runPass read).1.result := by
  obtain ⟨-, hrefused⟩ | ⟨⟨hrunning, -⟩, heq⟩ := pool.pass_eq read
  · rw [hrefused]
    exact failsOnly_error .notSetUp
  rw [heq]
  have hturns : ∀ cause, (pool.sweepRound read).tally.error = some cause →
      pool.CanFail read cause := by
    refine Round.error_turns ?_ fun w hw cause hcause => .worker ?_ hcause
    swap
    · rw [← crew_eq_sessions hrunning]
      exact hw
    intro cause h
    cases h
  have hfinal := Round.error_losses (pool.sweepRound read).lost hturns .workerLost
  intro cause h
  refine hfinal cause ?_
  show (pool.sweepRound read).finalTally.error = some cause
  replace h : (pool.sweepRound read).finalTally.outcome = .error cause := h
  rw [Tally.outcome] at h
  split at h
  · rename_i first hfirst
    cases h
    exact hfirst
  · cases h

end Pool

/-! ### Set-ups -/

/-- **A set-up is refused for its settings, for the lack of sessions, or for unknown regions, or it
cannot start a worker.** -/
theorem Pool.failsOnly_setup (pool : Pool ρ) (o : Options) (areas : AreaSet) (visitor : Visitor)
    (alignment : Nat) (flags : SetupFlags) (faults : StartFaults) :
    FailsOnly (fun cause => cause.IsOfSetup ∨ ∃ source, cause = .spawn source)
      (pool.setup o areas visitor alignment flags faults).1 := by
  intro cause h
  have hsetup : pool.setup o areas visitor alignment flags faults =
      (.error cause, (pool.setup o areas visitor alignment flags faults).2) := Prod.ext h rfl
  obtain ⟨-, -, ⟨hcause, -⟩ | ⟨source, hcause, -⟩⟩ := setup_eq_error hsetup
  · exact .inl hcause
  · exact .inr ⟨source, hcause⟩

end PointerChains
