import PointerChains.Proofs.Pool.Sessions
import PointerChains.Proofs.Sweep.Cancellation

/-!
# Cancelled passes

A worker that visits anything in a pass was told of no failure before, so its own failure is the
first one, and the outcome of the pass.  A cancellation seen by a worker is such a failure.

* `Pool.Round.Precedes` — what later turns of a round keep;
* `Pool.exists_turn`, `Pool.log_spec` — the turn of one worker, and what it means for the pass;
* `Pool.halts_behind_cancel` — **how a pass goes on behind a visit that cancels it.**
-/

namespace PointerChains

variable {ρ : Type}

namespace Pool

variable {pool : Pool ρ} {read : ρ → Reader} {session : ρ} {plan : Plan} {n : Nat}

/-! ### First failures -/

theorem Tally.error_record_of_error {t : Tally} {cause : Error} (h : t.error = some cause)
    (worker : Nat) (report : Except Error Stats) : (t.record worker report).error = some cause := by
  rw [Tally.record]
  split
  · cases report with
    | ok stats => exact h
    | error other =>
      rw [h]
      rfl
  · exact h

theorem Tally.error_record_of_none {t : Tally} {worker : Nat} (h : t.error = none)
    (hdone : t.done[worker]? = some false) (cause : Error) :
    (t.record worker (.error cause)).error = some cause := by
  rw [Tally.record, hdone, h]
  rfl

namespace Round

variable {r r' r'' : Round}

/-- What happened in a round by then stays: its first error, its losses and its logs. -/
structure Precedes (r r' : Round) : Prop where
  error_eq : ∀ cause, r.tally.error = some cause → r'.tally.error = some cause
  lost_subset : r.lost ⊆ r'.lost
  logs_prefix : r.logs <+: r'.logs

theorem Precedes.refl (r : Round) : r.Precedes r :=
  ⟨fun _ h => h, List.Subset.refl _, List.prefix_refl _⟩

theorem Precedes.trans (h : r.Precedes r') (h' : r'.Precedes r'') : r.Precedes r'' :=
  ⟨fun cause hc => h'.error_eq cause (h.error_eq cause hc),
    List.Subset.trans h.lost_subset h'.lost_subset, h.logs_prefix.trans h'.logs_prefix⟩

theorem precedes_turn (read : ρ → Reader) (r : Round) (w : (ρ × Plan) × Nat) :
    r.Precedes (r.turn read w) := by
  obtain ⟨report, -, heq⟩ | ⟨-, heq⟩ := r.turn_cases read w.1.1 w.1.2 w.2
  · rw [heq]
    exact ⟨fun cause h => Tally.error_record_of_error h _ _, List.Subset.refl _,
      List.prefix_append ..⟩
  · rw [heq]
    exact ⟨fun _ h => h, List.subset_append_left .., List.prefix_append ..⟩

theorem precedes_turns (read : ρ → Reader) (ws : List ((ρ × Plan) × Nat)) (r : Round) :
    r.Precedes (ws.foldl (turn read) r) := by
  induction ws generalizing r with
  | nil => exact .refl r
  | cons w ws ih => exact (precedes_turn read r w).trans (ih _)

/-- Every worker has its turn, before which it has not reported. -/
theorem exists_turn (read : ρ → Reader) (ws : List (ρ × Plan)) {i : Nat} {w : ρ × Plan}
    (hw : ws[i]? = some w) (h : r.Awaits ((ws.zipIdx n).map Prod.snd)) :
    ∃ r' : Round, r'.tally.done[n + i]? = some false ∧ r'.logs.length = r.logs.length + i ∧
      (r'.turn read (w, n + i)).Precedes ((ws.zipIdx n).foldl (turn read) r) := by
  induction ws generalizing r n i with
  | nil => cases hw
  | cons u ws ih =>
    rw [List.zipIdx_cons, List.map_cons] at h
    have hdone := h.head
    rw [List.zipIdx_cons, List.foldl_cons]
    cases i with
    | zero =>
      cases hw
      exact ⟨r, hdone, rfl, precedes_turns read _ _⟩
    | succ i =>
      have hlogs : (r.turn read (u, n)).logs.length = r.logs.length + 1 := by
        rw [(turn_log read u hdone).1, List.length_append, List.length_singleton]
      have hturn : (r.turn read (u, n)).Awaits ((ws.zipIdx (n + 1)).map Prod.snd) := h.turn
      obtain ⟨r', hdone', hlength', hprecedes⟩ := ih hw hturn
      have hi : n + 1 + i = n + (i + 1) := by omega
      rw [hi] at hdone' hprecedes
      exact ⟨r', hdone', by omega, hprecedes⟩

/-- Lost workers do not make up for a failure. -/
theorem outcome_of_error {cause : Error} (h : r.tally.error = some cause) :
    r.finalTally.outcome = .error cause := by
  have hfinal : ∀ (lost : List Nat) (t : Tally), t.error = some cause →
      (lost.foldl (fun t n => t.record n (.error (.workerLost n))) t).error = some cause := by
    intro lost
    induction lost with
    | nil => exact fun _ ht => ht
    | cons n lost ih => exact fun t ht => ih _ (Tally.error_record_of_error ht _ _)
  rw [Tally.outcome, finalTally, hfinal r.lost r.tally h]

/-- A worker that was told nothing and fails is the first to fail. -/
theorem error_turn (hdone : r.tally.done[n]? = some false) (hclear : r.signals = {}) {cause : Error}
    (hfails : (plan.run (read session) {}).ending = .failed cause) :
    (r.turn read ((session, plan), n)).tally.error = some cause := by
  have hnone : r.tally.error = none := by
    have haborted : r.tally.aborted = false := congrArg Signals.aborted hclear
    exact Option.isNone_iff_eq_none.1 (Option.isSome_eq_false_iff.1 haborted)
  have hsweep : sweepOf read r session plan = plan.run (read session) {} :=
    congrArg (plan.run (read session)) hclear
  obtain ⟨report, hreport, heq⟩ | ⟨hreport, -⟩ := r.turn_cases read session plan n
  · rw [hsweep, Sweep.report?, hfails] at hreport
    cases hreport
    rw [heq]
    exact Tally.error_record_of_none hnone hdone cause
  · rw [hsweep, Sweep.report?, hfails] at hreport
    cases hreport

theorem lost_turn (hclear : r.signals = {})
    (hlost : (plan.run (read session) {}).ending = .lost) :
    n ∈ (r.turn read ((session, plan), n)).lost := by
  have hsweep : sweepOf read r session plan = plan.run (read session) {} :=
    congrArg (plan.run (read session)) hclear
  obtain ⟨report, hreport, -⟩ | ⟨-, heq⟩ := r.turn_cases read session plan n
  · rw [hsweep, Sweep.report?_eq_none_iff.2 hlost] at hreport
    cases hreport
  · rw [heq]
    exact List.mem_append_right _ (List.mem_singleton_self n)

end Round

/-! ### The turn of one worker -/

/-- A pass is refused, or it ends with the outcome of its round. -/
theorem pass_eq (pool : Pool ρ) (read : ρ → Reader) :
    (¬(pool.running = true ∧ pool.plans.length = pool.sessions.length) ∧
      (pool.runPass read).1 = ⟨.error .poolNotSetUp, List.replicate pool.workers []⟩) ∨
      ((pool.running = true ∧ pool.plans.length = pool.sessions.length) ∧ (pool.runPass read).1 =
        ⟨(pool.sweepRound read).finalTally.outcome, (pool.sweepRound read).logs⟩) := by
  rw [runPass]
  split
  · rename_i hidle
    exact .inl ⟨pool.idle_iff.1 hidle, rfl⟩
  · rename_i hready
    rw [idle_iff, not_not] at hready
    refine .inr ⟨hready, ?_⟩
    simp only
    split
    · rename_i stats houtcome
      rw [houtcome]
    · rename_i cause houtcome
      rw [houtcome]

/-- A worker that does anything in a pass was told nothing before, and the pass ends with an error
if it fails or is lost: with its own, if it fails. -/
theorem log_spec (hsession : pool.sessions[n]? = some session) (hplan : pool.plans[n]? = some plan)
    {log : List Event} (hlog : (pool.runPass read).1.logs[n]? = some log) (hne : log ≠ []) :
    log = (plan.run (read session) {}).events ∧
      (∀ cause, (plan.run (read session) {}).ending = .failed cause →
        (pool.runPass read).1.result = .error cause) ∧
      ((plan.run (read session) {}).ending = .lost →
        ∃ cause, (pool.runPass read).1.result = .error cause) := by
  obtain ⟨-, hrefused⟩ | ⟨⟨hrunning, hlength⟩, heq⟩ := pool.pass_eq read
  · rw [hrefused] at hlog
    exact absurd (List.eq_of_mem_replicate (List.mem_of_getElem? hlog)) hne
  rw [heq] at hlog ⊢
  rw [← crew_eq_sessions hrunning] at hsession hlength
  have hw : (pool.crew.zip pool.plans)[n]? = some (session, plan) :=
    List.getElem?_zip_eq_some.2 ⟨hsession, hplan⟩
  have hawaits := awaits_sweepRound hlength
  obtain ⟨r, hdone, hcount, hprecedes⟩ := Round.exists_turn read _ hw hawaits
  rw [Nat.zero_add] at hdone hprecedes
  have hcount : r.logs.length = n := hcount.trans (Nat.zero_add n)
  have hprecedes : (r.turn read ((session, plan), n)).Precedes (pool.sweepRound read) := hprecedes
  obtain ⟨hturn, hlost, -⟩ := Round.turn_log read (session, plan) hdone
  -- the log of the worker is the one that its turn added
  have hevents : log = (plan.run (read session) r.signals).events := by
    obtain ⟨tail, htail⟩ := hprecedes.logs_prefix
    rw [← htail, hturn, List.append_assoc, List.getElem?_append_right (Nat.le_of_eq hcount),
      hcount, Nat.sub_self] at hlog
    exact (Option.some.inj hlog).symm
  obtain ⟨e, he⟩ := List.exists_mem_of_ne_nil log hne
  have hclear : r.signals = {} := by
    rw [hevents] at he
    rw [Plan.run_of_mem he] at he
    exact Plan.signals_of_mem_sweepAll he
  rw [hclear] at hevents
  refine ⟨hevents, ?_, ?_⟩
  · intro cause hfails
    exact Round.outcome_of_error (hprecedes.error_eq cause (Round.error_turn hdone hclear hfails))
  · intro hlost
    cases houtcome : (pool.sweepRound read).finalTally.outcome with
    | error cause => exact ⟨cause, rfl⟩
    | ok stats =>
      have hnone := (clean_sweepRound hlength houtcome).1.lost_eq
      have hmem := hprecedes.lost_subset (Round.lost_turn hclear hlost)
      rw [hnone] at hmem
      cases hmem

/-! ### Cancelled passes -/

/-- **A worker whose visit cancels the pass goes on in the region of that visit at most, and only by
filling its window up behind a rest.**  In tight plans that takes no read, so that it reads at most
once more.  The pass is cancelled, unless the region was the last and its end is reached without
another read of an empty window, or the worker ends by itself, which is an error, too. -/
theorem halts_behind_cancel (hsession : pool.sessions[n]? = some session)
    (hplan : pool.plans[n]? = some plan) {first after : List Event} {v : Visit}
    (hlog : (pool.runPass read).1.logs[n]? = some (first ++ .visit v :: after))
    (hcancel : plan.cancelsAt v = true) :
    Refills after ∧ (plan.IsTight → readsOf after.dropLast = []) ∧
      ∃ done a todo, plan.areas = done ++ a :: todo ∧
        (∀ e ∈ Event.visit v :: after, e.Inside a) ∧
        ((pool.runPass read).1.result = .error .cancelled ∨
          (todo = [] ∧ ∀ r, after.getLast? ≠ some (.read r)) ∨
          ∃ e ending cause, (Event.visit v :: after).getLast? = some e ∧
            plan.endingOf? (read session) e = some ending ∧
            (ending = .failed cause ∨ ending = .lost) ∧
            (pool.runPass read).1.result = .error cause) := by
  obtain ⟨hevents, hfailed, hlost⟩ := log_spec hsession hplan hlog (by simp)
  have hvisit : Event.visit v ∈ first ++ Event.visit v :: after :=
    List.mem_append_right _ (List.mem_cons_self ..)
  rw [hevents] at hvisit
  rw [Plan.run_of_mem hvisit] at hevents hfailed hlost
  obtain ⟨hrefills, htight, done, a, todo, hareas, hinside, hends⟩ :=
    Plan.haltsBehind_sweepAll hevents.symm hcancel
  refine ⟨hrefills, htight, done, a, todo, hareas, hinside, ?_⟩
  obtain ⟨-, hlast⟩ | hcancelled | ⟨e, he, hitself⟩ := hends
  · exact .inr (.inl hlast)
  · exact .inl (hfailed _ hcancelled)
  · refine .inr (.inr ⟨e, (plan.sweepAll (read session) {} plan.areas).ending, ?_⟩)
    obtain hending | ⟨cause, hending⟩ := Plan.endingOf?_eq_some hitself
    · obtain ⟨cause, hresult⟩ := hlost hending
      exact ⟨cause, he, hitself, .inr hending, hresult⟩
    · exact ⟨cause, he, hitself, .inl hending, hfailed cause hending⟩

/-- Words of four bytes, pointers of eight, and a visitor that cancels at the first word. -/
def cancelsFirst : Plan :=
  { areas := [⟨⟨0⟩, .ofNat 0x1000, .ofNat 0x1040⟩]
    visitor := fun v => .advance 4 (v.offset == 0)
    alignment := 4, width := .eight, bufferSize := 16 }

/-- A pool with one worker that is to sweep so. -/
def oneWorker : Pool Unit :=
  { idle := [], crew := [()], plans := [cancelsFirst], apart := .inr rfl }

def lowBytes : Unit → Reader := fun _ => Image.lowBytes.reader

/-- The visit that cancels the pass, and what the worker does behind it. -/
def firstVisit : Visit :=
  { address := .ofNat 0x1000, region := ⟨0⟩, offset := 0, remaining := 16
    bytes := Image.lowBytes.read 0x1000 16 }

def behindFirst : List Event := (oneWorker.runPass lowBytes).1.logs.flatten.drop 2

theorem log_oneWorker : (oneWorker.runPass lowBytes).1.logs[0]? =
    some ([.read ⟨.ofNat 0x1000, 16⟩] ++ .visit firstVisit :: behindFirst) := by
  decide +kernel

theorem halts_behind_cancel_oneWorker :
    (oneWorker.sessions[0]? = some () ∧ oneWorker.plans[0]? = some cancelsFirst ∧
      (oneWorker.runPass lowBytes).1.logs[0]? =
        some ([.read ⟨.ofNat 0x1000, 16⟩] ++ .visit firstVisit :: behindFirst) ∧
      cancelsFirst.cancelsAt firstVisit = true) ∧
    Refills behindFirst ∧
      ∃ done a todo, cancelsFirst.areas = done ++ a :: todo ∧
        ∀ e ∈ Event.visit firstVisit :: behindFirst, e.Inside a := by
  have hsession : oneWorker.sessions[0]? = some () := rfl
  have hplan : oneWorker.plans[0]? = some cancelsFirst := rfl
  obtain ⟨hrefills, -, done, a, todo, hareas, hinside, -⟩ :=
    halts_behind_cancel hsession hplan log_oneWorker (by decide)
  exact ⟨⟨hsession, hplan, log_oneWorker, by decide⟩, hrefills, done, a, todo, hareas, hinside⟩

/-- **A cancelled pass can sweep its region to the end**: four more reads fill the window up behind
a rest, and the pass ends with totals. -/
theorem not_cancelled_oneWorker :
    ∃ first v after, (oneWorker.runPass lowBytes).1.logs[0]? = some (first ++ .visit v :: after) ∧
      cancelsFirst.cancelsAt v = true ∧ (readsOf after).length = 4 ∧
      (oneWorker.runPass lowBytes).1.result = .ok ⟨16, 64⟩ := by
  refine ⟨_, firstVisit, behindFirst, log_oneWorker, by decide, ?_, ?_⟩
  · decide +kernel
  · decide +kernel

end Pool

end PointerChains
