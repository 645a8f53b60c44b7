import PointerChains.Pool.Basic
import PointerChains.Proofs.Sweep.Share

/-!
# Rounds that go well

A pass is one turn of each worker.  If it ends with totals, no turn failed and no worker was lost,
since neither is ever taken back, so each worker swept its share to the end.

* `Round.Clean` — nothing has failed so far; later turns do not mend what has;
* `Round.Awaits` — which workers are still to report;
* `Round.turns_of_clean` — what the workers of a clean round did;
* `Pool.roundBy` — the workers take their turns in some order;
* `Pool.roundBy_of_ok` — what they did if the pass ends with totals, which is the same in any order.
-/

namespace PointerChains

variable {ρ : Type}

/-! ### Tallies -/

namespace Tally

variable {t : Tally} {worker n : Nat} {report : Except Error Stats}

theorem error_record (t : Tally) (worker : Nat) (report : Except Error Stats)
    (h : (t.record worker report).error = none) : t.error = none := by
  rw [record] at h
  split at h
  · cases report with
    | ok stats => exact h
    | error cause =>
      cases herror : t.error with
      | none => rfl
      | some first =>
        rw [herror] at h
        cases h
  · exact h

theorem done_record_of_ne (h : worker ≠ n) : (t.record worker report).done[n]? = t.done[n]? := by
  rw [record]
  split
  · cases report with
    | ok stats => exact List.getElem?_set_ne h
    | error cause => exact List.getElem?_set_ne h
  · rfl

theorem record_ok (h : t.done[worker]? = some false) (stats : Stats) :
    (t.record worker (.ok stats)).stats = t.stats + stats := by
  rw [record]
  rw [h]

theorem error_record_ok (t : Tally) (worker : Nat) (stats : Stats) :
    (t.record worker (.ok stats)).error = t.error := by
  rw [record]
  split
  · rfl
  · rfl

theorem error_record_error (h : t.done[worker]? = some false) (cause : Error) :
    (t.record worker (.error cause)).error ≠ none := by
  rw [record]
  rw [h]
  cases t.error with
  | none => exact Option.some_ne_none cause
  | some first => exact Option.some_ne_none first

theorem outcome_eq_ok_iff {stats : Stats} :
    t.outcome = .ok stats ↔ t.error = none ∧ t.stats = stats := by
  rw [outcome]
  cases t.error with
  | none => simp only [Except.ok.injEq, true_and]
  | some cause => simp only [reduceCtorEq, false_and]

end Tally

namespace Pool.Round

variable {read : ρ → Reader} {r : Round} {session : ρ} {plan : Plan} {n count : Nat}
  {later : List Nat}

/-- What a worker does in its turn. -/
def sweepOf (read : ρ → Reader) (r : Round) (session : ρ) (plan : Plan) : Sweep :=
  plan.run (read session) { cancelled := r.cancelled, aborted := r.tally.aborted }

/-- All that a turn can do: the report is recorded, or the worker is lost. -/
theorem turn_cases (read : ρ → Reader) (r : Round) (session : ρ) (plan : Plan) (n : Nat) :
    (∃ report, (sweepOf read r session plan).report? = some report ∧
      r.turn read ((session, plan), n) =
        { r with tally := r.tally.record n report
                 cancelled := (sweepOf read r session plan).cancelled
                 logs := r.logs ++ [(sweepOf read r session plan).events] }) ∨
    ((sweepOf read r session plan).report? = none ∧
      r.turn read ((session, plan), n) =
        { r with cancelled := (sweepOf read r session plan).cancelled
                 logs := r.logs ++ [(sweepOf read r session plan).events]
                 lost := r.lost ++ [n] }) := by
  simp only [turn, sweepOf]
  split
  · rename_i report hreport
    exact .inl ⟨report, hreport, rfl⟩
  · rename_i hreport
    exact .inr ⟨hreport, rfl⟩

/-! ### Failures stay -/

/-- No worker has failed, and none was lost. -/
structure Clean (r : Round) : Prop where
  error_eq : r.tally.error = none
  lost_eq : r.lost = []

theorem clean_of_turn (w : (ρ × Plan) × Nat) (h : (r.turn read w).Clean) : r.Clean := by
  obtain ⟨herror, hlost⟩ := h
  obtain ⟨report, -, heq⟩ | ⟨-, heq⟩ := r.turn_cases read w.1.1 w.1.2 w.2
  · rw [heq] at herror hlost
    exact ⟨Tally.error_record _ _ _ herror, hlost⟩
  · rw [heq] at hlost
    exact absurd hlost (List.append_ne_nil_of_right_ne_nil _ (List.cons_ne_nil _ _))

theorem clean_of_turns (ws : List ((ρ × Plan) × Nat)) (h : (ws.foldl (turn read) r).Clean) :
    r.Clean := by
  induction ws generalizing r with
  | nil => exact h
  | cons w ws ih => exact clean_of_turn w (ih h)

/-! ### Workers that are to report -/

/-- The workers of these numbers have not reported; neither have the lost ones, which are others. -/
structure Awaits (r : Round) (later : List Nat) : Prop where
  nodup : later.Nodup
  done_eq : ∀ i ∈ later, r.tally.done[i]? = some false
  lost : ∀ i ∈ r.lost, i ∉ later ∧ r.tally.done[i]? = some false

theorem awaits_start (cancelled : Bool) (hnodup : later.Nodup) (hlt : ∀ i ∈ later, i < count) :
    ({ tally := .start count, cancelled } : Round).Awaits later where
  nodup := hnodup
  done_eq := by
    intro i hi
    show (List.replicate count false)[i]? = some false
    rw [List.getElem?_replicate, if_pos (hlt i hi)]
  lost := by
    intro i hi
    cases hi

theorem Awaits.head (h : r.Awaits (n :: later)) : r.tally.done[n]? = some false :=
  h.done_eq n (List.mem_cons_self ..)

theorem Awaits.turn (h : r.Awaits (n :: later)) :
    (r.turn read ((session, plan), n)).Awaits later := by
  obtain ⟨hfirst, hnodup⟩ := List.nodup_cons.1 h.nodup
  obtain ⟨report, -, heq⟩ | ⟨-, heq⟩ := r.turn_cases read session plan n
  · rw [heq]
    refine ⟨hnodup, ?_, ?_⟩
    · intro i hi
      rw [Tally.done_record_of_ne (by rintro rfl; exact hfirst hi)]
      exact h.done_eq i (List.mem_cons_of_mem n hi)
    · intro i hi
      obtain ⟨hothers, hdone⟩ := h.lost i hi
      obtain ⟨hne, hlater⟩ := not_or.1 (mt List.mem_cons.2 hothers)
      refine ⟨hlater, ?_⟩
      rw [Tally.done_record_of_ne (Ne.symm hne)]
      exact hdone
  · rw [heq]
    refine ⟨hnodup, fun i hi => h.done_eq i (List.mem_cons_of_mem n hi), ?_⟩
    intro i hi
    rcases List.mem_append.1 hi with hi | hi
    · obtain ⟨hothers, hdone⟩ := h.lost i hi
      exact ⟨fun hlater => hothers (List.mem_cons_of_mem n hlater), hdone⟩
    · rw [List.mem_singleton.1 hi]
      exact ⟨hfirst, h.head⟩

theorem Awaits.turns (read : ρ → Reader) (ws : List ((ρ × Plan) × Nat))
    (h : r.Awaits (ws.map Prod.snd)) : (ws.foldl (Round.turn read) r).Awaits [] := by
  induction ws generalizing r with
  | nil => exact h
  | cons w ws ih => exact ih h.turn

theorem error_foldl_lost (lost : List Nat) (t : Tally)
    (h : (lost.foldl (fun t n => t.record n (.error (.workerLost n))) t).error = none) :
    t.error = none := by
  induction lost generalizing t with
  | nil => exact h
  | cons n lost ih => exact Tally.error_record _ _ _ (ih _ h)

/-- A round whose outcome is totals is clean: a lost worker would have been noticed. -/
theorem Awaits.clean_of_outcome {stats : Stats} (h : r.Awaits [])
    (hok : r.finalTally.outcome = .ok stats) : r.Clean ∧ r.tally.stats = stats := by
  obtain ⟨herror, hstats⟩ := Tally.outcome_eq_ok_iff.1 hok
  rw [finalTally] at herror hstats
  cases hlost : r.lost with
  | nil =>
    rw [hlost] at herror hstats
    exact ⟨⟨herror, hlost⟩, hstats⟩
  | cons n rest =>
    rw [hlost, List.foldl_cons] at herror
    have hdone := (h.lost n (by rw [hlost]; exact List.mem_cons_self ..)).2
    exact absurd (error_foldl_lost rest _ herror) (Tally.error_record_error hdone _)

/-! ### Clean turns -/

/-- A worker whose turn leaves the round clean has swept its share to the end. -/
theorem turn_of_clean (hdone : r.tally.done[n]? = some false)
    (h : (r.turn read ((session, plan), n)).Clean) :
    plan.bufferSize ≤ largestBuffer ∧ plan.Completes (read session) plan.areas ∧
      (r.turn read ((session, plan), n)).logs = r.logs ++ [plan.log (read session) plan.areas] ∧
      (r.turn read ((session, plan), n)).tally.stats = r.tally.stats +
        ⟨(visitsOf (plan.log (read session) plan.areas)).length,
          (plan.areas.map Area.size).sum⟩ := by
  have hbefore := clean_of_turn _ h
  have haborted : r.tally.aborted = false := by
    rw [Tally.aborted, hbefore.error_eq]
    rfl
  obtain ⟨report, hreport, heq⟩ | ⟨-, heq⟩ := r.turn_cases read session plan n
  · rw [heq] at h ⊢
    cases report with
    | ok stats =>
      obtain ⟨hfits, hall, hevents, rfl⟩ := Plan.run_of_report haborted hreport
      refine ⟨hfits, hall, ?_, Tally.record_ok hdone _⟩
      rw [← hevents]
      rfl
    | error cause => exact absurd h.error_eq (Tally.error_record_error hdone cause)
  · rw [heq] at h
    exact absurd h.lost_eq (List.append_ne_nil_of_right_ne_nil _ (List.cons_ne_nil _ _))

/-- What a worker leaves in the log. -/
def logOf (read : ρ → Reader) (w : ρ × Plan) : List Event := w.2.log (read w.1) w.2.areas

/-- In a clean round every worker has swept its share to the end. -/
theorem turns_of_clean (ws : List ((ρ × Plan) × Nat)) (hawaits : r.Awaits (ws.map Prod.snd))
    (h : (ws.foldl (turn read) r).Clean) :
    (∀ w ∈ ws.map Prod.fst,
      w.2.bufferSize ≤ largestBuffer ∧ w.2.Completes (read w.1) w.2.areas) ∧
      (ws.foldl (turn read) r).logs = r.logs ++ (ws.map Prod.fst).map (logOf read) ∧
      (ws.foldl (turn read) r).tally.stats = r.tally.stats +
        ⟨(visitsOf ((ws.map Prod.fst).flatMap (logOf read))).length,
          (((ws.map Prod.fst).flatMap fun w => w.2.areas).map Area.size).sum⟩ := by
  induction ws generalizing r with
  | nil =>
    refine ⟨?_, (List.append_nil _).symm, rfl⟩
    intro w hw
    cases hw
  | cons w ws ih =>
    rw [List.foldl_cons] at h ⊢
    rw [List.map_cons] at hawaits ⊢
    obtain ⟨hfits, hfirst, hlog, hstats⟩ := turn_of_clean hawaits.head (clean_of_turns _ h)
    obtain ⟨hrest, hlogs, hsum⟩ := ih hawaits.turn h
    refine ⟨List.forall_mem_cons.2 ⟨⟨hfits, hfirst⟩, hrest⟩, ?_, ?_⟩
    · rw [hlogs, hlog, List.append_assoc, List.map_cons]
      rfl
    · rw [hsum, hstats, Stats.add_assoc, Stats.mk_add_mk, List.flatMap_cons, List.flatMap_cons,
        visitsOf_append, List.length_append, List.map_append, List.sum_append]
      rfl

end Pool.Round

/-! ### Passes -/

/-- The round of a pool in which the workers take their turns in some order. -/
def Pool.roundBy (pool : Pool ρ) (read : ρ → Reader) (turns : List ((ρ × Plan) × Nat)) : Round :=
  turns.foldl (Round.turn read)
    { tally := .start pool.crew.length, cancelled := pool.cancel.isSet }

namespace Pool

variable {pool : Pool ρ} {read : ρ → Reader} {turns : List ((ρ × Plan) × Nat)} {stats : Stats}

/-- A pass starts with all workers to report. -/
theorem awaits_roundBy (hlength : pool.plans.length = pool.crew.length)
    (hperm : turns.Perm (pool.crew.zip pool.plans).zipIdx) :
    ({ tally := .start pool.crew.length, cancelled := pool.cancel.isSet } : Round).Awaits
      (turns.map Prod.snd) := by
  have hnumbers : (turns.map Prod.snd).Perm (List.range' 0 pool.crew.length) := by
    have hworkers : (pool.crew.zip pool.plans).length = pool.crew.length := by
      rw [List.length_zip, hlength, Nat.min_self]
    rw [← hworkers, ← List.zipIdx_map_snd]
    exact hperm.map Prod.snd
  apply Round.awaits_start
  · exact hnumbers.nodup_iff.2 List.nodup_range'
  · intro i hi
    obtain ⟨k, hk, rfl⟩ := List.mem_range'.1 (hnumbers.mem_iff.1 hi)
    omega

theorem awaits_sweepRound (hlength : pool.plans.length = pool.crew.length) :
    ({ tally := .start pool.crew.length, cancelled := pool.cancel.isSet } : Round).Awaits
      ((pool.crew.zip pool.plans).zipIdx.map Prod.snd) :=
  awaits_roundBy hlength (.refl _)

/-- In a pass that ends with totals no worker has failed or was lost. -/
theorem clean_sweepRound (hlength : pool.plans.length = pool.crew.length)
    (h : (pool.sweepRound read).finalTally.outcome = .ok stats) :
    (pool.sweepRound read).Clean ∧ (pool.sweepRound read).tally.stats = stats :=
  ((awaits_sweepRound hlength).turns read _).clean_of_outcome h

/-- In a pass that ends with totals every worker has swept its share to the end, whichever had its
turn first. -/
theorem roundBy_of_ok (hlength : pool.plans.length = pool.crew.length)
    (hperm : turns.Perm (pool.crew.zip pool.plans).zipIdx)
    (h : (pool.roundBy read turns).finalTally.outcome = .ok stats) :
    (∀ w ∈ turns.map Prod.fst,
      w.2.bufferSize ≤ largestBuffer ∧ w.2.Completes (read w.1) w.2.areas) ∧
      (pool.roundBy read turns).logs = (turns.map Prod.fst).map (Round.logOf read) ∧
      stats = ⟨(visitsOf ((turns.map Prod.fst).flatMap (Round.logOf read))).length,
        (((turns.map Prod.fst).flatMap fun w => w.2.areas).map Area.size).sum⟩ := by
  have hawaits := awaits_roundBy hlength hperm
  obtain ⟨hclean, hstats⟩ := (hawaits.turns read turns).clean_of_outcome h
  obtain ⟨hall, hlogs, hsum⟩ := Round.turns_of_clean turns hawaits hclean
  refine ⟨hall, hlogs, ?_⟩
  rw [← hstats]
  exact hsum.trans (Stats.zero_add _)

theorem sweepRound_of_ok (hlength : pool.plans.length = pool.crew.length)
    (h : (pool.sweepRound read).finalTally.outcome = .ok stats) :
    (∀ w ∈ pool.crew.zip pool.plans,
      w.2.bufferSize ≤ largestBuffer ∧ w.2.Completes (read w.1) w.2.areas) ∧
      (pool.sweepRound read).logs = (pool.crew.zip pool.plans).map (Round.logOf read) ∧
      stats = ⟨(visitsOf ((pool.crew.zip pool.plans).flatMap (Round.logOf read))).length,
        (((pool.crew.zip pool.plans).flatMap fun w => w.2.areas).map Area.size).sum⟩ := by
  have hround := roundBy_of_ok hlength (.refl _) h
  rw [List.zipIdx_map_fst] at hround
  exact hround

end Pool

end PointerChains
