import PointerChains.Proofs.Pool.History
import PointerChains.Proofs.Sweep.Breakdown

/-!
# The sessions of a pool

Sessions move to the workers and back.  A worker that breaks down takes its session with it; so does
one that cannot be started, with the sessions behind it.  Whatever is done with a pool, it has the
other sessions in their order.  A pool that runs sweeps with all of them, and one that does not has
them idle, and refuses passes until a set-up is accepted.

* `Pool.brokenFrom` — the workers that broke down, by what they did;
* `Pool.Operation`, `Pool.perform`, `Pool.run` — operations, and what they leave;
* `Pool.losses`, `Pool.drops`, `Pool.kept` — the sessions that go, and those that stay;
* `Pool.IsUp`, `Pool.IsDown` — pools that sweep, and pools that refuse to;
* `Pool.sessions_conserved` — **every history keeps the sessions that were not lost.**
-/

namespace PointerChains

variable {ρ : Type}

namespace Pool

variable {pool : Pool ρ} {read : ρ → Reader} {r : Round} {n : Nat}

/-! ### Broken workers -/

/-- The workers that broke down, counted from `n` on, by their plans and what they did. -/
def brokenFrom (n : Nat) (plans : List Plan) (logs : List (List Event)) : List Nat :=
  (((plans.zip logs).zipIdx n).filter fun w => w.1.1.brokeIn w.1.2).map Prod.snd

theorem brokenFrom_cons (n : Nat) (plan : Plan) (plans : List Plan) (log : List Event)
    (logs : List (List Event)) : brokenFrom n (plan :: plans) (log :: logs) =
      (if plan.brokeIn log then [n] else []) ++ brokenFrom (n + 1) plans logs := by
  simp only [brokenFrom, List.zip_cons_cons, List.zipIdx_cons, List.filter_cons]
  split
  · rfl
  · rfl

/-- What a sweep leaves for the next worker: whether the pass is cancelled now, and whether a worker
has failed so far. -/
def signalsAfter (signals : Signals) (sweep : Sweep) : Signals where
  cancelled := sweep.cancelled
  aborted :=
    match sweep.ending with
    | .failed _ => true
    | _ => signals.aborted

/-- What workers do that sweep by their plans one after the other. -/
def logsOf (read : ρ → Reader) : Signals → List (ρ × Plan) → List (List Event)
  | _, [] => []
  | signals, w :: ws =>
    let sweep := w.2.run (read w.1) signals
    sweep.events :: logsOf read (signalsAfter signals sweep) ws

/-- What the next worker is told. -/
def Round.signals (r : Round) : Signals := { cancelled := r.cancelled, aborted := r.tally.aborted }

/-- The first report of a worker makes the others give up if it is a failure. -/
theorem Round.signals_record {sweep : Sweep} {report : Except Error Stats}
    (hdone : r.tally.done[n]? = some false) (hreport : sweep.report? = some report) :
    (r.tally.record n report).aborted = (signalsAfter r.signals sweep).aborted := by
  rw [Sweep.report?] at hreport
  rw [signalsAfter, Tally.aborted, Tally.record, hdone]
  cases hending : sweep.ending with
  | failed cause =>
    rw [hending] at hreport
    cases hreport
    cases herror : r.tally.error with
    | none => rfl
    | some first => rfl
  | complete =>
    rw [hending] at hreport
    cases hreport
    rfl
  | stopped =>
    rw [hending] at hreport
    cases hreport
    rfl
  | lost =>
    rw [hending] at hreport
    cases hreport

/-- A turn logs what the worker did, and notes it if it broke down. -/
theorem Round.turn_log (read : ρ → Reader) (w : ρ × Plan) (hdone : r.tally.done[n]? = some false) :
    (r.turn read (w, n)).logs = r.logs ++ [(w.2.run (read w.1) r.signals).events] ∧
      (r.turn read (w, n)).lost = r.lost ++
        (if w.2.brokeIn (w.2.run (read w.1) r.signals).events then [n] else []) ∧
      (r.turn read (w, n)).signals = signalsAfter r.signals (w.2.run (read w.1) r.signals) := by
  have hbroke : (w.2.run (read w.1) r.signals).report? = none ↔
      w.2.brokeIn (w.2.run (read w.1) r.signals).events = true := Plan.report?_run_eq_none_iff
  obtain ⟨report, hreport, heq⟩ | ⟨hreport, heq⟩ := r.turn_cases read w.1 w.2 n
  · have hreport : (w.2.run (read w.1) r.signals).report? = some report := hreport
    have hholds : ¬w.2.brokeIn (w.2.run (read w.1) r.signals).events = true := by
      rw [← hbroke, hreport]
      exact Option.some_ne_none report
    rw [heq, if_neg hholds, List.append_nil]
    refine ⟨rfl, rfl, ?_⟩
    rw [Round.signals, signals_record hdone hreport]
    rfl
  · rw [heq, if_pos (hbroke.1 hreport)]
    refine ⟨rfl, rfl, ?_⟩
    have hending : (w.2.run (read w.1) r.signals).ending = .lost :=
      Sweep.report?_eq_none_iff.1 hreport
    rw [signalsAfter, hending]
    rfl

/-- The turns log what the workers do one after the other, and note those that break down. -/
theorem Round.turns_logs (read : ρ → Reader) (ws : List (ρ × Plan))
    (h : r.Awaits ((ws.zipIdx n).map Prod.snd)) :
    ((ws.zipIdx n).foldl (turn read) r).logs = r.logs ++ logsOf read r.signals ws ∧
      ((ws.zipIdx n).foldl (turn read) r).lost =
        r.lost ++ brokenFrom n (ws.map Prod.snd) (logsOf read r.signals ws) := by
  induction ws generalizing r n with
  | nil => exact ⟨by simp [logsOf], by simp [logsOf, brokenFrom]⟩
  | cons w ws ih =>
    rw [List.zipIdx_cons, List.map_cons] at h
    obtain ⟨hlog, hlost, hsignals⟩ := turn_log read w h.head
    have hturn : (r.turn read (w, n)).Awaits ((ws.zipIdx (n + 1)).map Prod.snd) := h.turn
    obtain ⟨hlogs, hlosts⟩ := ih hturn
    rw [hsignals] at hlogs hlosts
    rw [List.zipIdx_cons, List.foldl_cons, logsOf]
    refine ⟨?_, ?_⟩
    · rw [hlogs, hlog, List.append_assoc]
      rfl
    · rw [hlosts, hlost, List.append_assoc, List.map_cons, brokenFrom_cons]

/-- What the workers do in a pass. -/
def passLogs (pool : Pool ρ) (read : ρ → Reader) : List (List Event) :=
  logsOf read { cancelled := pool.cancel.isSet } (pool.sessions.zip pool.plans)

/-- The lost workers of a pass are those that broke down. -/
theorem sweepRound_logs (hrunning : pool.running = true)
    (hlength : pool.plans.length = pool.sessions.length) (read : ρ → Reader) :
    (pool.sweepRound read).logs = pool.passLogs read ∧
      (pool.sweepRound read).lost = brokenFrom 0 pool.plans (pool.sweepRound read).logs := by
  have hcrew := crew_eq_sessions hrunning
  rw [← hcrew] at hlength
  obtain ⟨hlogs, hlost⟩ := Round.turns_logs read _ (awaits_sweepRound hlength)
  rw [List.map_snd_zip (Nat.le_of_eq hlength)] at hlost
  have hpass : (pool.sweepRound read).logs = pool.passLogs read := by
    rw [passLogs, ← hcrew]
    exact hlogs
  refine ⟨hpass, ?_⟩
  rw [hpass, passLogs, ← hcrew]
  exact hlost

/-! ### Operations -/

/-- What can be done with a pool.  Its token may be set or cleared from elsewhere. -/
inductive Operation (ρ : Type) where
  | setup (o : Options) (areas : AreaSet) (visitor : Visitor) (alignment : Nat)
      (flags : SetupFlags) (faults : StartFaults)
  | pass (read : ρ → Reader)
  | shutdown
  | signal (token : Token)

/-- The pool after an operation. -/
def perform (pool : Pool ρ) : Operation ρ → Pool ρ
  | .setup o areas visitor alignment flags faults =>
    (pool.setup o areas visitor alignment flags faults).2
  | .pass read => (pool.runPass read).2
  | .shutdown => pool.shutdown
  | .signal token => { pool with cancel := token }

/-- The pool after operations. -/
def run (pool : Pool ρ) (ops : List (Operation ρ)) : Pool ρ := ops.foldl perform pool

/-- The workers that break down in an operation. -/
def losses (pool : Pool ρ) : Operation ρ → List Nat
  | .pass read => brokenFrom 0 pool.plans (pool.runPass read).1.logs
  | _ => []

/-- The number of sessions that go down with a worker that cannot be started: its own, and those
behind it. -/
def drops (pool : Pool ρ) : Operation ρ → Nat
  | .setup o areas visitor alignment flags faults =>
    match (pool.setup o areas visitor alignment flags faults).1 with
    | .error (.spawn _) => pool.sessions.length - started faults pool.sessions.length
    | _ => 0
  | _ => 0

/-- What an operation leaves of the sessions: those whose workers do not break down, and of these
the ones in front of a worker that cannot be started. -/
def kept (pool : Pool ρ) (op : Operation ρ) (sessions : List ρ) : List ρ :=
  (survivors sessions (pool.losses op)).take (sessions.length - pool.drops op)

/-- What operations leave of the sessions. -/
def remaining : Pool ρ → List (Operation ρ) → List ρ → List ρ
  | _, [], sessions => sessions
  | pool, op :: ops, sessions => remaining (pool.perform op) ops (pool.kept op sessions)

/-- A running pool has a plan for each session, and its partition was made for some worker. -/
structure Regular (pool : Pool ρ) : Prop where
  plans : pool.running = true → pool.plans.length = pool.sessions.length
  dealt : pool.partition.Dealt

theorem Regular.of_make {sessions : List ρ} (h : Pool.make sessions = .ok pool) :
    pool.Regular ∧ pool.sessions = sessions := by
  rw [make] at h
  split at h
  · cases h
  · cases h
    refine ⟨⟨?_, Partition.dealt_default⟩, List.append_nil sessions⟩
    intro hrunning
    cases hrunning

theorem Regular.of_stopped {after : Pool ρ} (hdealt : after.partition.Dealt)
    (hstopped : after.running = false) : after.Regular := by
  refine ⟨?_, hdealt⟩
  intro hrunning
  rw [hstopped] at hrunning
  cases hrunning

theorem Regular.setup (h : pool.Regular) (o : Options) (areas : AreaSet) (visitor : Visitor)
    (alignment : Nat) (flags : SetupFlags) (faults : StartFaults) :
    (pool.setup o areas visitor alignment flags faults).2.Regular := by
  cases hsetup : pool.setup o areas visitor alignment flags faults with
  | mk result after =>
    cases result with
    | error cause =>
      obtain ⟨hplans, hpartition, hcause⟩ := setup_eq_error hsetup
      refine ⟨?_, ?_⟩
      · intro hrunning
        obtain ⟨-, hsessions⟩ | ⟨-, -, hstopped, -⟩ := hcause
        · obtain ⟨hbefore, hsame⟩ := hplans hrunning
          rw [hsame, hsessions]
          exact h.plans hbefore
        · rw [hstopped] at hrunning
          cases hrunning
      · rcases hpartition with hsame | ⟨m, made, hupdate⟩
        · rw [hsame]
          exact h.dealt
        · exact h.dealt.update hupdate
    | ok _ =>
      obtain ⟨-, -, m, made, -, hupdate, -⟩ := setup_eq_ok hsetup
      exact ⟨fun _ => length_plans_of_setup hsetup, h.dealt.update hupdate⟩

theorem Regular.runPass (h : pool.Regular) (read : ρ → Reader) :
    (pool.runPass read).2.Regular := by
  obtain ⟨-, heq⟩ | ⟨stats, cancel, -, -, -, heq⟩ | ⟨cause, -, hpartition, hstopped, -⟩ :=
    pool.runPass_cases read
  · rw [heq]
    exact h
  · rw [heq]
    exact ⟨h.plans, h.dealt⟩
  · refine .of_stopped ?_ hstopped
    rw [hpartition]
    exact h.dealt

theorem Regular.perform (h : pool.Regular) (op : Operation ρ) : (pool.perform op).Regular := by
  cases op with
  | setup o areas visitor alignment flags faults =>
    exact h.setup o areas visitor alignment flags faults
  | pass read => exact h.runPass read
  | shutdown =>
    refine .of_stopped ?_ (running_shutdown pool)
    show pool.shutdown.partition.Dealt
    rw [partition_shutdown]
    exact h.dealt
  | signal token => exact ⟨h.plans, h.dealt⟩

theorem Regular.run (h : pool.Regular) (ops : List (Operation ρ)) : (pool.run ops).Regular := by
  induction ops generalizing pool with
  | nil => exact h
  | cons op ops ih => exact ih (h.perform op)

/-! ### Up and down -/

/-- Every pass is refused: no worker does anything, and the pool stays as it is. -/
def IsDown (pool : Pool ρ) : Prop :=
  pool.running = false ∧ ∀ read,
    pool.runPass read = (⟨.error .poolNotSetUp, List.replicate pool.workers []⟩, pool)

/-- The operation is a set-up that is accepted. -/
def Accepts (pool : Pool ρ) : Operation ρ → Prop
  | .setup o areas visitor alignment flags faults =>
    (pool.setup o areas visitor alignment flags faults).1 = .ok ()
  | _ => False

/-- No set-up among the operations is accepted. -/
def AcceptsNone : Pool ρ → List (Operation ρ) → Prop
  | _, [] => True
  | pool, op :: ops => ¬pool.Accepts op ∧ AcceptsNone (pool.perform op) ops

theorem isDown_of_running_eq_false (h : pool.running = false) : pool.IsDown := by
  refine ⟨h, ?_⟩
  intro read
  rw [Pool.runPass, h]
  rfl

/-- Only a set-up that is accepted brings a pool up. -/
theorem IsDown.perform (h : pool.IsDown) {op : Operation ρ} (hop : ¬pool.Accepts op) :
    (pool.perform op).IsDown := by
  apply isDown_of_running_eq_false
  cases op with
  | setup o areas visitor alignment flags faults =>
    show (pool.setup o areas visitor alignment flags faults).2.running = false
    cases hsetup : pool.setup o areas visitor alignment flags faults with
    | mk result after =>
      cases result with
      | error cause =>
        have hplans := (setup_eq_error hsetup).1
        rw [← Bool.not_eq_true]
        intro hrunning
        have hbefore := (hplans hrunning).1
        rw [h.1] at hbefore
        cases hbefore
      | ok _ => exact absurd (congrArg Prod.fst hsetup) hop
  | pass read =>
    show (pool.runPass read).2.running = false
    rw [h.2 read]
    exact h.1
  | shutdown => exact running_shutdown pool
  | signal token => exact h.1

theorem IsDown.run (h : pool.IsDown) {ops : List (Operation ρ)} (hops : pool.AcceptsNone ops) :
    (pool.run ops).IsDown := by
  induction ops generalizing pool with
  | nil => exact h
  | cons op ops ih => exact ih (h.perform hops.1) hops.2

/-- Of three sessions only the first is left if the second worker cannot be started. -/
example : (({ idle := ["first", "second", "third"] } : Pool String).setup .twoRegions
    ⟨[⟨0⟩, ⟨1⟩], 1⟩ crashBelow 8 {} fun n => if n = 1 then some "no threads" else none).2.idle =
      ["first"] := by
  cbv

end Pool

end PointerChains
