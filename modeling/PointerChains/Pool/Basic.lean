import PointerChains.Balance
import PointerChains.Pool.Tally
import PointerChains.Selection
import PointerChains.Options.PointerScan
import PointerChains.Token

/-!
# Pools of workers

A pool owns the sessions that read memory.  Set up, it has handed each session to a worker, and each
worker has a share of the selected regions.  A pass lets every worker sweep its share once.  A pass
that fails takes the workers down, and the pool gets back the sessions of those that were not lost;
the next set-up starts workers for these.

* `Pool`, `Pool.make`, `Pool.sessions`, `Pool.running`;
* `Pool.takeDown` — waits for the workers to end, `Pool.spawn` — starts them;
* `Pool.setup` — shares the regions out and starts the workers;
* `Pool.runPass` — one pass, with the log of each worker.
-/

namespace PointerChains

variable {ρ : Type}

/-- Sessions and workers, and what the workers were set up to do. -/
@[ext]
structure Pool (ρ : Type) where
  /-- The sessions that no worker has. -/
  idle : List ρ
  /-- The sessions of the workers that run, one each. -/
  crew : List ρ := []
  /-- The partition that was made last. -/
  partition : Partition := {}
  /-- What each worker does in a pass. -/
  plans : List Plan := []
  cancel : Token := {}
  /-- Workers are started for all sessions at once, and end together. -/
  apart : crew = [] ∨ idle = [] := by exact .inl rfl

/-- The workers that cannot be started, by their numbers, each with the reason of the system. -/
abbrev StartFaults := Nat → Option String

/-- What a set-up is to make anew. -/
structure SetupFlags where
  /-- Make the partition again, even if the selection is the same. -/
  rebalance : Bool := false
  /-- Start the workers again. -/
  respawn : Bool := false
  deriving DecidableEq, Repr, Inhabited

/-- What came of a pass. -/
structure Pass where
  /-- The totals, or the first error. -/
  result : Except Error Stats
  /-- What each worker did. -/
  logs : List (List Event)

namespace Pool

/-- A pool for sessions, of which there must be one at least.  No worker is started yet. -/
def make (sessions : List ρ) : Except Error (Pool ρ) :=
  if sessions.isEmpty then .error .noSessions else .ok { idle := sessions }

/-- All sessions of the pool. -/
def sessions (pool : Pool ρ) : List ρ := pool.idle ++ pool.crew

/-- Whether there are workers. -/
def running (pool : Pool ρ) : Bool := !pool.crew.isEmpty

/-- The number of workers that the pool has or will have. -/
def workers (pool : Pool ρ) : Nat := pool.crew.length + pool.idle.length

/-! ### Workers come and go -/

/-- Waits for the workers to end, from the one with number `n` on, and puts the sessions that they
give back behind the idle ones.  A worker that was lost gives none back; the last such worker is
told. -/
def join (lost : List Nat) (idle : List ρ) (last : Option Nat) :
    Nat → List ρ → Option Nat × List ρ
  | _, [] => (last, idle)
  | n, session :: crew =>
    if lost.contains n then join lost idle (some n) (n + 1) crew
    else join lost (idle ++ [session]) last (n + 1) crew

/-- Takes the workers down, some of which may be lost already.  The other sessions and the partition
are kept. -/
def takeDown (pool : Pool ρ) (lost : List Nat) : Except Error Unit × Pool ρ :=
  if pool.running then
    let (last, idle) := join lost pool.idle none 0 pool.crew
    (match last with
      | some n => .error (.workerLost n)
      | none => .ok (),
      { pool with idle, crew := [], plans := [], apart := .inl rfl })
  else (.ok (), pool)

/-- Takes the workers down between passes, where none is lost. -/
def shutdown (pool : Pool ρ) : Pool ρ := (pool.takeDown []).2

/-- Starts a worker for each session, in order, behind the ones that run already.  The first that
cannot be started ends it. -/
def launch (faults : StartFaults) (crew : List ρ) : List ρ → Option String × List ρ
  | [] => (none, crew)
  | session :: rest =>
    match faults crew.length with
    | some source => (some source, crew)
    | none => launch faults (crew ++ [session]) rest

/-- Starts the workers unless they are running.  If one cannot be started, its session goes down
with it, as do the sessions behind it, and the workers that were started are taken down again. -/
def spawn (pool : Pool ρ) (faults : StartFaults) : Except Error Unit × Pool ρ :=
  if pool.running then (.ok (), pool)
  else
    let (fault, crew) := launch faults [] pool.idle
    let pool := { pool with idle := [], crew, apart := .inr rfl }
    match fault with
    | some source => (.error (.spawn source), pool.shutdown)
    | none => (.ok (), pool)

/-! ### Set-up -/

/-- The map to scan, if the pool can be set up with these settings at all. -/
def checkSetup (o : Options) (areas : AreaSet) (alignment : Nat) : Except Error MemoryMap := do
  unless isPowerOfTwo alignment do throw (.invalidOption (.alignment alignment))
  let m ← o.getMap
  unless o.width.fitsTwice o.bufferSize do throw (.invalidOption (.bufferSize o.bufferSize))
  if areas.isEmpty then throw .emptyAreaSet
  return m

/-- The regions of a share as areas, all of which must be in the map. -/
def areasOf (m : MemoryMap) : List RegionId → Except Error (List Area)
  | [] => .ok []
  | id :: ids =>
    match m.region? id with
    | none => .error (.unknownRegion id)
    | some region => do
      let rest ← areasOf m ids
      return ⟨region.id, region.range⟩ :: rest

/-- The plans of the workers for their shares. -/
def plansFor (o : Options) (m : MemoryMap) (visitor : Visitor) (alignment : Nat) :
    List (List RegionId) → Except Error (List Plan)
  | [] => .ok []
  | share :: shares => do
    let areas ← areasOf m share
    let rest ← plansFor o m visitor alignment shares
    return { areas, visitor, alignment, width := o.width, bufferSize := o.bufferSize } :: rest

/-- Prepares passes over the selected regions, and starts the workers unless they are running. -/
def setup (pool : Pool ρ) (o : Options) (areas : AreaSet) (visitor : Visitor) (alignment : Nat)
    (flags : SetupFlags) (faults : StartFaults := fun _ => none) : Except Error Unit × Pool ρ :=
  match checkSetup o areas alignment with
  | .error cause => (.error cause, pool)
  | .ok m =>
    let pool := if flags.respawn then pool.shutdown else pool
    match pool.partition.update m areas.regions areas.generation pool.workers flags.rebalance with
    | .error cause => (.error cause, pool)
    | .ok (_, partition) =>
      let pool := { pool with partition }
      match plansFor o m visitor alignment partition.shares with
      | .error cause => (.error cause, pool)
      | .ok plans => { pool with plans }.spawn faults

/-! ### Passes -/

/-- What has happened in a pass so far. -/
structure Round where
  tally : Tally
  cancelled : Bool
  logs : List (List Event) := []
  lost : List Nat := []

/-- A worker sweeps its share.  A lost worker is noticed later, since it reports nothing. -/
def Round.turn (read : ρ → Reader) (r : Round) (worker : (ρ × Plan) × Nat) : Round :=
  let ((session, plan), n) := worker
  let sweep := plan.run (read session) { cancelled := r.cancelled, aborted := r.tally.aborted }
  let r := { r with cancelled := sweep.cancelled, logs := r.logs ++ [sweep.events] }
  match sweep.report? with
  | some report => { r with tally := r.tally.record n report }
  | none => { r with lost := r.lost ++ [n] }

/-- The reports once the lost workers have been noticed. -/
def Round.finalTally (r : Round) : Tally :=
  r.lost.foldl (fun t n => t.record n (.error (.workerLost n))) r.tally

/-- What all workers did. -/
def sweepRound (pool : Pool ρ) (read : ρ → Reader) : Round :=
  (pool.crew.zip pool.plans).zipIdx.foldl (Round.turn read)
    { tally := .start pool.crew.length, cancelled := pool.cancel.isSet }

/-- Every worker sweeps all of its regions once.  If one fails, the others give up, the workers
are taken down, and the pass ends with the first error.  A cancellation is used up by the pass that
it cancels. -/
def runPass (pool : Pool ρ) (read : ρ → Reader) : Pass × Pool ρ :=
  if !pool.running || pool.plans.length != pool.crew.length then
    ({ result := .error .poolNotSetUp, logs := List.replicate pool.workers [] }, pool)
  else
    let round := pool.sweepRound read
    let pool := { pool with cancel := ⟨round.cancelled⟩ }
    match round.finalTally.outcome with
    | .ok stats => ({ result := .ok stats, logs := round.logs }, pool)
    | .error cause =>
      let cancel := if cause = .cancelled then pool.cancel.clear.2 else pool.cancel
      ({ result := .error cause, logs := round.logs },
        ({ pool with cancel }.takeDown round.lost).2)

end Pool

end PointerChains
