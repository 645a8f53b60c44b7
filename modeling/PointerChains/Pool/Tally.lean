import PointerChains.Sweep.Basic

/-!
# Tallying the reports of a pass

Each worker reports once; a second report of a worker, or one of a worker that does not exist, is
ignored.  The error that is recorded first is the outcome of the pass.

* `Tally` with `Tally.record`;
* `Tally.outcome` — the totals, or the first error.
-/

namespace PointerChains

/-- The reports so far. -/
structure Tally where
  /-- Which workers have reported. -/
  done : List Bool
  /-- The number of workers that have not. -/
  pending : Nat
  /-- The totals of the reports without error. -/
  stats : Stats := {}
  /-- The first error. -/
  error : Option Error := none
  deriving DecidableEq, Repr

namespace Tally

/-- No reports of so many workers. -/
def start (workers : Nat) : Tally :=
  { done := List.replicate workers false, pending := workers }

/-- Whether the other workers are to give up. -/
def aborted (t : Tally) : Bool := t.error.isSome

/-- The tally with one more report. -/
def record (t : Tally) (worker : Nat) (report : Except Error Stats) : Tally :=
  match t.done[worker]? with
  | some false =>
    let t := { t with done := t.done.set worker true, pending := t.pending - 1 }
    match report with
    | .ok stats => { t with stats := t.stats + stats }
    | .error cause => { t with error := t.error <|> some cause }
  | _ => t

/-- The outcome once all workers have reported. -/
def outcome (t : Tally) : Except Error Stats :=
  match t.error with
  | some cause => .error cause
  | none => .ok t.stats

end Tally

/-- What a worker reports of its sweep; a lost worker reports nothing. -/
def Sweep.report? (s : Sweep) : Option (Except Error Stats) :=
  match s.ending with
  | .complete | .stopped => some (.ok s.stats)
  | .failed cause => some (.error cause)
  | .lost => none

end PointerChains
