import PointerChains.Memory.Reader
import PointerChains.Sweep.Align
import PointerChains.Sweep.Buffer

/-!
# Sweeping regions

A sweep visits the aligned addresses of a region.  The visitor is shown the buffered bytes from
there on, and says by how much to move on; the next visit is at the next aligned address.

* `Event`, `Stats`, `Ending`, `Sweep` — the log, the totals and the end of a sweep;
* `Signals` — what other parties want of a worker;
* `Plan.sweep` — the sweep of one region, `Plan.run` — of all regions of a plan.
-/

namespace PointerChains

/-- What happens in a sweep. -/
inductive Event where
  | read (request : Request)
  | visit (visit : Visit)
  deriving DecidableEq, Repr

/-- The visit, if the event is one. -/
def Event.visit? : Event → Option Visit
  | .visit v => some v
  | .read _ => none

/-- The request, if the event is a read. -/
def Event.request? : Event → Option Request
  | .read r => some r
  | .visit _ => none

/-- How much was swept. -/
structure Stats where
  /-- The number of visits that were answered. -/
  addresses : Nat := 0
  /-- The number of bytes in the regions that were swept to the end. -/
  bytes : Nat := 0
  deriving DecidableEq, Repr, Inhabited

/-- The totals of both. -/
def Stats.add (s t : Stats) : Stats := ⟨s.addresses + t.addresses, s.bytes + t.bytes⟩

instance : Add Stats := ⟨Stats.add⟩

/-- How a sweep ended. -/
inductive Ending where
  | complete
  /-- The pass had been given up. -/
  | stopped
  | failed (cause : Error)
  | lost
  deriving DecidableEq, Repr

/-- What came of a sweep. -/
structure Sweep where
  /-- What happened, in order. -/
  events : List Event := []
  stats : Stats := {}
  /-- Whether the pass is cancelled now. -/
  cancelled : Bool
  ending : Ending
  deriving DecidableEq, Repr

/-- The sweep behind what happened before it. -/
def Sweep.behind (s : Sweep) (events : List Event) (stats : Stats) : Sweep :=
  { s with events := events ++ s.events, stats := stats + s.stats }

/-- What other parties want of a worker. -/
structure Signals where
  /-- Whether the pass is to be cancelled. -/
  cancelled : Bool := false
  /-- Whether another worker has failed. -/
  aborted : Bool := false
  deriving DecidableEq, Repr, Inhabited

/-- Makes the bytes for the next visit available, or finds that the region ends.  Once nothing is
left in the buffer, the signals are obeyed after the read. -/
def Buffer.refill {a : Area} (b : Buffer a) (p : Plan) (read : Reader) (signals : Signals) :
    List Event × Except Ending (ReadyBuffer a b.offset) :=
  if hleft : b.bytes.length ≤ b.pos then
    if hend : a.size ≤ b.offset then ([], .error .complete)
    else
      let request := b.freshRequest p
      ([.read request],
        match read.whole request.address request.length with
        | .error cause => .error (.failed cause)
        | .ok ⟨bytes, hlength⟩ =>
          if signals.cancelled then .error (.failed .cancelled)
          else if signals.aborted then .error .stopped
          else .ok (b.refilled bytes hlength hend))
  else if b.left.length < p.width.size ∧ b.base + b.bytes.length < a.size then
    let request := b.tailRequest p
    ([.read request],
      match read.whole request.address request.length with
      | .error cause => .error (.failed cause)
      | .ok ⟨bytes, hlength⟩ => .ok (b.filledUp bytes hlength hleft))
  else ([], .ok ⟨b, rfl, b.offset_lt hleft⟩)

/-- The sweep of a region, from what is buffered on. -/
def Plan.sweepBuffer (p : Plan) (read : Reader) {a : Area} (b : Buffer a) (signals : Signals) :
    Sweep :=
  match b.refill p read signals with
  | (events, .error ending) =>
    { events, stats := ⟨0, if ending = .complete then a.size else 0⟩,
      cancelled := signals.cancelled, ending }
  | (events, .ok ⟨filled, _⟩) =>
    let visit := filled.visit
    let events := events ++ [.visit visit]
    match p.visitor visit with
    | .fail cause => { events, cancelled := signals.cancelled, ending := .failed cause }
    | .crash => { events, cancelled := signals.cancelled, ending := .lost }
    | .advance 0 cancel =>
      { events, cancelled := signals.cancelled || cancel, ending := .failed .zeroAdvance }
    | .advance (count + 1) cancel =>
      let signals := { signals with cancelled := signals.cancelled || cancel }
      match _ : p.next? a filled.offset (count + 1) with
      | none => { events, stats := ⟨1, 0⟩, cancelled := signals.cancelled, ending := .lost }
      | some next => (p.sweepBuffer read (filled.moveTo next) signals).behind events ⟨1, 0⟩
termination_by a.size - b.offset
decreasing_by
  rename_i hready hnext
  have hlt := Plan.lt_of_next? hnext (hready.1.symm ▸ hready.2)
  rw [hready.1] at hlt
  have hle := filled.le_offset_moveTo next
  omega

/-- The sweep of a region. -/
def Plan.sweep (p : Plan) (read : Reader) (a : Area) (signals : Signals) : Sweep :=
  p.sweepBuffer read (.startAt a (alignUp a.start 0 p.alignment)) signals

/-- The sweep of regions one after the other.  The signals are obeyed before each. -/
def Plan.sweepAll (p : Plan) (read : Reader) (signals : Signals) : List Area → Sweep
  | [] => { cancelled := signals.cancelled, ending := .complete }
  | a :: rest =>
    if signals.cancelled then { cancelled := true, ending := .failed .cancelled }
    else if signals.aborted then { cancelled := false, ending := .complete }
    else
      let first := p.sweep read a signals
      match first.ending with
      | .complete | .stopped =>
        (p.sweepAll read { signals with cancelled := first.cancelled } rest).behind
          first.events first.stats
      | .failed _ | .lost => first

/-- The sweep of all regions of a plan.  The memory for the window comes first, before any signal is
looked at. -/
def Plan.run (p : Plan) (read : Reader) (signals : Signals) : Sweep :=
  if p.bufferSize ≤ largestBuffer then p.sweepAll read signals p.areas
  else { cancelled := signals.cancelled, ending := .failed .allocation }

theorem Plan.run_of_fits {p : Plan} {read : Reader} {signals : Signals}
    (h : p.bufferSize ≤ largestBuffer) : p.run read signals = p.sweepAll read signals p.areas :=
  if_pos h

theorem Plan.run_of_large {p : Plan} {read : Reader} {signals : Signals}
    (h : largestBuffer < p.bufferSize) : p.run read signals =
      { cancelled := signals.cancelled, ending := .failed .allocation } :=
  if_neg (Nat.not_le.2 h)

/-- Whoever does anything has found the memory for the window. -/
theorem Plan.run_of_mem {p : Plan} {read : Reader} {signals : Signals} {e : Event}
    (h : e ∈ (p.run read signals).events) :
    p.run read signals = p.sweepAll read signals p.areas := by
  rcases Nat.lt_or_ge largestBuffer p.bufferSize with hlarge | hfits
  · rw [Plan.run_of_large hlarge] at h
    cases h
  · exact Plan.run_of_fits hfits

end PointerChains
