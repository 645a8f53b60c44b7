import PointerChains.Error

/-!
# Guarded values

A value that a scan uses is locked meanwhile.  Locking never waits: what cannot be had at once is
reported as in use.  Any number of scans may hold a value together, and an update holds it alone.

* `Guarded` — a named value with its holders;
* `Guarded.get`, `Guarded.tryUpdate` — use and update that end at once;
* `Guarded.lock`, `Guarded.unlock`, `Guarded.beginUpdate`, `Guarded.endUpdate` — the same, with
  other requests in between.
-/

namespace PointerChains

/-- Who holds a value. -/
inductive Holders where
  | scans (count : Nat)
  | update
  deriving DecidableEq, Repr

/-- A value that can be held. -/
structure Guarded (α : Type) where
  /-- The name of the value in errors. -/
  name : String
  value : α
  holders : Holders := .scans 0

namespace Guarded

variable {α : Type}

/-- The value, unless it is being updated. -/
def get (g : Guarded α) : Except Error α :=
  match g.holders with
  | .scans _ => .ok g.value
  | .update => .error (.inUse g.name)

/-- Holds the value for a scan. -/
def lock (g : Guarded α) : Except Error (Guarded α) :=
  match g.holders with
  | .scans count => .ok { g with holders := .scans (count + 1) }
  | .update => .error (.inUse g.name)

/-- Ends the hold of a scan. -/
def unlock (g : Guarded α) : Guarded α :=
  match g.holders with
  | .scans count => { g with holders := .scans (count - 1) }
  | .update => g

/-- Holds the value for an update, which needs it alone. -/
def beginUpdate (g : Guarded α) : Except Error (Guarded α) :=
  match g.holders with
  | .scans 0 => .ok { g with holders := .update }
  | _ => .error (.inUse g.name)

/-- Ends the hold of an update. -/
def endUpdate (g : Guarded α) : Guarded α :=
  { g with holders := .scans 0 }

/-- Updates the value, unless it is held.  What an update has changed stays, whether it fails then
or breaks down. -/
def tryUpdate {β : Type} (g : Guarded α) (f : α → Option (Except Error β) × α) :
    Option (Except Error β) × Guarded α :=
  match g.beginUpdate with
  | .error cause => (some (.error cause), g)
  | .ok held =>
    let (answer, value) := f held.value
    (answer, { held.endUpdate with value })

end Guarded

end PointerChains
