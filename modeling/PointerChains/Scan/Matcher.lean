import PointerChains.Sweep.Basic
import PointerChains.Tree.Level

/-!
# Matching pointers

A stored value is a candidate if it points at a node of the level before, or to somewhere shortly
before one.

* `Matcher` — what counts as a match at a level;
* `Matcher.parents` — the nodes that a value leads to;
* `Matcher.candidates` — the candidates at a visited address, `Matcher.collect` — of a sweep.
-/

namespace PointerChains

/-- What counts as a match at a level. -/
structure Matcher where
  /-- The level in the making. -/
  level : LevelBuilder
  width : PointerWidth
  /-- The largest distance from a value to a node. -/
  maxObjSize : UInt64
  /-- The distance that is required, if one is. -/
  preset : Option UInt64
  /-- Whether only the nearest nodes count. -/
  smartScan : Bool

/-- How far a node lies above a value. -/
def distance (value : Address) (n : Address × NodeRef) : UInt64 := n.1.value - value.value

/-- The nodes as near as the first. -/
def nearest (value : Address) (nodes : List (Address × NodeRef)) : List (Address × NodeRef) :=
  match nodes with
  | [] => []
  | n :: _ => nodes.takeWhile fun k => distance value k ≤ distance value n

namespace Matcher

/-- The nodes at the required distance. -/
def atPreset (m : Matcher) (value : Address) (nodes : List (Address × NodeRef)) :
    List (Address × NodeRef) :=
  match m.preset with
  | none => nodes
  | some preset => nodes.filter fun n => distance value n == preset

/-- The nodes that a value leads to, nearest first. -/
def parents (m : Matcher) (value : Address) : List (Address × NodeRef) :=
  let nodes := m.atPreset value (m.level.candidatesFor value m.maxObjSize).toList
  if m.smartScan then nearest value nodes else nodes

/-- The candidates at a visited address.  There are none where less than a pointer is left. -/
def candidates (m : Matcher) (v : Visit) : List Candidate :=
  let stored := v.bytes.take m.width.size
  if stored.length < m.width.size then []
  else
    let value := m.width.decode stored
    (m.parents value).map fun n =>
      { parent := n.2, region := v.region, own := v.address, pointer := value }

/-- The candidates of a sweep, in the order of its visits. -/
def collect (m : Matcher) (events : List Event) : List Candidate :=
  (events.filterMap Event.visit?).flatMap m.candidates

end Matcher

end PointerChains
