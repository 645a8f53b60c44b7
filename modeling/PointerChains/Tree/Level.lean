import PointerChains.Bisect
import PointerChains.Tree.Basic

/-!
# Building a level

The nodes of a level are collected first, in any order, and then added together in the order of
their addresses and parents.

* `Candidate` — a node to be;
* `LevelBuilder` — the collected candidates, and the level before to find their parents on;
* `LevelBuilder.candidatesFor` — the possible parents for a pointer;
* `Tree.commit` — adds the candidates to the tree.
-/

namespace PointerChains

/-- A node to be. -/
structure Candidate where
  /-- The node that the pointer leads to. -/
  parent : NodeRef
  region : RegionId
  own : Address
  /-- The pointer that is stored there. -/
  pointer : Address
  deriving DecidableEq, Repr, Inhabited

/-- Addressed nodes are ordered by address, and by place in the tree for one address. -/
def NodeRef.leAt (m n : Address × NodeRef) : Bool :=
  m.1 < n.1 || (m.1 == n.1 && m.2.le n.2)

/-- Candidates are ordered by address, and by parent for one address. -/
def Candidate.le (c d : Candidate) : Bool := NodeRef.leAt (c.own, c.parent) (d.own, d.parent)

/-- A level in the making. -/
structure LevelBuilder where
  depth : Nat
  /-- The nodes of the level before, in the order of their addresses. -/
  previous : Array (Address × NodeRef)
  /-- The collected candidates. -/
  pending : List Candidate := []
  deriving DecidableEq, Repr, Inhabited

namespace LevelBuilder

/-- The nodes of the level before that lie at `value` or up to `size` bytes above it, nearest
first. -/
def candidatesFor (b : LevelBuilder) (value : Address) (size : UInt64) :
    Array (Address × NodeRef) :=
  let first := bisect (fun n => n.1 < value) b.previous
  let stop := bisect (fun n => n.1 ≤ value.addSat size) b.previous
  b.previous.extract first (max stop first)

/-- The level with more candidates. -/
def flush (b : LevelBuilder) (batch : List Candidate) : LevelBuilder :=
  { b with pending := b.pending ++ batch }

/-- Whether no candidates are collected. -/
def isEmpty (b : LevelBuilder) : Bool := b.pending.isEmpty

end LevelBuilder

namespace Tree

/-- Starts a level, which must be in the tree and not the root's. -/
def levelBuilder (t : Tree) (depth : Nat) : Except Error LevelBuilder :=
  if depth = 0 ∨ t.depth ≤ depth then
    .error (.invalidNode (.unbuildableLevel depth t.depth))
  else
    let nodes := (t.level (depth - 1)).toList.zipIdx.map fun (node, index) =>
      (node.own, (⟨depth - 1, index⟩ : NodeRef))
    .ok { depth, previous := (nodes.mergeSort NodeRef.leAt).toArray }

/-- Adds candidates at a depth one after the other, up to the first that fails.  Each takes two
pieces of memory. -/
def addAll (t : Tree) (depth : Nat) (memory : Memory) :
    List Candidate → Except Error Unit × Tree
  | [] => (.ok (), t)
  | c :: rest =>
    match t.addNode (some c.parent) c.region c.own c.pointer depth memory with
    | (.error cause, t) => (.error cause, t)
    | (.ok _, t) => t.addAll depth (memory.after 2) rest

/-- Adds the collected candidates in order, whose number is the result.  The first piece of memory
is for the level, which takes as many nodes more, and is not asked for if there is no such level.
The builder is left without candidates in any case. -/
def commit (t : Tree) (b : LevelBuilder) (memory : Memory := .ample) :
    Except Error Nat × Tree × LevelBuilder :=
  let emptied := { b with pending := [] }
  if b.depth < t.depth && !memory 0 then (.error .allocation, t, emptied)
  else
    let (result, t) := t.addAll b.depth (memory.after 1) (b.pending.mergeSort Candidate.le)
    (result.map fun _ => b.pending.length, t, emptied)

end Tree

end PointerChains
