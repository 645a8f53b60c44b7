import PointerChains.Chain.Basic
import PointerChains.Map.Basic
import PointerChains.Memory.Reader
import PointerChains.Tree.Basic

/-!
# From trees to chains and back

A leaf of the tree that an object owns gives a chain: the distance from the object's base to the
leaf, and from each pointer on the way to the node that it leads to.  Walking a chain goes the same
way through memory.

* `Tree.pathOffsets` — the distances on the way from a node to the root;
* `Tree.flatten` — the chains of all leaves, in the order of the tree;
* `walk` — where a chain leads.
-/

namespace PointerChains

namespace Tree

/-- The distances from the pointers on the way to the root to the nodes that they lead to, for a
node at the given depth. -/
def pathOffsets (t : Tree) : (depth : Nat) → Node → Except Error (List UInt64)
  | 0, _ => .ok []
  | depth + 1, node =>
    match node.parent with
    | none => .ok []
    | some ref =>
      match t.node? ref with
      | none => .error (.invalidNode (.missingParent ref))
      | some parent =>
        match parent.own.offsetFrom? node.pointer with
        | none => .error (.invalidNode (.pointsPast node.own parent.own))
        | some offset => do
          let rest ← pathOffsets t depth parent
          return offset :: rest

/-- The offsets of the chain from an object to a node at the given depth. -/
def chainOffsets (t : Tree) (object : MappedObject) (depth : Nat) (node : Node) :
    Except Error (List UInt64) :=
  match node.own.offsetFrom? object.base with
  | none => .error (.invalidNode (.belowObject node.own object.pathname))
  | some offset => do
    let rest ← t.pathOffsets depth node
    return offset :: rest

/-- The nodes without children below the root, with their depths, level by level. -/
def leaves (t : Tree) : List (Nat × Node) :=
  (t.levels.toList.zipIdx.drop 1).flatMap fun (level, depth) =>
    (level.toList.filter (·.children.isEmpty)).map fun node => (depth, node)

/-- Adds the chains of leaves that objects own. -/
def flattenLeaves (t : Tree) (m : MemoryMap) (table : ChainTable) :
    List (Nat × Node) → Except Error ChainTable
  | [] => .ok table
  | (depth, node) :: rest =>
    match m.objectOf? node.region with
    | none => flattenLeaves t m table rest
    | some object =>
      match t.chainOffsets object depth node with
      | .error cause => .error cause
      | .ok offsets =>
        flattenLeaves t m (table.push object.pathname (some object.id) offsets) rest

/-- The chains of all leaves that objects own. -/
def flatten (t : Tree) (m : MemoryMap) : Except Error ChainTable :=
  t.flattenLeaves m .empty t.leaves

end Tree

/-! ### Walking -/

/-- Follows offsets from an address: each is added to the pointer that is stored there. -/
def follow (read : Reader) (w : PointerWidth) (a : Address) : List UInt64 → Except Error Address
  | [] => .ok a
  | offset :: rest => do
    let pointer ← read.pointer w a
    let next ← pointer.add offset
    follow read w next rest

/-- Where a chain leads that starts at a base. -/
def walk (read : Reader) (w : PointerWidth) (base : Address) : List UInt64 → Except Error Address
  | [] => .error (.corrupt .chainWithoutOffsets)
  | first :: rest => do
    let start ← base.add first
    follow read w start rest

end PointerChains
