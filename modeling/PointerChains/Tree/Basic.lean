import PointerChains.Error

/-!
# Candidate trees

Level 0 of a candidate tree holds the target.  Every node on a later level is a place in memory
that holds a pointer to its parent, one level up, or to somewhere shortly before it.

* `Node`, `Tree` with its look-ups;
* `Tree.addNode` — adds a node below an existing one;
* `Tree.reset` — removes all nodes and keeps the levels.
-/

namespace PointerChains

/-- A place in memory that leads to the target. -/
structure Node where
  /-- The number of nodes that were added before. -/
  id : Nat
  /-- The region that the place belongs to. -/
  region : RegionId
  /-- The address of the place; that of the target for the root. -/
  own : Address
  /-- The pointer that is stored there; null for the root. -/
  pointer : Address
  /-- The node that the pointer leads to. -/
  parent : Option NodeRef
  /-- The nodes whose pointers lead here, in the order in which they were added. -/
  children : Array NodeRef := #[]
  deriving DecidableEq, Repr, Inhabited

/-- The nodes of each level, in the order in which they were added. -/
structure Tree where
  levels : Array (Array Node)
  /-- The id of the node to be added next. -/
  nextId : Nat := 0
  deriving DecidableEq, Repr, Inhabited

namespace Tree

/-- A tree without nodes. -/
def empty (depth : Nat) : Tree := { levels := Array.replicate depth #[] }

/-- The number of levels. -/
def depth (t : Tree) : Nat := t.levels.size

/-- The nodes of a level; a level that is not there has none. -/
def level (t : Tree) (depth : Nat) : Array Node := t.levels[depth]?.getD #[]

/-- The node at a place in the tree. -/
def node? (t : Tree) (n : NodeRef) : Option Node := t.levels[n.depth]?.bind (·[n.index]?)

/-- The node that stands for the target. -/
def root? (t : Tree) : Option Node := t.node? ⟨0, 0⟩

/-- The number of nodes. -/
def size (t : Tree) : Nat := t.levels.flatten.size

/-- Whether there are no nodes. -/
def isEmpty (t : Tree) : Bool := t.levels.all (·.isEmpty)

/-- The tree without its nodes. -/
def reset (t : Tree) : Tree := { levels := t.levels.map fun _ => #[], nextId := 0 }

/-- What speaks against a node with the given parent at the given depth.  The root alone has no
parent, and there is one root; the parent of any other node is one level up. -/
def fault? (t : Tree) (parent : Option NodeRef) (depth : Nat) : Option NodeFault :=
  if t.depth ≤ depth then some (.depthOutside depth t.depth)
  else
    match parent with
    | none =>
      if depth ≠ 0 then some (.misplacedParent none depth)
      else if (t.level 0).isEmpty then none
      else some .secondRoot
    | some p =>
      if p.depth + 1 ≠ depth then some (.misplacedParent (some p) depth)
      else if (t.node? p).isNone then some (.missingParent p)
      else none

/-- The tree with one more node at the end of a level. -/
def push (t : Tree) (depth : Nat) (node : Node) : Tree :=
  { levels := t.levels.modify depth (·.push node), nextId := t.nextId + 1 }

/-- The tree with one more child of a node. -/
def addChild (t : Tree) (parent child : NodeRef) : Tree :=
  { t with levels := t.levels.modify parent.depth fun level =>
      level.modify parent.index fun node => { node with children := node.children.push child } }

/-- The tree with one more child of the parent, if there is one. -/
def link (t : Tree) (parent : Option NodeRef) (child : NodeRef) : Tree :=
  match parent with
  | none => t
  | some p => t.addChild p child

/-- Adds a node at the given depth, and links it to its parent.  The first piece of memory is for
the node, the second one for the parent's list of children, and by then the node is in the tree. -/
def addNode (t : Tree) (parent : Option NodeRef) (region : RegionId) (own pointer : Address)
    (depth : Nat) (memory : Memory := .ample) : Except Error NodeRef × Tree :=
  match t.fault? parent depth with
  | some fault => (.error (.invalidNode fault), t)
  | none =>
    if memory 0 then
      let child : NodeRef := ⟨depth, (t.level depth).size⟩
      let t := t.push depth { id := t.nextId, region, own, pointer, parent }
      if parent.isNone || memory 1 then (.ok child, t.link parent child)
      else (.error .allocation, t)
    else (.error .allocation, t)

end Tree

end PointerChains
