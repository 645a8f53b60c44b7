/-!
# References

Regions, objects and tree nodes are referred to by position.

* `RegionId`, shown as `#3`; `ObjectId`, shown as `@1`;
* `NodeRef`, a level and a position in it, shown as `2:5`.
-/

namespace PointerChains

/-- A region of a memory map, by its position in address order. -/
structure RegionId where
  index : Nat
  deriving DecidableEq, Hashable, Inhabited, Repr

/-- An object of a memory map, by its position. -/
structure ObjectId where
  index : Nat
  deriving DecidableEq, Hashable, Inhabited, Repr

/-- A node of a candidate tree. -/
structure NodeRef where
  depth : Nat
  /-- The position of the node in its level. -/
  index : Nat
  deriving DecidableEq, Hashable, Inhabited, Repr

/-- The shown form of a region reference. -/
def RegionId.text (r : RegionId) : String := s!"#{r.index}"

/-- The shown form of an object reference. -/
def ObjectId.text (o : ObjectId) : String := s!"@{o.index}"

/-- The shown form of a node reference. -/
def NodeRef.text (n : NodeRef) : String := s!"{n.depth}:{n.index}"

instance : ToString RegionId := ⟨RegionId.text⟩

instance : ToString ObjectId := ⟨ObjectId.text⟩

instance : ToString NodeRef := ⟨NodeRef.text⟩

/-- Nodes are ordered by level, and by position within a level. -/
def NodeRef.le (m n : NodeRef) : Bool :=
  m.depth < n.depth || (m.depth == n.depth && m.index ≤ n.index)

theorem NodeRef.le_trans {m n k : NodeRef} (h : m.le n) (h' : n.le k) : m.le k := by
  simp only [le, Bool.or_eq_true, Bool.and_eq_true, decide_eq_true_eq, beq_iff_eq] at *
  omega

theorem NodeRef.le_total (m n : NodeRef) : m.le n || n.le m := by
  simp only [le, Bool.or_eq_true, Bool.and_eq_true, decide_eq_true_eq, beq_iff_eq]
  omega

theorem NodeRef.le_antisymm {m n : NodeRef} (h : m.le n) (h' : n.le m) : m = n := by
  simp only [le, Bool.or_eq_true, Bool.and_eq_true, decide_eq_true_eq, beq_iff_eq] at *
  cases m; cases n
  simp only [NodeRef.mk.injEq] at *
  omega

end PointerChains
