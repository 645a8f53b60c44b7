import PointerChains.Proofs.Tree.Runs

/-!
# What a commit adds

A commit adds candidates in order up to the first that does not fit, and which that is can be told
before any is added: a candidate fits by its parent, one level up, and the additions touch the level
itself only, and the children of the parents.  So what is left of a commit that fails halfway is
known as well as the tree after one that goes well.

* `Candidate.Fits` — the parent is there, one level up;
* `Tree.Gains` — everything that candidates change when they are added, and `Tree.Gains.unique`: a
  tree is determined by what it was before and what it gained;
* `Tree.gains_of_addAll` — candidates that are added fit;
* `Tree.commit_cases` — **what a commit returns and leaves, for any level and any tree**, from which
  `Tree.gains_of_commit` and `Tree.exists_commit_iff` are read off.
-/

namespace PointerChains

variable {t mid after after' : Tree} {depth : Nat} {cs ds : List Candidate} {c : Candidate}

/-- The parent of the candidate is there, one level up. -/
structure Candidate.Fits (c : Candidate) (t : Tree) (depth : Nat) : Prop where
  depth_lt : depth < t.depth
  parent_depth : c.parent.depth + 1 = depth
  parent : (t.node? c.parent).isSome

theorem Candidate.fits_iff : c.Fits t depth ↔ t.fault? (some c.parent) depth = none := by
  rw [Tree.fault?_eq_none_iff]
  constructor
  · intro h
    exact ⟨h.depth_lt, .inr ⟨c.parent, rfl, h.parent_depth, h.parent⟩⟩
  · intro h
    obtain ⟨hlt, hnone | ⟨p, hp, hdepth, hsome⟩⟩ := h
    · exact absurd hnone.1 (Option.some_ne_none _)
    · cases hp
      exact ⟨hlt, hdepth, hsome⟩

/-- Candidates fit if there are none, or the level is there and so are all parents. -/
theorem Candidate.forall_fits_iff : (∀ c ∈ cs, c.Fits t depth) ↔ cs = [] ∨ (depth < t.depth ∧
    ∀ c ∈ cs, c.parent.depth + 1 = depth ∧ (t.node? c.parent).isSome) := by
  constructor
  · intro h
    cases cs with
    | nil => exact .inl rfl
    | cons c rest =>
      exact .inr ⟨(h c (List.mem_cons_self ..)).depth_lt,
        fun d hd => ⟨(h d hd).parent_depth, (h d hd).parent⟩⟩
  · intro h
    rcases h with rfl | ⟨hlt, hparents⟩
    · simp
    · intro c hc
      obtain ⟨hdepth, hsome⟩ := hparents c hc
      exact ⟨hlt, hdepth, hsome⟩

/-- The places of the candidates below a node, if they are put on a level one after the other. -/
def Candidate.placesBelow (cs : List Candidate) (depth first : Nat) (n : NodeRef) : List NodeRef :=
  ((cs.zipIdx first).filter fun c => c.1.parent = n).map fun c => ⟨depth, c.2⟩

theorem Candidate.placesBelow_append (first : Nat) (n : NodeRef) :
    placesBelow (cs ++ ds) depth first n =
      placesBelow cs depth first n ++ placesBelow ds depth (first + cs.length) n := by
  rw [placesBelow, List.zipIdx_append, List.filter_append, List.map_append]
  rfl

namespace Tree

/-- The children of a node; a node that is not there has none. -/
def children (t : Tree) (n : NodeRef) : List NodeRef :=
  ((t.node? n).map fun node => node.children.toList).getD []

/-- The numbers of the nodes of a level. -/
def levelIds (t : Tree) (depth : Nat) : List Nat := (t.level depth).toList.map Node.id

/-- The tree has gained the candidates at a depth: they stand behind the other nodes of the level,
in the given order and with the numbers that follow, and behind the other children of their
parents.  Nothing else has changed. -/
structure Gains (t : Tree) (depth : Nat) (cs : List Candidate) (after : Tree) : Prop where
  depth_eq : after.depth = t.depth
  row_eq : ∀ d, after.row d = if d = depth then t.row d ++ cs.map Candidate.node else t.row d
  ids_eq : ∀ d, after.levelIds d =
    if d = depth then t.levelIds d ++ List.range' t.nextId cs.length else t.levelIds d
  nextId_eq : after.nextId = t.nextId + cs.length
  children_eq : ∀ n, after.children n =
    t.children n ++ Candidate.placesBelow cs depth (t.level depth).size n

theorem size_level (t : Tree) (depth : Nat) : (t.level depth).size = (t.row depth).length := by
  rw [row, List.length_map, Array.length_toList]

theorem isSome_node?_iff {n : NodeRef} :
    (t.node? n).isSome ↔ n.index < (t.row n.depth).length := by
  rw [node?_eq, ← size_level]
  simp

/-! ### One candidate after the other -/

theorem Gains.nil (t : Tree) (depth : Nat) : t.Gains depth [] t where
  depth_eq := rfl
  row_eq := by simp
  ids_eq := by simp
  nextId_eq := rfl
  children_eq := by simp [Candidate.placesBelow]

theorem Gains.trans (h : t.Gains depth cs mid) (h' : mid.Gains depth ds after) :
    t.Gains depth (cs ++ ds) after where
  depth_eq := h'.depth_eq.trans h.depth_eq
  row_eq := by
    intro d
    rw [h'.row_eq, h.row_eq]
    by_cases hd : d = depth
    · simp only [if_pos hd, List.map_append, List.append_assoc]
    · simp only [if_neg hd]
  ids_eq := by
    intro d
    rw [h'.ids_eq, h.ids_eq, h.nextId_eq, List.length_append, ← List.range'_append_1]
    by_cases hd : d = depth
    · simp only [if_pos hd, List.append_assoc]
    · simp only [if_neg hd]
  nextId_eq := by rw [h'.nextId_eq, h.nextId_eq, List.length_append, Nat.add_assoc]
  children_eq := by
    intro n
    have hsize : (mid.level depth).size = (t.level depth).size + cs.length := by
      rw [size_level, h.row_eq, if_pos rfl, List.length_append, List.length_map, size_level]
    rw [h'.children_eq, h.children_eq, hsize, Candidate.placesBelow_append, List.append_assoc]

/-- What speaks against a candidate is the same before and after the others of its level. -/
theorem Gains.fault?_eq (h : t.Gains depth cs mid) (p : NodeRef) :
    mid.fault? (some p) depth = t.fault? (some p) depth := by
  by_cases hdepth : p.depth + 1 = depth
  · -- the parent stands on another level than the one that has grown
    have hsome : (mid.node? p).isSome = (t.node? p).isSome := by
      rw [Bool.eq_iff_iff, isSome_node?_iff, isSome_node?_iff, h.row_eq, if_neg (by omega)]
    simp only [fault?, h.depth_eq, ← Option.not_isSome, hsome]
  · simp only [fault?, h.depth_eq, ne_eq, hdepth, not_false_eq_true, if_true]

theorem Adds.gains {child : NodeRef}
    (h : t.Adds (some c.parent) (some c.parent) c.region c.own c.pointer depth child after) :
    t.Gains depth [c] after := by
  have hfits := Candidate.fits_iff.2 h.fault?_eq
  obtain ⟨hdepth, -, hrow⟩ := h.row
  refine
    { depth_eq := hdepth
      row_eq := hrow
      ids_eq := h.map_level (f := Node.id) fun _ _ => rfl
      nextId_eq := by rw [h.after_eq]; rfl
      children_eq := ?_ }
  intro n
  have hplaces : Candidate.placesBelow [c] depth (t.level depth).size n =
      if c.parent = n then [child] else [] := by
    by_cases hn : c.parent = n
    · simp [Candidate.placesBelow, hn, h.child_eq]
    · simp [Candidate.placesBelow, hn]
  rw [hplaces, children, children, h.node?_eq]
  by_cases hn : n = child
  · -- the new node has no children, and is not its own parent
    subst hn
    have hne : c.parent ≠ n := fun hsame => h.parent_ne_child (congrArg some hsame)
    rw [if_pos rfl, if_neg hne, h.node?_child]
    rfl
  · rw [if_neg hn]
    by_cases hparent : c.parent = n
    · obtain ⟨node, hnode⟩ := Option.isSome_iff_exists.1 hfits.parent
      rw [if_pos hparent, if_pos (congrArg some hparent), ← hparent, hnode]
      exact Array.toList_push
    · rw [if_neg hparent, if_neg (by simpa using hparent), List.append_nil]

/-- Candidates that are added fit, and the tree gains them. -/
theorem gains_of_addAll {memory : Memory} (h : t.addAll depth memory cs = (.ok (), after)) :
    (∀ c ∈ cs, c.Fits t depth) ∧ t.Gains depth cs after := by
  induction cs generalizing t memory with
  | nil =>
    cases h
    exact ⟨by simp, .nil _ depth⟩
  | cons c rest ih =>
    rw [addAll] at h
    cases hadd : t.addNode (some c.parent) c.region c.own c.pointer depth memory with
    | mk result next =>
      rw [hadd] at h
      cases result with
      | error cause => cases h
      | ok child =>
        have hadds := adds_of_addNode hadd
        obtain ⟨hfits, hgains⟩ := ih h
        refine ⟨?_, hadds.gains.trans hgains⟩
        intro d hd
        rcases List.mem_cons.1 hd with rfl | hd
        · exact Candidate.fits_iff.2 hadds.fault?_eq
        · -- a later candidate is judged alike with and without this one
          rw [Candidate.fits_iff, ← hadds.gains.fault?_eq]
          exact Candidate.fits_iff.1 (hfits d hd)

/-- **What a commit returns and leaves.**  Either all candidates fit, and the tree gains them in
order; or the tree gains those in front of the first that does not fit, and the result says what
speaks against that one. -/
theorem commit_cases (t : Tree) (b : LevelBuilder) :
    ((t.commit b).1 = .ok b.pending.length ∧ (∀ c ∈ b.pending, c.Fits t b.depth) ∧
      t.Gains b.depth (b.pending.mergeSort Candidate.le) (t.commit b).2.1) ∨
    ∃ good bad rest fault, b.pending.mergeSort Candidate.le = good ++ bad :: rest ∧
      (∀ c ∈ good, c.Fits t b.depth) ∧ t.fault? (some bad.parent) b.depth = some fault ∧
      (t.commit b).1 = .error (.invalidNode fault) ∧ t.Gains b.depth good (t.commit b).2.1 := by
  rw [commit_eq b rfl]
  generalize hall : t.addAll b.depth (Memory.ample.after 1) (b.pending.mergeSort Candidate.le) =
    added
  obtain ⟨result, next⟩ := added
  cases result with
  | ok done =>
    obtain ⟨hfits, hgains⟩ := gains_of_addAll hall
    exact .inl ⟨rfl, fun c hc => hfits c (List.mem_mergeSort.2 hc), hgains⟩
  | error cause =>
    obtain ⟨good, bad, rest, before, hsorted, hgood, hbad⟩ := addAll_eq_error hall
    obtain ⟨hfits, hgains⟩ := gains_of_addAll hgood
    obtain ⟨rfl, ⟨-, hshort⟩ | ⟨fault, hfault, rfl⟩⟩ | ⟨hshort, -⟩ := addNode_eq_error hbad
    · cases hshort
    · rw [hgains.fault?_eq] at hfault
      exact .inr ⟨good, bad, rest, fault, hsorted, hfits, hfault, rfl, hgains⟩
    · cases hshort

theorem gains_of_commit {b emptied : LevelBuilder} {count : Nat}
    (h : t.commit b = (.ok count, after, emptied)) :
    t.Gains b.depth (b.pending.mergeSort Candidate.le) after := by
  rcases t.commit_cases b with ⟨-, -, hgains⟩ | ⟨good, bad, rest, fault, -, -, -, herror, -⟩
  · rw [h] at hgains
    exact hgains
  · rw [h] at herror
    cases herror

/-- A commit goes well exactly if all candidates fit. -/
theorem exists_commit_iff {b : LevelBuilder} :
    (∃ count, (t.commit b).1 = .ok count) ↔ ∀ c ∈ b.pending, c.Fits t b.depth := by
  rcases t.commit_cases b with ⟨hok, hfits, -⟩ |
    ⟨good, bad, rest, fault, hsorted, -, hfault, herror, -⟩
  · exact ⟨fun _ => hfits, fun _ => ⟨_, hok⟩⟩
  · constructor
    · intro hok
      obtain ⟨count, hcount⟩ := hok
      rw [herror] at hcount
      cases hcount
    · intro hfits
      have hbad : bad ∈ b.pending.mergeSort Candidate.le := by
        rw [hsorted]
        exact List.mem_append_right _ (List.mem_cons_self ..)
      rw [Candidate.fits_iff.1 (hfits bad (List.mem_mergeSort.1 hbad))] at hfault
      cases hfault

/-- A tree is determined by its levels, the numbers and children of its nodes, and the number to
be given next. -/
theorem eq_of_levels (hdepth : t.depth = after.depth) (hrow : ∀ d, t.row d = after.row d)
    (hids : ∀ d, t.levelIds d = after.levelIds d) (hnext : t.nextId = after.nextId)
    (hchildren : ∀ n, t.children n = after.children n) : t = after := by
  have hlevel (d : Nat) : t.level d = after.level d := by
    have hsize : (t.level d).size = (after.level d).size := by
      rw [size_level, size_level, hrow]
    refine Array.ext hsize ?_
    intro i hi hi'
    have hbare : ((t.level d)[i]).bare = ((after.level d)[i]).bare := by
      simpa [row, hi, hi'] using congrArg (·[i]?) (hrow d)
    have hid : ((t.level d)[i]).id = ((after.level d)[i]).id := by
      simpa [levelIds, hi, hi'] using congrArg (·[i]?) (hids d)
    have hbelow : ((t.level d)[i]).children = ((after.level d)[i]).children := by
      simpa [children, node?_eq, hi, hi'] using hchildren ⟨d, i⟩
    -- a bare node lacks its number and its children, which the other two facts supply
    cases hnode : (t.level d)[i]
    cases hnode' : (after.level d)[i]
    rw [hnode, hnode', Node.bare, Node.bare, Node.mk.injEq] at hbare
    rw [hnode, hnode'] at hid hbelow
    rw [Node.mk.injEq]
    exact ⟨hid, hbare.2.1, hbare.2.2.1, hbare.2.2.2.1, hbare.2.2.2.2.1, hbelow⟩
  obtain ⟨levels, nextId⟩ := t
  obtain ⟨levels', nextId'⟩ := after
  rw [Tree.mk.injEq]
  refine ⟨Array.ext hdepth ?_, hnext⟩
  intro d hd hd'
  simpa [level, hd, hd'] using hlevel d

theorem Gains.unique (h : t.Gains depth cs after) (h' : t.Gains depth cs after') :
    after = after' := by
  apply eq_of_levels
  · rw [h.depth_eq, h'.depth_eq]
  · intro d
    rw [h.row_eq, h'.row_eq]
  · intro d
    rw [h.ids_eq, h'.ids_eq]
  · rw [h.nextId_eq, h'.nextId_eq]
  · intro n
    rw [h.children_eq, h'.children_eq]

theorem Gains.iff_eq (h : t.Gains depth cs after) (other : Tree) :
    t.Gains depth cs other ↔ other = after := by
  constructor
  · intro hother
    exact hother.unique h
  · rintro rfl
    exact h

end Tree

end PointerChains
