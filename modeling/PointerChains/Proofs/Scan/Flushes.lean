import PointerChains.Proofs.Scan.Level
import PointerChains.Proofs.Tree.Commit

/-!
# Workers that flush their candidates

Workers collect the candidates of a level side by side, and hand them over in batches.  A batch
arrives as a whole, but between two batches of a worker there may be any number of others, so that
a level holds its candidates in an order that nobody chose.  A commit sorts them, and candidates
that differ in address or parent have one order only.  Nothing of this needs a tree that belongs to
the level: parents may have vanished since the level was started.

* `LevelBuilder.Flushed` — workers hand over their batches, in any interleaving;
* `LevelBuilder.Flushed.holds` — no candidate is lost by it, and no two orders hold others;
* `Tree.commit_of_perm` — a commit does not see the order;
* `Search.commit_of_flushed` — so a pass can be taken to flush all that it collects at once;
* `Tree.commit_flushed` — **what a commit makes of a level, however it was flushed.**
-/

namespace PointerChains

/-- Workers hand over their batches, each its own in order, and one at a time, until none is
left. -/
inductive LevelBuilder.Flushed : LevelBuilder → List (List (List Candidate)) → LevelBuilder → Prop
  | done {b : LevelBuilder} {workers : List (List (List Candidate))}
      (hdone : ∀ batches ∈ workers, batches = []) : Flushed b workers b
  | turn {b next : LevelBuilder} {batch : List Candidate} {later : List (List Candidate)}
      {before after : List (List (List Candidate))}
      (hlater : Flushed (b.flush batch) (before ++ later :: after) next) :
      Flushed b (before ++ (batch :: later) :: after) next

/-- All candidates that a level and its workers have. -/
def LevelBuilder.collected (b : LevelBuilder) (workers : List (List (List Candidate))) :
    List Candidate :=
  b.pending ++ workers.flatten.flatten

variable {t : Tree} {b b' next next' : LevelBuilder}
  {workers workers' : List (List (List Candidate))} {cs ds : List Candidate}

namespace LevelBuilder

/-- A flushed level is the one that it was, with all candidates. -/
theorem Flushed.holds (h : b.Flushed workers next) :
    next.pending.Perm (b.collected workers) ∧ next.depth = b.depth ∧
      next.previous = b.previous := by
  induction h with
  | done hdone =>
    refine ⟨?_, rfl, rfl⟩
    rw [collected, List.flatten_eq_nil_iff.2 hdone]
    simp
  | @turn b next batch later before after hlater ih =>
    obtain ⟨hperm, hdepth, hprevious⟩ := ih
    refine ⟨hperm.trans ?_, hdepth, hprevious⟩
    show (b.pending ++ batch ++ (before ++ later :: after).flatten.flatten).Perm
      (b.pending ++ (before ++ (batch :: later) :: after).flatten.flatten)
    simp only [List.flatten_append, List.flatten_cons, List.append_assoc]
    -- the batch passes those of the workers before
    exact .append_left b.pending (List.perm_append_comm_assoc ..)

end LevelBuilder

namespace Candidate

/-- Two candidates that can stand in either order have the same place and parent. -/
theorem same_of_le {c d : Candidate} (h : c.le d) (h' : d.le c) :
    c.own = d.own ∧ c.parent = d.parent := by
  rcases NodeRef.leAt_iff.1 h with hlt | ⟨heq, hparent⟩
  · rcases NodeRef.leAt_iff.1 h' with hlt' | ⟨heq', -⟩
    · exact absurd hlt' (Nat.lt_asymm hlt)
    · exact absurd heq' (Nat.ne_of_gt hlt)
  · rcases NodeRef.leAt_iff.1 h' with hlt' | ⟨-, hparent'⟩
    · exact absurd heq (Nat.ne_of_gt hlt')
    · exact ⟨Address.toNat_injective heq, NodeRef.le_antisymm hparent hparent'⟩

/-- Sorted candidates are in strict order, but for those with the same place and parent. -/
theorem pairwise_precedes_or (cs : List Candidate) :
    (cs.mergeSort Candidate.le).Pairwise
      fun c d => c.Precedes d ∨ (c.own = d.own ∧ c.parent = d.parent) := by
  refine (pairwise_le cs).imp ?_
  intro c d hle
  by_cases hsame : c.own = d.own ∧ c.parent = d.parent
  · exact .inr hsame
  · exact .inl (precedes_of_le hle (by simpa using hsame))

theorem nodup_of_pairwise (h : cs.Pairwise fun c d => (c.own, c.parent) ≠ (d.own, d.parent)) :
    cs.Nodup := by
  refine h.imp ?_
  rintro c d hne rfl
  exact hne rfl

theorem distinct_of_pairwise
    (h : cs.Pairwise fun c d => (c.own, c.parent) ≠ (d.own, d.parent)) :
    ∀ c ∈ cs, ∀ d ∈ cs, c.own = d.own → c.parent = d.parent → c = d := by
  have hsymm : Std.Symm fun c d : Candidate => (c.own, c.parent) ≠ (d.own, d.parent) :=
    ⟨fun _ _ => Ne.symm⟩
  intro c hc d hd hown hparent
  by_contra hne
  exact h.forall hc hd hne (Prod.ext hown hparent)

/-- Candidates that differ in their place or parent have one order. -/
theorem mergeSort_eq_of_perm (h : cs.Perm ds)
    (hdistinct : ∀ c ∈ cs, ∀ d ∈ cs, c.own = d.own → c.parent = d.parent → c = d) :
    cs.mergeSort Candidate.le = ds.mergeSort Candidate.le := by
  refine List.Perm.eq_of_pairwise ?_ (pairwise_le cs) (pairwise_le ds)
    (((cs.mergeSort_perm _).trans h).trans (ds.mergeSort_perm _).symm)
  intro c d hc hd hle hle'
  obtain ⟨hown, hparent⟩ := same_of_le hle hle'
  have hd' : d ∈ cs := h.mem_iff.2 (List.mem_mergeSort.1 hd)
  exact hdistinct c (List.mem_mergeSort.1 hc) d hd' hown hparent

end Candidate

namespace Tree

/-- A commit does not see in which order the candidates of a level came. -/
theorem commit_of_perm (hdepth : b'.depth = b.depth) (hprevious : b'.previous = b.previous)
    (hperm : b.pending.Perm b'.pending)
    (hdistinct : ∀ c ∈ b.pending, ∀ d ∈ b.pending, c.own = d.own → c.parent = d.parent → c = d) :
    t.commit b' = t.commit b := by
  have hsorted := Candidate.mergeSort_eq_of_perm hperm hdistinct
  simp only [commit, hdepth, hprevious, hsorted, hperm.length_eq]

end Tree

/-- The candidates of a pass can be flushed all together or by its workers, in any batches and
whatever order of the workers. -/
theorem Search.commit_of_flushed {ρ : Type} {read : ρ → Reader} {s : Search} {pass : Pass}
    {sessions : List ρ} {shares : List (List RegionId)} {before : Tree}
    (hpass : pass.Covers read sessions s.job s.map shares) (hm : s.map.Built)
    (hlists : b.Lists before) (hempty : b.pending = [])
    (hbatches : (workers.map List.flatten).Perm (pass.logs.map (s.matcher b).collect))
    (h : b.Flushed workers next) (t : Tree) :
    t.commit next = t.commit (b.flush (pass.logs.flatMap (s.matcher b).collect)) := by
  have hpending : (b.collected workers).Perm
      (b.flush (pass.logs.flatMap (s.matcher b).collect)).pending := by
    show (b.pending ++ workers.flatten.flatten).Perm
      (b.pending ++ pass.logs.flatMap (s.matcher b).collect)
    rw [List.flatten_flatten, List.flatMap_def]
    exact hbatches.flatten.append_left b.pending
  obtain ⟨hperm, hdepth, hprevious⟩ := h.holds
  refine Tree.commit_of_perm hdepth hprevious (hperm.trans hpending).symm ?_
  rw [LevelBuilder.flush, hempty]
  exact Candidate.distinct_of_pairwise (pairwise_collected hpass hm hlists)

namespace Tree

/-- **However workers flush their candidates into a level, a commit makes the same of it**, provided
that candidates differ in their place or parent.  It goes well exactly if there are none, or the
level is there and so are all parents, one level up.  Then the tree gains all candidates, in order
of their places and parents; otherwise it gains those in front of the first that does not fit.  No
candidates are left in the level. -/
theorem commit_flushed (t : Tree) (h : b.Flushed workers next) (h' : b.Flushed workers' next')
    (hsame : (b.collected workers').Perm (b.collected workers)) :
    ((∀ c ∈ b.collected workers, ∀ d ∈ b.collected workers,
      c.own = d.own → c.parent = d.parent → c = d) → t.commit next' = t.commit next) ∧
    ((∃ count, (t.commit next).1 = .ok count) ↔ b.collected workers = [] ∨ (b.depth < t.depth ∧
      ∀ c ∈ b.collected workers, c.parent.depth + 1 = b.depth ∧ (t.node? c.parent).isSome)) ∧
    (t.commit next).2.2 = { b with pending := [] } ∧
    ∃ cs : List Candidate, cs.Perm (b.collected workers) ∧
      cs.Pairwise (fun c d => c.Precedes d ∨ (c.own = d.own ∧ c.parent = d.parent)) ∧
      (∀ count, (t.commit next).1 = .ok count →
        count = cs.length ∧ ∀ after, t.Gains b.depth cs after ↔ after = (t.commit next).2.1) ∧
      ∀ cause, (t.commit next).1 = .error cause → ∃ good bad rest fault, cs = good ++ bad :: rest ∧
        (∀ c ∈ good, c.Fits t b.depth) ∧ t.fault? (some bad.parent) b.depth = some fault ∧
        cause = .invalidNode fault ∧
        ∀ after, t.Gains b.depth good after ↔ after = (t.commit next).2.1 := by
  obtain ⟨hperm, hdepth, hprevious⟩ := h.holds
  obtain ⟨hperm', hdepth', hprevious'⟩ := h'.holds
  refine ⟨?_, ?_, ?_, next.pending.mergeSort Candidate.le,
    (List.mergeSort_perm ..).trans hperm, Candidate.pairwise_precedes_or _, ?_, ?_⟩
  · intro hdistinct
    refine commit_of_perm (hdepth'.trans hdepth.symm) (hprevious'.trans hprevious.symm)
      ((hperm'.trans hsame).trans hperm.symm).symm ?_
    intro c hc d hd
    exact hdistinct c (hperm.mem_iff.1 hc) d (hperm.mem_iff.1 hd)
  · have hmem : (∀ c ∈ next.pending, c.Fits t b.depth) ↔
        ∀ c ∈ b.collected workers, c.Fits t b.depth := by
      simp only [hperm.mem_iff]
    rw [exists_commit_iff, hdepth, hmem]
    exact Candidate.forall_fits_iff
  · rw [commit_eq next rfl, hdepth, hprevious]
  · intro count hcount
    rw [← hdepth]
    rcases t.commit_cases next with ⟨hok, -, hgains⟩ | ⟨good, bad, rest, fault, -, -, -, herror, -⟩
    · rw [hok] at hcount
      cases hcount
      exact ⟨(List.length_mergeSort ..).symm, hgains.iff_eq⟩
    · rw [herror] at hcount
      cases hcount
  · intro cause hcause
    rw [← hdepth]
    rcases t.commit_cases next with ⟨hok, -⟩ |
      ⟨good, bad, rest, fault, hsorted, hfits, hfault, herror, hgains⟩
    · rw [hok] at hcause
      cases hcause
    · rw [herror] at hcause
      cases hcause
      exact ⟨good, bad, rest, fault, hsorted, hfits, hfault, rfl, hgains.iff_eq⟩

/-! ### A level that outlives a parent -/

/-- A root and two nodes below it. -/
def twoParents : List Operation :=
  [.add none ⟨0⟩ (.ofNat 0x8) .null 0, .add (some ⟨0, 0⟩) ⟨0⟩ (.ofNat 0x10) (.ofNat 0x8) 1,
    .add (some ⟨0, 0⟩) ⟨0⟩ (.ofNat 0x20) (.ofNat 0x8) 1]

/-- The level below the two nodes. -/
def belowTwoParents : LevelBuilder where
  depth := 2
  previous := #[(.ofNat 0x10, ⟨1, 0⟩), (.ofNat 0x20, ⟨1, 1⟩)]

/-- A tree that was reset meanwhile, and has one of the two nodes again. -/
def oneParent : Tree := run 3 (twoParents ++ .reset :: twoParents.take 2)

/-- A candidate for the level. -/
def below (parent own : Nat) : Candidate := ⟨⟨1, parent⟩, ⟨0⟩, .ofNat own, .ofNat 0x10⟩

/-- The batches of two workers. -/
def twoWorkers : List (List (List Candidate)) :=
  [[[below 0 0x60, below 1 0x50], [below 0 0x30]], [[below 0 0x40]]]

/-- The same candidates, with three workers. -/
def threeWorkers : List (List (List Candidate)) :=
  [[[below 0 0x40, below 1 0x50]], [[below 0 0x60]], [[below 0 0x30]]]

/-- The second of the two workers flushes between the two batches of the first. -/
def flushedByTwo : LevelBuilder :=
  ((belowTwoParents.flush [below 0 0x60, below 1 0x50]).flush [below 0 0x40]).flush [below 0 0x30]

/-- The last of the three workers flushes first. -/
def flushedByThree : LevelBuilder :=
  ((belowTwoParents.flush [below 0 0x30]).flush [below 0 0x40, below 1 0x50]).flush [below 0 0x60]

theorem flushed_twoWorkers : belowTwoParents.Flushed twoWorkers flushedByTwo :=
  @LevelBuilder.Flushed.turn _ _ _ _ [] [[[below 0 0x40]]] <|
    @LevelBuilder.Flushed.turn _ _ _ _ [[[below 0 0x30]]] [] <|
      @LevelBuilder.Flushed.turn _ _ _ _ [] [[]] <| .done (by simp)

theorem flushed_threeWorkers : belowTwoParents.Flushed threeWorkers flushedByThree :=
  @LevelBuilder.Flushed.turn _ _ _ _ [[[below 0 0x40, below 1 0x50]], [[below 0 0x60]]] [] <|
    @LevelBuilder.Flushed.turn _ _ _ _ [] [[[below 0 0x60]], []] <|
      @LevelBuilder.Flushed.turn _ _ _ _ [[]] [[]] <| .done (by simp)

/-- Either way the commit stops at the candidate whose parent has vanished. -/
theorem commit_flushed_oneParent :
    ((run 3 twoParents).levelBuilder 2 = .ok belowTwoParents ∧
      belowTwoParents.Flushed twoWorkers flushedByTwo ∧
      belowTwoParents.Flushed threeWorkers flushedByThree ∧
      (belowTwoParents.collected threeWorkers).Perm (belowTwoParents.collected twoWorkers) ∧
      (oneParent.commit flushedByTwo).1 = .error (.invalidNode (.missingParent ⟨1, 1⟩))) ∧
    oneParent.commit flushedByThree = oneParent.commit flushedByTwo ∧
    (oneParent.commit flushedByTwo).2.2 = belowTwoParents ∧
    ∃ good bad rest, (good ++ bad :: rest).Perm (belowTwoParents.collected twoWorkers) ∧
      (∀ c ∈ good, c.Fits oneParent 2) ∧
      oneParent.fault? (some bad.parent) 2 = some (.missingParent ⟨1, 1⟩) ∧
      oneParent.Gains 2 good (oneParent.commit flushedByTwo).2.1 := by
  have hbuilder : (run 3 twoParents).levelBuilder 2 = .ok belowTwoParents := by cbv
  have hperm : (belowTwoParents.collected threeWorkers).Perm
      (belowTwoParents.collected twoWorkers) := by decide
  have herror : (oneParent.commit flushedByTwo).1 =
      .error (.invalidNode (.missingParent ⟨1, 1⟩)) := by cbv
  obtain ⟨hsame, -, hempty, cs, hcs, -, -, hfails⟩ :=
    commit_flushed oneParent flushed_twoWorkers flushed_threeWorkers hperm
  obtain ⟨good, bad, rest, fault, rfl, hfits, hfault, hcause, hgains⟩ := hfails _ herror
  cases hcause
  exact ⟨⟨hbuilder, flushed_twoWorkers, flushed_threeWorkers, hperm, herror⟩, hsame (by decide),
    hempty, good, bad, rest, hcs, hfits, hfault, (hgains _).2 rfl⟩

end Tree

end PointerChains
