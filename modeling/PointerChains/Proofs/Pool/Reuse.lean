import PointerChains.Proofs.Balance.Regions

/-!
# Kept partitions

A partition is kept for its stamp and its number of workers alone, though it was made of a map and
of regions, too.  As long as one stamp always comes with the same map and the same regions, that is
enough: what is kept is always the partition that the last accepted query would get afresh.

* `Partition.Query`, `Partition.answers` — queries, and what can be seen of their answers;
* `Partition.Keeps` — the partition is the fresh one of some query before, or none was made yet;
* `Partition.Keeps.ask_eq` — an update answers as a fresh partition does, whether it is one or not;
* `Partition.answer_fresh` — **every answer is the fresh one, and a query that fails leaves no
  trace in the others**.
-/

namespace PointerChains

namespace Partition

/-- What a partition is asked for. -/
structure Query where
  map : MemoryMap
  regions : List RegionId
  stamp : Nat
  workers : Nat
  /-- Whether it has to be made anew. -/
  force : Bool

/-- The partition for the query, made from scratch. -/
def Query.fresh (q : Query) : Except Error (List (List RegionId)) :=
  partition q.map q.regions q.workers

/-- Queries with one stamp are about the same regions of the same map. -/
def Consistent (qs : List Query) : Prop :=
  ∀ q ∈ qs, ∀ q' ∈ qs, q.stamp = q'.stamp → q.map = q'.map ∧ q.regions = q'.regions

/-- The answer to a query: whether the partition had to be made, and the one that is kept then. -/
def ask (p : Partition) (q : Query) : Except Error (Bool × Partition) :=
  p.update q.map q.regions q.stamp q.workers q.force

/-- What is kept behind a query: nothing else than before, if it fails. -/
def after (p : Partition) (q : Query) : Partition :=
  match p.ask q with
  | .ok (_, kept) => kept
  | .error _ => p

/-- What is kept behind queries. -/
def run (p : Partition) (qs : List Query) : Partition := qs.foldl after p

/-- What can be seen of the answers: each report, and the shares as they are then. -/
def answers : Partition → List Query → List (Except Error Bool × List (List RegionId))
  | _, [] => []
  | p, q :: qs => ((p.ask q).map Prod.fst, (p.after q).shares) :: answers (p.after q) qs

/-- The last query that could be answered. -/
def lastAnswered (qs : List Query) : Option Query := (qs.filter fun q => q.fresh.isOk).getLast?

variable {p : Partition} {q : Query} {qs before later : List Query}

theorem length_answers (p : Partition) (qs : List Query) : (p.answers qs).length = qs.length := by
  induction qs generalizing p with
  | nil => rfl
  | cons q qs ih => rw [answers, List.length_cons, List.length_cons, ih]

theorem answers_append (p : Partition) (qs qs' : List Query) :
    p.answers (qs ++ qs') = p.answers qs ++ (p.run qs).answers qs' := by
  induction qs generalizing p with
  | nil => rfl
  | cons q qs ih =>
    rw [List.cons_append, answers, ih, answers, List.cons_append]
    rfl

theorem run_concat (p : Partition) (qs : List Query) (q : Query) :
    p.run (qs ++ [q]) = (p.run qs).after q := by
  rw [run, List.foldl_append]
  rfl

/-! ### What is kept -/

/-- What is kept is the fresh partition of the last query that could be answered, if there was
one. -/
def Keeps (p : Partition) (qs : List Query) : Prop :=
  match lastAnswered qs with
  | none => p = {}
  | some q => ∃ shares, q.fresh = .ok shares ∧ p = { shares, stamp := some q.stamp }

theorem mem_of_lastAnswered {q : Query} (h : lastAnswered qs = some q) : q ∈ qs :=
  (List.mem_filter.1 (List.mem_of_getLast? h)).1

/-- The partition is kept for the stamp and the workers of the last query that could be
answered. -/
theorem Keeps.isFor_iff (h : p.Keeps qs) (stamp workers : Nat) :
    p.isFor stamp workers = true ↔
      ∃ last, lastAnswered qs = some last ∧ last.stamp = stamp ∧ last.workers = workers := by
  rw [Keeps] at h
  cases hlast : lastAnswered qs with
  | none =>
    rw [hlast] at h
    subst h
    simp [isFor]
  | some last =>
    rw [hlast] at h
    obtain ⟨shares, hfresh, rfl⟩ := h
    have hlength : shares.length = last.workers := (partition_eq_ok hfresh).1
    simp [isFor, hlength]

/-- A partition that is kept for a query is the fresh one. -/
theorem Keeps.eq_of_isFor (h : p.Keeps qs) (hconsistent : Consistent (qs ++ [q]))
    (hkept : p.isFor q.stamp q.workers = true) :
    ∃ shares, q.fresh = .ok shares ∧ p = { shares, stamp := some q.stamp } := by
  obtain ⟨last, hlast, hstamp, hworkers⟩ := (h.isFor_iff q.stamp q.workers).1 hkept
  have hmem : last ∈ qs ++ [q] := List.mem_append_left _ (mem_of_lastAnswered hlast)
  obtain ⟨hmap, hregions⟩ := hconsistent last hmem q (by simp) hstamp
  rw [Keeps, hlast] at h
  obtain ⟨shares, hfresh, rfl⟩ := h
  rw [Query.fresh, hmap, hregions, hworkers] at hfresh
  exact ⟨shares, hfresh, by rw [hstamp]⟩

/-- **An update answers as a fresh partition does.**  Only the report tells whether it was made. -/
theorem Keeps.ask_eq (h : p.Keeps qs) (hconsistent : Consistent (qs ++ [q])) :
    p.ask q = q.fresh.map fun shares =>
      (q.force || !p.isFor q.stamp q.workers, { shares, stamp := some q.stamp }) := by
  rw [ask, update]
  by_cases hreuse : (!q.force && p.isFor q.stamp q.workers) = true
  · rw [if_pos hreuse]
    rw [Bool.and_eq_true, Bool.not_eq_true'] at hreuse
    obtain ⟨hforce, hkept⟩ := hreuse
    obtain ⟨shares, hfresh, hp⟩ := h.eq_of_isFor hconsistent hkept
    rw [hfresh, hforce, hkept]
    exact congrArg (fun kept => Except.ok (false, kept)) hp
  · rw [if_neg hreuse]
    have hmade : (q.force || !p.isFor q.stamp q.workers) = true := by
      rw [Bool.not_eq_true] at hreuse
      rw [← Bool.not_not (q.force || _), Bool.not_or, Bool.not_not, hreuse]
      rfl
    rw [hmade, Query.fresh]
    cases partition q.map q.regions q.workers with
    | error cause => rfl
    | ok shares => rfl

/-- What is kept behind a query is the fresh partition, or what was kept before it. -/
theorem Keeps.after_eq (h : p.Keeps qs) (hconsistent : Consistent (qs ++ [q])) :
    p.after q = match q.fresh with
      | .ok shares => { shares, stamp := some q.stamp }
      | .error _ => p := by
  rw [after, h.ask_eq hconsistent]
  cases q.fresh with
  | error cause => rfl
  | ok shares => rfl

/-- A query that can be answered is the last of those, and any other changes nothing. -/
theorem lastAnswered_concat (qs : List Query) (q : Query) :
    lastAnswered (qs ++ [q]) = if q.fresh.isOk then some q else lastAnswered qs := by
  rw [lastAnswered, List.filter_append, List.filter_singleton]
  cases q.fresh.isOk with
  | true => exact List.getLast?_concat
  | false => exact congrArg List.getLast? (List.append_nil _)

theorem Keeps.after (h : p.Keeps qs) (hconsistent : Consistent (qs ++ [q])) :
    (p.after q).Keeps (qs ++ [q]) := by
  rw [h.after_eq hconsistent, Keeps, lastAnswered_concat]
  cases hfresh : q.fresh with
  | error cause => exact h
  | ok shares => exact ⟨shares, hfresh, rfl⟩

theorem Consistent.of_append (h : Consistent (qs ++ later)) : Consistent qs :=
  fun q hq q' hq' => h q (List.mem_append_left _ hq) q' (List.mem_append_left _ hq')

/-- Whatever was asked for, the fresh partition of the last query that could be answered is kept. -/
theorem keeps_run (h : Consistent qs) : (run {} qs).Keeps qs := by
  induction qs using List.reverseRecOn with
  | nil => rfl
  | append_singleton qs q ih =>
    rw [run_concat]
    exact (ih h.of_append).after h

/-! ### Answers -/

/-- The answer to one of several queries. -/
theorem getElem?_answers (p : Partition) (before : List Query) (q : Query) (later : List Query) :
    (p.answers (before ++ q :: later))[before.length]? =
      some (((p.run before).ask q).map Prod.fst, ((p.run before).after q).shares) := by
  have hlength := length_answers p before
  rw [answers_append, List.getElem?_append_right (Nat.le_of_eq hlength), hlength, Nat.sub_self]
  rfl

/-- A query that keeps the partition as it was leaves no trace in the other answers. -/
theorem eraseIdx_answers (later : List Query) (h : (p.run before).after q = p.run before) :
    (p.answers (before ++ q :: later)).eraseIdx before.length = p.answers (before ++ later) := by
  have hlength := length_answers p before
  rw [answers_append, List.eraseIdx_append_of_length_le (Nat.le_of_eq hlength), hlength,
    Nat.sub_self, answers_append, answers, List.eraseIdx_cons_zero, h]

/-- **Every answer is the fresh one.**  A query that is answered leaves the partition made from
scratch, and is told that it was kept exactly if none had to be made: it was not forced, and the
last query that could be answered had its stamp and its number of workers.  One that fails does so
as the fresh partition does, and all other answers are those without it. -/
theorem answer_fresh (h : Consistent qs) (hqs : qs = before ++ q :: later) :
    ∃ report shares, (answers {} qs)[before.length]? = some (report, shares) ∧
      (∀ made, report = .ok made → q.fresh = .ok shares ∧
        (made = false ↔ q.force = false ∧ ∃ last, lastAnswered before = some last ∧
          last.stamp = q.stamp ∧ last.workers = q.workers)) ∧
      (∀ cause, report = .error cause → q.fresh = .error cause ∧
        shares = (run {} before).shares ∧
        (answers {} qs).eraseIdx before.length = answers {} (before ++ later)) := by
  subst hqs
  have hbefore : Consistent (before ++ [q]) := by
    rw [← List.singleton_append, ← List.append_assoc] at h
    exact h.of_append
  have hkeeps := keeps_run hbefore.of_append
  have hask := hkeeps.ask_eq hbefore
  have hafter := hkeeps.after_eq hbefore
  refine ⟨((run {} before).ask q).map Prod.fst, ((run {} before).after q).shares,
    getElem?_answers {} before q later, ?_, ?_⟩
  · intro made hreport
    rw [hask] at hreport
    rw [hafter]
    cases hfresh : q.fresh with
    | error cause =>
      rw [hfresh] at hreport
      cases hreport
    | ok shares =>
      rw [hfresh] at hreport
      cases hreport
      refine ⟨rfl, ?_⟩
      rw [Bool.or_eq_false_iff, Bool.not_eq_false', hkeeps.isFor_iff]
  · intro cause hreport
    rw [hask] at hreport
    cases hfresh : q.fresh with
    | ok shares =>
      rw [hfresh] at hreport
      cases hreport
    | error first =>
      rw [hfresh] at hreport
      cases hreport
      rw [hfresh] at hafter
      exact ⟨rfl, congrArg shares hafter, eraseIdx_answers later hafter⟩

/-- Four regions for two workers, then a region that is not there, then the four regions again. -/
def askTwice : List Query :=
  [⟨.fourRegions, [⟨3⟩, ⟨0⟩, ⟨1⟩, ⟨2⟩], 1, 2, false⟩, ⟨.fourRegions, [⟨7⟩], 2, 2, true⟩,
    ⟨.fourRegions, [⟨3⟩, ⟨0⟩, ⟨1⟩, ⟨2⟩], 1, 2, false⟩]

theorem answer_fresh_askTwice : Consistent askTwice ∧
    ((answers {} askTwice)[1]? = some (.error (.unknownRegion ⟨7⟩), [[⟨1⟩], [⟨2⟩, ⟨3⟩, ⟨0⟩]]) ∧
      (answers {} askTwice).eraseIdx 1 = answers {} (askTwice.eraseIdx 1)) ∧
    (answers {} askTwice)[2]? = some (.ok false, [[⟨1⟩], [⟨2⟩, ⟨3⟩, ⟨0⟩]]) ∧
      partition .fourRegions [⟨3⟩, ⟨0⟩, ⟨1⟩, ⟨2⟩] 2 = .ok [[⟨1⟩], [⟨2⟩, ⟨3⟩, ⟨0⟩]] := by
  have hconsistent : Consistent askTwice := by
    simp [Consistent, askTwice]
  have hsecond : (answers {} askTwice)[1]? =
      some (.error (.unknownRegion ⟨7⟩), [[⟨1⟩], [⟨2⟩, ⟨3⟩, ⟨0⟩]]) := by cbv
  have hthird : (answers {} askTwice)[2]? =
      some (.ok false, [[⟨1⟩], [⟨2⟩, ⟨3⟩, ⟨0⟩]]) := by cbv
  have hmiddle : askTwice =
      askTwice.take 1 ++ ⟨.fourRegions, [⟨7⟩], 2, 2, true⟩ :: askTwice.drop 2 := rfl
  have hlast : askTwice =
      askTwice.take 2 ++ [⟨.fourRegions, [⟨3⟩, ⟨0⟩, ⟨1⟩, ⟨2⟩], 1, 2, false⟩] := rfl
  obtain ⟨report, shares, hanswer, -, hfailed⟩ := answer_fresh hconsistent hmiddle
  obtain ⟨report', shares', hanswer', hanswered, -⟩ := answer_fresh hconsistent hlast
  cases hsecond.symm.trans hanswer
  cases hthird.symm.trans hanswer'
  exact ⟨hconsistent, ⟨hsecond, (hfailed _ rfl).2.2⟩, hthird, (hanswered _ rfl).1⟩

end Partition

end PointerChains
