import Mathlib
import PointerChains.Proofs.Pool.Cancellation

/-!
# Reports in any order

Of each worker only the first report counts, whenever it comes in.  So a tally is known from the
first reports alone, but for which of several failures came in first.

* `Report`, `firstReport?`, `Report.Counts` — reports as they come in, and those that count;
* `Tally.after` — the tally behind some reports;
* `Tally.done_after`, `Tally.pending_after`, `Tally.stats_after` — what it says of the workers;
* `Tally.error_after_eq_some_iff` — its error is that of the earliest failing report that counts.
-/

namespace PointerChains

/-- A report as it comes in. -/
structure Report where
  worker : Nat
  result : Except Error Stats

/-- What the worker reported first, if it has reported. -/
def firstReport? (reports : List Report) (i : Nat) : Option (Except Error Stats) :=
  (reports.find? fun r => r.worker = i).map Report.result

/-- The report counts behind the ones before it: there is such a worker, and it had not reported. -/
def Report.Counts (r : Report) (workers : Nat) (before : List Report) : Prop :=
  r.worker < workers ∧ firstReport? before r.worker = none

/-- No worker reported a failure first. -/
def Unfailed (workers : Nat) (reports : List Report) : Prop :=
  ∀ i < workers, ∀ cause, firstReport? reports i ≠ some (.error cause)

/-- The failure is that of the earliest failing report that counts. -/
def FailsFirst (workers : Nat) (reports : List Report) (cause : Error) : Prop :=
  ∃ before r later, reports = before ++ r :: later ∧ r.Counts workers before ∧
    r.result = .error cause ∧ Unfailed workers before

/-- The totals of a worker that has reported some. -/
def totalsOf : Option (Except Error Stats) → Stats
  | some (.ok stats) => stats
  | _ => {}

/-- The sums of the totals that the workers reported first. -/
def sumStats (workers : Nat) (reports : List Report) : Stats where
  addresses := ∑ i ∈ Finset.range workers, (totalsOf (firstReport? reports i)).addresses
  bytes := ∑ i ∈ Finset.range workers, (totalsOf (firstReport? reports i)).bytes

/-- The tally of so many workers behind the reports. -/
def Tally.after (workers : Nat) (reports : List Report) : Tally :=
  reports.foldl (fun t r => t.record r.worker r.result) (.start workers)

variable {workers n i : Nat} {reports before : List Report} {r : Report} {cause : Error}
  {result : Except Error Stats} {t : Tally}

/-! ### First reports -/

theorem firstReport?_append (reports later : List Report) (i : Nat) :
    firstReport? (reports ++ later) i = (firstReport? reports i).or (firstReport? later i) := by
  rw [firstReport?, List.find?_append, Option.map_or]
  rfl

/-- A first report is never taken back. -/
theorem firstReport?_append_of_some (h : firstReport? reports i = some result)
    (later : List Report) : firstReport? (reports ++ later) i = some result := by
  rw [firstReport?_append, h]
  rfl

/-- One more report is the first one of its own worker at most. -/
theorem firstReport?_concat_of_ne (h : r.worker ≠ i) :
    firstReport? (reports ++ [r]) i = firstReport? reports i := by
  have hnone : firstReport? [r] i = none := by
    simp [firstReport?, h]
  rw [firstReport?_append, hnone, Option.or_none]

theorem Report.Counts.firstReport?_concat (h : r.Counts workers reports) :
    firstReport? (reports ++ [r]) r.worker = some r.result := by
  have hfirst : firstReport? [r] r.worker = some r.result := by
    simp [firstReport?]
  rw [firstReport?_append, h.2, hfirst]
  rfl

/-- A report that does not count changes no first report. -/
theorem firstReport?_concat_of_not_counts (h : ¬r.Counts workers reports) (hi : i < workers) :
    firstReport? (reports ++ [r]) i = firstReport? reports i := by
  by_cases hworker : r.worker = i
  · rw [Report.Counts, hworker, not_and] at h
    obtain ⟨result, hresult⟩ := Option.ne_none_iff_exists'.1 (h hi)
    rw [firstReport?_append_of_some hresult, hresult]
  · exact firstReport?_concat_of_ne hworker

theorem Report.Counts.unfailed_concat_iff (h : r.Counts workers reports) :
    Unfailed workers (reports ++ [r]) ↔
      Unfailed workers reports ∧ ∀ cause, r.result ≠ .error cause := by
  constructor
  · intro hunfailed
    refine ⟨?_, ?_⟩
    · intro i hi cause hfails
      exact hunfailed i hi cause (firstReport?_append_of_some hfails [r])
    · intro cause hfails
      exact hunfailed r.worker h.1 cause (h.firstReport?_concat.trans (congrArg some hfails))
  · intro hboth i hi cause hfails
    obtain ⟨hunfailed, hresult⟩ := hboth
    by_cases hworker : r.worker = i
    · subst hworker
      rw [h.firstReport?_concat, Option.some.injEq] at hfails
      exact hresult cause hfails
    · rw [firstReport?_concat_of_ne hworker] at hfails
      exact hunfailed i hi cause hfails

theorem unfailed_concat_of_not_counts (h : ¬r.Counts workers reports) :
    Unfailed workers (reports ++ [r]) ↔ Unfailed workers reports := by
  have hsame : ∀ i < workers, firstReport? (reports ++ [r]) i = firstReport? reports i :=
    fun i hi => firstReport?_concat_of_not_counts h hi
  constructor
  · intro hunfailed i hi
    rw [← hsame i hi]
    exact hunfailed i hi
  · intro hunfailed i hi
    rw [hsame i hi]
    exact hunfailed i hi

/-! ### The fields of a tally -/

namespace Tally

theorem record_of_done (h : t.done[n]? ≠ some false) (result : Except Error Stats) :
    t.record n result = t := by
  rw [record]
  split
  · contradiction
  · rfl

/-- What a report that counts does, but for its failure. -/
theorem record_of_not_done (h : t.done[n]? = some false) (result : Except Error Stats) :
    (t.record n result).done = t.done.set n true ∧
      (t.record n result).pending = t.pending - 1 ∧
      (t.record n result).stats = t.stats + totalsOf (some result) := by
  rw [record, h]
  cases result with
  | ok stats => exact ⟨rfl, rfl, rfl⟩
  | error cause => exact ⟨rfl, rfl, rfl⟩

theorem after_concat (workers : Nat) (reports : List Report) (r : Report) :
    after workers (reports ++ [r]) = (after workers reports).record r.worker r.result := by
  rw [after, List.foldl_append]
  rfl

/-- A worker is noted down once it has reported. -/
theorem done_after (workers : Nat) (reports : List Report) (i : Nat) :
    (after workers reports).done[i]? =
      if i < workers then some (firstReport? reports i).isSome else none := by
  induction reports using List.reverseRecOn generalizing i with
  | nil =>
    show (List.replicate workers false)[i]? = _
    rw [List.getElem?_replicate]
    rfl
  | append_singleton reports r ih =>
    rw [after_concat]
    -- what was noted down so far tells whether the report counts
    by_cases hfalse : (after workers reports).done[r.worker]? = some false
    · have hcounts : r.Counts workers reports := by
        rw [ih] at hfalse
        split at hfalse
        · rename_i hlt
          rw [Option.some.injEq, Option.isSome_eq_false_iff, Option.isNone_iff_eq_none] at hfalse
          exact ⟨hlt, hfalse⟩
        · cases hfalse
      rw [(record_of_not_done hfalse r.result).1]
      by_cases hworker : r.worker = i
      · subst hworker
        rw [List.getElem?_set_self (List.getElem?_eq_some_iff.1 hfalse).1, if_pos hcounts.1,
          hcounts.firstReport?_concat]
        rfl
      · rw [List.getElem?_set_ne hworker, ih, firstReport?_concat_of_ne hworker]
    · rw [record_of_done hfalse, ih]
      by_cases hi : i < workers
      · have hcounts : ¬r.Counts workers reports := by
          intro hcounts
          rw [ih, if_pos hcounts.1, hcounts.2] at hfalse
          exact hfalse rfl
        rw [firstReport?_concat_of_not_counts hcounts hi]
      · rw [if_neg hi, if_neg hi]

/-- A report counts if its worker is still to be noted down. -/
theorem done_after_eq_false_iff :
    (after workers reports).done[r.worker]? = some false ↔ r.Counts workers reports := by
  rw [done_after, Report.Counts]
  by_cases hlt : r.worker < workers
  · rw [if_pos hlt, Option.some.injEq, Option.isSome_eq_false_iff, Option.isNone_iff_eq_none]
    exact (and_iff_right hlt).symm
  · rw [if_neg hlt]
    exact iff_of_false nofun fun hcounts => hlt hcounts.1

theorem after_concat_of_not_counts (h : ¬r.Counts workers reports) :
    after workers (reports ++ [r]) = after workers reports := by
  rw [after_concat]
  exact record_of_done (fun hfalse => h (done_after_eq_false_iff.1 hfalse)) r.result

/-- The workers that have not reported. -/
def silent (workers : Nat) (reports : List Report) : Finset Nat :=
  (Finset.range workers).filter fun i => firstReport? reports i = none

theorem mem_silent_iff :
    i ∈ silent workers reports ↔ i < workers ∧ firstReport? reports i = none := by
  rw [silent, Finset.mem_filter, Finset.mem_range]

theorem silent_concat (h : r.Counts workers reports) :
    silent workers (reports ++ [r]) = (silent workers reports).erase r.worker := by
  ext i
  rw [Finset.mem_erase, mem_silent_iff, mem_silent_iff]
  by_cases hworker : r.worker = i
  · subst hworker
    rw [h.firstReport?_concat]
    simp
  · rw [firstReport?_concat_of_ne hworker]
    exact ⟨fun hi => ⟨Ne.symm hworker, hi⟩, And.right⟩

/-- The tally waits for just the workers that have not reported. -/
theorem pending_after (workers : Nat) (reports : List Report) :
    (after workers reports).pending = (silent workers reports).card := by
  induction reports using List.reverseRecOn with
  | nil =>
    have hall : silent workers [] = Finset.range workers :=
      Finset.filter_true_of_mem fun _ _ => rfl
    rw [hall, Finset.card_range]
    rfl
  | append_singleton reports r ih =>
    by_cases hcounts : r.Counts workers reports
    · rw [after_concat, (record_of_not_done (done_after_eq_false_iff.2 hcounts) r.result).2.1, ih,
        silent_concat hcounts, Finset.card_erase_of_mem (mem_silent_iff.2 hcounts)]
    · have hsame : silent workers (reports ++ [r]) = silent workers reports := by
        refine Finset.filter_congr ?_
        intro i hi
        rw [firstReport?_concat_of_not_counts hcounts (Finset.mem_range.1 hi)]
      rw [after_concat_of_not_counts hcounts, ih, hsame]

theorem pending_after_eq_zero_iff :
    (after workers reports).pending = 0 ↔ ∀ i < workers, firstReport? reports i ≠ none := by
  rw [pending_after, Finset.card_eq_zero, Finset.eq_empty_iff_forall_notMem]
  simp only [mem_silent_iff, not_and, ne_eq]

/-- A report that counts adds its totals to the sums of a field. -/
theorem sum_concat (h : r.Counts workers reports) (field : Stats → Nat) (hzero : field {} = 0) :
    ∑ i ∈ Finset.range workers, field (totalsOf (firstReport? (reports ++ [r]) i)) =
      ∑ i ∈ Finset.range workers, field (totalsOf (firstReport? reports i)) +
        field (totalsOf (some r.result)) := by
  have hterm : ∀ i ∈ Finset.range workers,
      field (totalsOf (firstReport? (reports ++ [r]) i)) =
        field (totalsOf (firstReport? reports i)) +
          if r.worker = i then field (totalsOf (some r.result)) else 0 := by
    intro i _
    by_cases hworker : r.worker = i
    · subst hworker
      rw [h.firstReport?_concat, h.2, if_pos rfl]
      show _ = field {} + _
      rw [hzero, Nat.zero_add]
    · rw [firstReport?_concat_of_ne hworker, if_neg hworker, Nat.add_zero]
  rw [Finset.sum_congr rfl hterm, Finset.sum_add_distrib, Finset.sum_ite_eq,
    if_pos (Finset.mem_range.2 h.1)]

/-- The totals are the sums of those that the workers reported first. -/
theorem stats_after (workers : Nat) (reports : List Report) :
    (after workers reports).stats = sumStats workers reports := by
  induction reports using List.reverseRecOn with
  | nil =>
    show ({} : Stats) = ⟨∑ _ ∈ _, 0, ∑ _ ∈ _, 0⟩
    rw [Finset.sum_const_zero]
  | append_singleton reports r ih =>
    by_cases hcounts : r.Counts workers reports
    · rw [after_concat, (record_of_not_done (done_after_eq_false_iff.2 hcounts) r.result).2.2, ih,
        sumStats, sumStats, Stats.mk_add_mk, sum_concat hcounts Stats.addresses rfl,
        sum_concat hcounts Stats.bytes rfl]
    · have hsame : ∀ i ∈ Finset.range workers,
          totalsOf (firstReport? (reports ++ [r]) i) = totalsOf (firstReport? reports i) := by
        intro i hi
        rw [firstReport?_concat_of_not_counts hcounts (Finset.mem_range.1 hi)]
      rw [after_concat_of_not_counts hcounts, ih, sumStats, sumStats,
        Finset.sum_congr rfl fun i hi => congrArg Stats.addresses (hsame i hi),
        Finset.sum_congr rfl fun i hi => congrArg Stats.bytes (hsame i hi)]

/-! ### The first failure -/

theorem error_after_eq_none_iff :
    (after workers reports).error = none ↔ Unfailed workers reports := by
  induction reports using List.reverseRecOn with
  | nil => exact iff_of_true rfl fun i _ cause => nofun
  | append_singleton reports r ih =>
    by_cases hcounts : r.Counts workers reports
    · have hfalse := done_after_eq_false_iff.2 hcounts
      rw [after_concat, hcounts.unfailed_concat_iff, ← ih]
      cases hresult : r.result with
      | ok stats =>
        rw [error_record_ok]
        exact (and_iff_left nofun).symm
      | error cause =>
        exact iff_of_false (error_record_error hfalse cause) fun hboth => hboth.2 cause rfl
    · rw [after_concat_of_not_counts hcounts, unfailed_concat_of_not_counts hcounts, ih]

/-- The first failure stays. -/
theorem error_after_append (h : (after workers before).error = some cause) (later : List Report) :
    (after workers (before ++ later)).error = some cause := by
  induction later using List.reverseRecOn with
  | nil =>
    rw [List.append_nil]
    exact h
  | append_singleton later r ih =>
    rw [← List.append_assoc, after_concat]
    exact Pool.Tally.error_record_of_error ih r.worker r.result

theorem error_after_eq_some_iff :
    (after workers reports).error = some cause ↔ FailsFirst workers reports cause := by
  constructor
  · intro herror
    induction reports using List.reverseRecOn with
    | nil => cases herror
    | append_singleton reports r ih =>
      -- either there was a failure before, which stays, or this report is the first to fail
      cases hbefore : (after workers reports).error with
      | some first =>
        have hkept := error_after_append hbefore [r]
        rw [herror, Option.some.injEq] at hkept
        subst hkept
        obtain ⟨before, first, later, rfl, hfirst⟩ := ih hbefore
        exact ⟨before, first, later ++ [r], by simp, hfirst⟩
      | none =>
        by_cases hcounts : r.Counts workers reports
        · have hfalse := done_after_eq_false_iff.2 hcounts
          rw [after_concat] at herror
          cases hresult : r.result with
          | ok stats =>
            rw [hresult, error_record_ok, hbefore] at herror
            cases herror
          | error other =>
            rw [hresult, Pool.Tally.error_record_of_none hbefore hfalse, Option.some.injEq]
              at herror
            subst herror
            exact ⟨reports, r, [], rfl, hcounts, hresult, error_after_eq_none_iff.1 hbefore⟩
        · rw [after_concat_of_not_counts hcounts, hbefore] at herror
          cases herror
  · intro hfails
    obtain ⟨before, r, later, rfl, hcounts, hresult, hunfailed⟩ := hfails
    have hnone := error_after_eq_none_iff.2 hunfailed
    have hfirst : (after workers (before ++ [r])).error = some cause := by
      rw [after_concat, hresult]
      exact Pool.Tally.error_record_of_none hnone (done_after_eq_false_iff.2 hcounts) cause
    rw [List.append_cons]
    exact error_after_append hfirst later

/-- The failure that came first was the first report of its worker. -/
theorem exists_worker_of_failsFirst (h : FailsFirst workers reports cause) :
    ∃ i < workers, firstReport? reports i = some (.error cause) := by
  obtain ⟨before, r, later, rfl, hcounts, hresult, -⟩ := h
  refine ⟨r.worker, hcounts.1, ?_⟩
  rw [List.append_cons, ← hresult]
  exact firstReport?_append_of_some hcounts.firstReport?_concat later

theorem exists_outcome_eq_ok_iff :
    (∃ stats, (after workers reports).outcome = .ok stats) ↔ Unfailed workers reports := by
  simp only [outcome_eq_ok_iff, exists_and_left, exists_eq', and_true, error_after_eq_none_iff]

theorem outcome_eq_error_iff : t.outcome = .error cause ↔ t.error = some cause := by
  rw [outcome]
  cases t.error with
  | none => simp only [reduceCtorEq]
  | some first => rw [Except.error.injEq, Option.some.injEq]

end Tally

end PointerChains
