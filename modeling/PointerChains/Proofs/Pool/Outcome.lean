import PointerChains.Proofs.Pool.Coverage
import PointerChains.Proofs.Pool.Reports
import PointerChains.Proofs.Sweep.Progress

/-!
# The outcome of reports

Once every worker has reported, the outcome is known from the first reports: their sums, unless one
of them is a failure, and then the earliest one.  The sums fit into words, since a sweep counts no
more than its regions have, and regions apart have fewer bytes than there are addresses.

* `sumStats_lt` — the sums fit into words;
* `Tally.after_spec` — **what a tally says behind reports in any order.**
-/

namespace PointerChains

variable {ρ : Type} {workers n : Nat} {reports : List Report} {cause : Error}

/-! ### Totals in words -/

/-- Entries of a list by their positions, some of them left out. -/
theorem sum_getD_le (sizes : List Nat) (n : Nat) :
    ∑ i ∈ Finset.range n, sizes[i]?.getD 0 ≤ sizes.sum := by
  induction sizes generalizing n with
  | nil => simp
  | cons size sizes ih =>
    cases n with
    | zero => exact Nat.zero_le _
    | succ n =>
      rw [Finset.sum_range_succ', List.sum_cons, Nat.add_comm]
      exact Nat.add_le_add_left (ih n) size

/-- The number of bytes in the regions of a plan. -/
def Plan.size (p : Plan) : Nat := (p.areas.map Area.size).sum

/-- The totals of a worker that reports some are those of a sweep by its plan. -/
def ReportSweeps (plans : List Plan) (workers : Nat) (reports : List Report) : Prop :=
  ∀ i < workers, ∀ stats, firstReport? reports i = some (.ok stats) →
    ∃ plan read signals, plans[i]? = some plan ∧ (plan.run read signals).report? = some (.ok stats)

/-- Reports of sweeps of regions apart have sums that fit into words. -/
theorem sumStats_lt {plans : List Plan} (hapart : (plans.flatMap Plan.areas).Pairwise Area.Apart)
    (hsweeps : ReportSweeps plans workers reports) :
    (sumStats workers reports).addresses < 2 ^ 64 ∧ (sumStats workers reports).bytes < 2 ^ 64 := by
  have hsize : (plans.map Plan.size).sum < 2 ^ 64 := by
    have hall := Area.sum_size_lt hapart
    rw [List.map_flatMap, List.flatMap_def, List.sum_flatten, List.map_map] at hall
    exact hall
  have hbound : ∀ i ∈ Finset.range workers,
      (totalsOf (firstReport? reports i)).addresses ≤ (plans.map Plan.size)[i]?.getD 0 ∧
        (totalsOf (firstReport? reports i)).bytes ≤ (plans.map Plan.size)[i]?.getD 0 := by
    intro i hi
    cases hreport : firstReport? reports i with
    | none => exact ⟨Nat.zero_le _, Nat.zero_le _⟩
    | some result =>
      cases result with
      | error cause => exact ⟨Nat.zero_le _, Nat.zero_le _⟩
      | ok stats =>
        obtain ⟨plan, read, signals, hplan, hok⟩ :=
          hsweeps i (Finset.mem_range.1 hi) stats hreport
        obtain ⟨-, rfl⟩ := Sweep.report?_eq_ok_iff.1 hok
        rw [List.getElem?_map, hplan]
        exact Plan.stats_run_le
  have hsum := sum_getD_le (plans.map Plan.size) workers
  have haddresses := Finset.sum_le_sum fun i hi => (hbound i hi).1
  have hbytes := Finset.sum_le_sum fun i hi => (hbound i hi).2
  exact ⟨haddresses.trans_lt (hsum.trans_lt hsize), hbytes.trans_lt (hsum.trans_lt hsize)⟩

/-! ### The outcome -/

namespace Tally

/-- If one worker alone fails, its failure is the outcome. -/
theorem outcome_after_of_one_failure (hn : n < workers)
    (hfails : firstReport? reports n = some (.error cause))
    (hothers : ∀ i < workers, i ≠ n → ∃ stats, firstReport? reports i = some (.ok stats)) :
    (after workers reports).outcome = .error cause := by
  rw [outcome_eq_error_iff]
  cases herror : (after workers reports).error with
  | none => exact absurd hfails (error_after_eq_none_iff.1 herror n hn cause)
  | some first =>
    obtain ⟨i, hi, hfirst⟩ := exists_worker_of_failsFirst (error_after_eq_some_iff.1 herror)
    by_cases hworker : i = n
    · rw [hworker, hfails, Option.some.injEq, Except.error.injEq] at hfirst
      rw [hfirst]
    · obtain ⟨stats, hok⟩ := hothers i hi hworker
      rw [hok] at hfirst
      cases hfirst

/-- **What a tally says behind reports in any order**, with late reports and reports of nobody among
them.  It waits for just the workers that have not reported: a report that counts is one less to
wait for, and any other changes nothing.  Once it waits for none, the outcome is the sums of the
first reports if all of these are totals, and else the earliest failure that counts; if one worker
alone fails, it is the failure of that worker in any case.  The totals of sweeps of regions apart
fit into words. -/
theorem after_spec (workers : Nat) (reports : List Report) :
    (after workers reports).pending =
      ((Finset.range workers).filter fun i => firstReport? reports i = none).card ∧
    (∀ r : Report,
      (r.Counts workers reports → (after workers reports).pending =
        (after workers (reports ++ [r])).pending + 1) ∧
      (¬r.Counts workers reports → after workers (reports ++ [r]) = after workers reports)) ∧
    ((after workers reports).pending = 0 →
      ((∃ stats, (after workers reports).outcome = .ok stats) ↔
        ∀ i < workers, ∃ stats, firstReport? reports i = some (.ok stats)) ∧
      (∀ stats, (after workers reports).outcome = .ok stats → stats = sumStats workers reports) ∧
      ∀ cause, (after workers reports).outcome = .error cause ↔
        FailsFirst workers reports cause) ∧
    (∀ n < workers, ∀ cause, firstReport? reports n = some (.error cause) →
      (∀ i < workers, i ≠ n → ∃ stats, firstReport? reports i = some (.ok stats)) →
      (after workers reports).outcome = .error cause) ∧
    ∀ plans : List Plan, (plans.flatMap Plan.areas).Pairwise Area.Apart →
      ReportSweeps plans workers reports →
      (after workers reports).stats.addresses < 2 ^ 64 ∧
        (after workers reports).stats.bytes < 2 ^ 64 := by
  refine ⟨pending_after workers reports, ?_, ?_, ?_, ?_⟩
  · intro r
    refine ⟨?_, after_concat_of_not_counts⟩
    intro hcounts
    rw [pending_after, pending_after, silent_concat hcounts]
    exact (Finset.card_erase_add_one (mem_silent_iff.2 hcounts)).symm
  · intro hpending
    have hreported := pending_after_eq_zero_iff.1 hpending
    refine ⟨?_, ?_, fun cause => outcome_eq_error_iff.trans error_after_eq_some_iff⟩
    · rw [exists_outcome_eq_ok_iff]
      refine forall₂_congr ?_
      intro i hi
      cases hreport : firstReport? reports i with
      | none => exact absurd hreport (hreported i hi)
      | some result =>
        cases result with
        | ok stats => exact iff_of_true nofun ⟨stats, rfl⟩
        | error cause => exact iff_of_false (fun hnot => hnot cause rfl) nofun
    · intro stats hok
      rw [← stats_after]
      exact (outcome_eq_ok_iff.1 hok).2.symm
  · exact fun n hn cause hfails hothers => outcome_after_of_one_failure hn hfails hothers
  · intro plans hapart hsweeps
    rw [stats_after]
    exact sumStats_lt hapart hsweeps

end Tally

/-! ### Two workers, one of which reports again -/

/-- Plans for two regions. -/
def Plan.twoShares : List Plan :=
  [{ Plan.byFives with areas := [.unaligned] },
    { Plan.byFives with areas := [⟨⟨1⟩, .ofNat 0x2000, .ofNat 0x2010⟩] }]

/-- The reports of both, the second worker's first; then another one of it, and one of nobody. -/
def Report.twice : List Report :=
  [⟨1, .ok ⟨2, 16⟩⟩, ⟨0, .ok ⟨8, 64⟩⟩, ⟨1, .error .cancelled⟩, ⟨2, .error .zeroAdvance⟩]

/-- The second worker fails, and then reports totals. -/
def Report.failing : List Report :=
  [⟨2, .error .zeroAdvance⟩, ⟨0, .ok ⟨8, 64⟩⟩, ⟨1, .error .cancelled⟩, ⟨1, .ok ⟨2, 16⟩⟩]

theorem Plan.pairwise_twoShares : (twoShares.flatMap Plan.areas).Pairwise Area.Apart := by
  refine List.pairwise_pair.2 ?_
  intro x hx hx'
  have hlow : x.toNat < 0x1042 := (AddressRange.contains_iff.1 hx).2
  have hhigh : 0x2000 ≤ x.toNat := (AddressRange.contains_iff.1 hx').1
  omega

theorem Report.sweeps_twice : ReportSweeps Plan.twoShares 2 twice := by
  intro i hi stats hok
  interval_cases i
  · cases hok
    exact ⟨_, Image.lowBytes.reader, {}, rfl, by decide +kernel⟩
  · cases hok
    exact ⟨_, Image.lowBytes.reader, {}, rfl, by decide +kernel⟩

theorem Tally.after_spec_twoWorkers :
    ((after 2 Report.twice).pending = 0 ∧ ReportSweeps Plan.twoShares 2 Report.twice ∧
      (∃ stats, (after 2 Report.twice).outcome = .ok stats) ∧
      (after 2 Report.twice).stats.addresses < 2 ^ 64 ∧
      (after 2 Report.twice).stats.bytes < 2 ^ 64) ∧
    firstReport? Report.failing 1 = some (.error .cancelled) ∧
      (after 2 Report.failing).outcome = .error .cancelled := by
  obtain ⟨-, -, hends, -, hwords⟩ := after_spec 2 Report.twice
  obtain ⟨-, -, -, hfails, -⟩ := after_spec 2 Report.failing
  have hpending : (after 2 Report.twice).pending = 0 := by decide
  have htotals : ∀ i < 2, ∃ stats, firstReport? Report.twice i = some (.ok stats) := by
    intro i hi
    interval_cases i
    · exact ⟨_, rfl⟩
    · exact ⟨_, rfl⟩
  have hothers : ∀ i < 2, i ≠ 1 → ∃ stats, firstReport? Report.failing i = some (.ok stats) := by
    intro i hi hne
    interval_cases i
    · exact ⟨_, rfl⟩
    · contradiction
  exact ⟨⟨hpending, Report.sweeps_twice, (hends hpending).1.2 htotals,
    hwords _ Plan.pairwise_twoShares Report.sweeps_twice⟩, rfl,
    hfails 1 (by decide) _ rfl hothers⟩

/-- The late failure is not the outcome. -/
example : (Tally.after 2 Report.twice).outcome = .ok ⟨10, 80⟩ := rfl

end PointerChains
