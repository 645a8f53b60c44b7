import Mathlib.Algebra.GroupWithZero.Nat
import PointerChains.Pool.Tally
import PointerChains.Proofs.Sweep.Course

/-!
# Sweeping a share

A worker that reports totals has swept every region of its share to the end, and done nothing else.
Where the visitor always advances by the alignment, that is one visit to each aligned address.

* `Plan.log` — the events of complete sweeps, one region after the other;
* `Plan.run_of_report` — a report of totals stands for such a log;
* `Plan.exists_address_iff`, `Plan.nodup_addresses` — the addresses that a sweep visits by steps of
  one alignment.
-/

namespace PointerChains

variable {p : Plan} {read : Reader} {a : Area} {c : Cursor} {signals : Signals}
  {events : List Event} {areas : List Area} {stats : Stats}

/-- The events of sweeps of the regions one after the other, when none is cut short. -/
def Plan.log (p : Plan) (read : Reader) (areas : List Area) : List Event :=
  areas.flatMap fun a => (p.sweep read a {}).events

/-- None of the sweeps of the regions is cut short. -/
def Plan.Completes (p : Plan) (read : Reader) (areas : List Area) : Prop :=
  ∀ a ∈ areas, (p.sweep read a {}).ending = .complete

theorem Stats.mk_add_mk (m n m' n' : Nat) :
    (⟨m, n⟩ + ⟨m', n'⟩ : Stats) = ⟨m + m', n + n'⟩ := rfl

theorem Stats.add_assoc (s t u : Stats) : s + t + u = s + (t + u) := by
  rw [Stats.mk_add_mk, Stats.mk_add_mk, Stats.mk_add_mk, Stats.mk_add_mk, Nat.add_assoc,
    Nat.add_assoc]

theorem Stats.zero_add (s : Stats) : {} + s = s := by
  rw [Stats.mk_add_mk, Nat.zero_add, Nat.zero_add]

/-! ### Reports -/

theorem Sweep.report?_eq_ok_iff {s : Sweep} :
    s.report? = some (.ok stats) ↔
      (s.ending = .complete ∨ s.ending = .stopped) ∧ s.stats = stats := by
  rw [Sweep.report?]
  cases s.ending with
  | complete => simp only [Option.some.injEq, Except.ok.injEq, true_or, true_and]
  | stopped => simp only [Option.some.injEq, Except.ok.injEq, or_true, true_and]
  | failed cause => simp only [Option.some.injEq, reduceCtorEq, or_self, false_and]
  | lost => simp only [reduceCtorEq, or_self, false_and]

/-- A report of totals stands for complete sweeps of all regions, whose visits and bytes it
counts. -/
theorem Plan.sweepAll_of_report (haborted : signals.aborted = false)
    (h : (p.sweepAll read signals areas).report? = some (.ok stats)) :
    p.Completes read areas ∧ (p.sweepAll read signals areas).events = p.log read areas ∧
      stats = ⟨(visitsOf (p.log read areas)).length, (areas.map Area.size).sum⟩ := by
  induction areas generalizing signals stats with
  | nil =>
    cases h
    refine ⟨?_, rfl, rfl⟩
    intro a ha
    cases ha
  | cons a rest ih =>
    obtain ⟨-, heq⟩ | ⟨-, hgiven, -⟩ | ⟨-, ⟨hending, heq⟩ | ⟨hending, heq⟩⟩ :=
      p.sweepAll_cases read signals a rest
    · rw [heq] at h
      cases h
    · rw [haborted] at hgiven
      cases hgiven
    · rw [heq] at h ⊢
      obtain ⟨hrest, rfl⟩ := Sweep.report?_eq_ok_iff.1 h
      have hlater : ({ cancelled := (p.sweep read a {}).cancelled } : Signals).aborted = false :=
        rfl
      obtain ⟨hall, hevents, hstats⟩ := ih hlater (Sweep.report?_eq_ok_iff.2 ⟨hrest, rfl⟩)
      have hfirst : (p.sweep read a {}).stats =
          ⟨(visitsOf (p.sweep read a {}).events).length, a.size⟩ :=
        (Plan.course_of_sweep hending).2
      refine ⟨List.forall_mem_cons.2 ⟨hending, hall⟩, ?_, ?_⟩
      · rw [Plan.log, List.flatMap_cons, Sweep.behind, hevents, Plan.log]
      · rw [Plan.log, List.flatMap_cons, Sweep.behind, hfirst, hstats, Stats.mk_add_mk,
          visitsOf_append, List.length_append, List.map_cons, List.sum_cons, Plan.log]
    · obtain ⟨hreported, -⟩ := Sweep.report?_eq_ok_iff.1 h
      rw [heq] at hreported
      obtain hlost | ⟨cause, hfailed⟩ := hending
      · simp [hlost] at hreported
      · simp [hfailed] at hreported

theorem Plan.run_of_report (haborted : signals.aborted = false)
    (h : (p.run read signals).report? = some (.ok stats)) :
    p.bufferSize ≤ largestBuffer ∧ p.Completes read p.areas ∧
      (p.run read signals).events = p.log read p.areas ∧
      stats = ⟨(visitsOf (p.log read p.areas)).length, (p.areas.map Area.size).sum⟩ := by
  rcases Nat.lt_or_ge largestBuffer p.bufferSize with hlarge | hfits
  · rw [Plan.run_of_large hlarge] at h
    cases h
  · rw [Plan.run_of_fits hfits] at h ⊢
    exact ⟨hfits, Plan.sweepAll_of_report haborted h⟩

/-! ### Steps of one alignment -/

/-- The visitor always advances by the alignment. -/
def Plan.StepsByAlignment (p : Plan) : Prop :=
  ∀ v, ∃ cancel, p.visitor v = .advance p.alignment cancel

/-- From an aligned offset a step of one alignment leads to the next.  It cannot be one to the last
word instead, which is not aligned then. -/
theorem Plan.eq_of_next? {offset next : Nat} (halign : 0 < p.alignment)
    (hdvd : p.alignment ∣ a.start + offset) (hlt : offset < a.size)
    (h : p.next? a offset p.alignment = some next) : next = offset + p.alignment := by
  have hsize : a.size < 2 ^ 64 := a.range.size_lt
  rw [Plan.next?] at h
  split at h
  · rename_i hword
    rw [Option.some.injEq] at h
    rcases Nat.lt_or_ge (offset + p.alignment) (2 ^ 64) with hfit | hover
    · rw [Nat.min_eq_left (by omega)] at h
      have hstep : p.alignment ∣ a.start + (offset + p.alignment) := by
        rw [← Nat.add_assoc]
        exact Nat.dvd_add hdvd (Nat.dvd_refl _)
      have hle := alignUp_le_of_dvd halign (Nat.le_refl _) hstep
      have hge := le_alignUp a.start (offset + p.alignment) p.alignment
      omega
    · rw [Nat.min_eq_right (by omega)] at h hword
      have hge := le_alignUp a.start (2 ^ 64 - 1) p.alignment
      have hlast : p.alignment ∣ a.start + (2 ^ 64 - 1) := by
        have hdvd' := dvd_alignUp a.start (2 ^ 64 - 1) halign
        rwa [show alignUp a.start (2 ^ 64 - 1) p.alignment = 2 ^ 64 - 1 by omega] at hdvd'
      have hdiff := (Nat.dvd_sub hlast hdvd)
      rw [Nat.add_sub_add_left] at hdiff
      have hle := Nat.le_of_dvd (by omega) hdiff
      omega
  · cases h

/-- A course by steps of one alignment visits all aligned offsets. -/
theorem Course.exists_offset_iff (h : Course p read a c events) (halign : 0 < p.alignment)
    (hstep : p.StepsByAlignment) (hdvd : p.alignment ∣ a.start + c.offset) (o : Nat) :
    (∃ v ∈ visitsOf events, v.offset = o) ↔
      c.offset ≤ o ∧ o < a.size ∧ p.alignment ∣ a.start + o := by
  induction h with
  | past hge =>
    constructor
    · intro h
      obtain ⟨v, hv, -⟩ := h
      cases hv
    · intro h
      obtain ⟨hle, hlt, -⟩ := h
      omega
  | @visit c filled signals before rest count next cancel hlt hprepare hreply hnext _ ih =>
    obtain ⟨cancel', hanswer⟩ := hstep (filled.visit a)
    rw [hanswer, Reply.advance.injEq] at hreply
    rw [← hreply.1] at hnext
    have heq := Plan.eq_of_next? halign hdvd hlt hnext
    have hdvd' : p.alignment ∣ a.start + next := by
      rw [heq, ← Nat.add_assoc]
      exact Nat.dvd_add hdvd (Nat.dvd_refl _)
    have hrest : _ ↔ next ≤ o ∧ o < a.size ∧ p.alignment ∣ a.start + o := ih hdvd'
    have hoffset : (filled.visit a).offset = c.offset := Cursor.offset_of_prepare hprepare
    rw [visitsOf_append, Cursor.visitsOf_prepared hprepare, List.singleton_append]
    constructor
    · intro h
      obtain ⟨v, hv, rfl⟩ := h
      rcases List.mem_cons.1 hv with rfl | hv
      · rw [hoffset]
        exact ⟨Nat.le_refl _, hlt, hdvd⟩
      · obtain ⟨hle, hinside, hdvd''⟩ := hrest.1 ⟨v, hv, rfl⟩
        exact ⟨by omega, hinside, hdvd''⟩
    · intro h
      obtain ⟨hle, hinside, hdvd''⟩ := h
      rcases Nat.lt_or_ge o next with hbefore | hafter
      · -- between two neighbours there is no aligned offset
        have hdiff := Nat.dvd_sub hdvd'' hdvd
        rw [Nat.add_sub_add_left] at hdiff
        have hzero := Nat.eq_zero_of_dvd_of_lt hdiff (by omega)
        exact ⟨filled.visit a, List.mem_cons_self .., by omega⟩
      · obtain ⟨v, hv, hvo⟩ := hrest.2 ⟨hafter, hinside, hdvd''⟩
        exact ⟨v, List.mem_cons_of_mem _ hv, hvo⟩

/-- The visits of a complete sweep are in its region. -/
theorem Plan.contains_address (h : (p.sweep read a {}).ending = .complete) {v : Visit}
    (hv : v ∈ visitsOf (p.sweep read a {}).events) : a.range.contains v.address := by
  obtain ⟨hlt, haddress, -⟩ := (Plan.course_of_sweep h).1.mem_region v hv
  have hstop := Area.stop_eq hlt
  rw [AddressRange.contains_iff, haddress, Area.toNat_address hlt]
  exact ⟨Nat.le_add_right .., by omega⟩

/-- A complete sweep by steps of one alignment visits the aligned addresses of its region. -/
theorem Plan.exists_address_iff (h : (p.sweep read a {}).ending = .complete)
    (halign : 0 < p.alignment) (hstep : p.StepsByAlignment) (x : Address) :
    (∃ v ∈ visitsOf (p.sweep read a {}).events, v.address = x) ↔
      a.range.contains x ∧ p.alignment ∣ x.toNat := by
  have hcourse := (Plan.course_of_sweep h).1
  have hoffsets := hcourse.exists_offset_iff halign hstep (dvd_alignUp _ _ halign)
  constructor
  · intro h
    obtain ⟨v, hv, rfl⟩ := h
    refine ⟨Plan.contains_address h hv, ?_⟩
    obtain ⟨hlt, haddress, -⟩ := hcourse.mem_region v hv
    obtain ⟨-, -, hdvd⟩ := (hoffsets v.offset).1 ⟨v, hv, rfl⟩
    rw [haddress, Area.toNat_address hlt]
    exact hdvd
  · intro h
    obtain ⟨hinside, hdvd⟩ := h
    obtain ⟨hle, hlt⟩ := AddressRange.contains_iff.1 hinside
    have hle : a.start ≤ x.toNat := hle
    have hlt : x.toNat < a.range.stop.toNat := hlt
    have hinside : x.toNat - a.start < a.size := by
      simp only [Area.size, AddressRange.size, Area.start] at hle ⊢
      omega
    have hsum : a.start + (x.toNat - a.start) = x.toNat := by omega
    have hleast : alignUp a.start 0 p.alignment ≤ x.toNat - a.start :=
      alignUp_le_of_dvd halign (Nat.zero_le _) (by rwa [hsum])
    obtain ⟨v, hv, hvo⟩ := (hoffsets (x.toNat - a.start)).2 ⟨hleast, hinside, by rwa [hsum]⟩
    obtain ⟨-, haddress, -⟩ := hcourse.mem_region v hv
    refine ⟨v, hv, Address.toNat_injective ?_⟩
    rw [haddress, hvo, Area.toNat_address hinside, hsum]

/-- A complete sweep visits no address twice. -/
theorem Plan.nodup_addresses (h : (p.sweep read a {}).ending = .complete) :
    ((visitsOf (p.sweep read a {}).events).map Visit.address).Nodup := by
  have hcourse := (Plan.course_of_sweep h).1
  rw [List.nodup_iff_pairwise_ne, List.pairwise_map]
  refine hcourse.pairwise_lt.imp_of_mem ?_
  intro v w hv hw hlt heq
  obtain ⟨hinside, haddress, -⟩ := hcourse.mem_region v hv
  obtain ⟨hinside', haddress', -⟩ := hcourse.mem_region w hw
  have hnat := congrArg Address.toNat heq
  rw [haddress, haddress', Area.toNat_address hinside, Area.toNat_address hinside'] at hnat
  omega

end PointerChains
