import PointerChains.Pool.Tally
import PointerChains.Proofs.Sweep.Course

/-!
# Workers that break down

A worker is lost if its visitor crashes, or if the next offset does not fit into a word.  Either is
seen in what it did: a worker that is not lost does not break down at any of its visits.

* `Plan.breaksAt` — the visits at which a worker breaks down;
* `Plan.report?_run_eq_none_iff` — **a worker reports nothing exactly if it broke down at one of its
  visits.**
-/

namespace PointerChains

variable {p : Plan} {read : Reader} {a : Area} {c : Cursor} {signals : Signals}

/-- Whether the worker breaks down at the visit: the visitor crashes, or answers with an advance
behind which no aligned offset fits into a word. -/
def Plan.breaksAt (p : Plan) (v : Visit) : Bool :=
  match p.visitor v with
  | .crash => true
  | .advance (count + 1) _ =>
    2 ^ 64 ≤ alignUp (v.address.toNat - v.offset) (min (v.offset + (count + 1)) (2 ^ 64 - 1))
      p.alignment
  | _ => false

/-- Whether the worker broke down at one of its visits. -/
def Plan.brokeIn (p : Plan) (events : List Event) : Bool := (visitsOf events).any p.breaksAt

theorem Plan.brokeIn_append (p : Plan) (events events' : List Event) :
    p.brokeIn (events ++ events') = (p.brokeIn events || p.brokeIn events') := by
  rw [brokeIn, visitsOf_append, List.any_append]
  rfl

/-- A visit that was prepared decides: nothing is visited while it is prepared. -/
theorem Plan.brokeIn_prepared {before : List Event} {filled : Cursor}
    (h : c.prepare p read a signals = (before, .ok filled)) (v : Visit) :
    p.brokeIn (before ++ [.visit v]) = p.breaksAt v := by
  rw [brokeIn, Cursor.visitsOf_prepared h]
  exact Bool.or_false _

/-- A sweep that was given up before a visit did not break down there. -/
theorem Plan.brokeIn_unprepared {events : List Event} {ending : Ending}
    (h : c.prepare p read a signals = (events, .error ending)) : p.brokeIn events = false := by
  rw [brokeIn, Cursor.visitsOf_unprepared h]
  rfl

theorem Plan.breaksAt_of_advance {count : Nat} {cancel : Bool} (hlt : c.offset < a.size)
    (hreply : p.visitor (c.visit a) = .advance (count + 1) cancel) :
    p.breaksAt (c.visit a) = true ↔ p.next? a c.offset (count + 1) = none := by
  have hstart : (c.visit a).address.toNat - (c.visit a).offset = a.start := by
    show (a.address c.offset).toNat - c.offset = a.start
    rw [Area.toNat_address hlt, Nat.add_sub_cancel]
  simp only [breaksAt, hreply]
  rw [hstart, decide_eq_true_iff, next?]
  show 2 ^ 64 ≤ alignUp a.start (min (c.offset + (count + 1)) (2 ^ 64 - 1)) p.alignment ↔ _
  split
  · rename_i hfits
    simp only [reduceCtorEq, iff_false, Nat.not_le]
    exact hfits
  · rename_i hlarge
    simp only [iff_true]
    exact Nat.le_of_not_lt hlarge

/-- A sweep ends with the loss of the worker exactly if it broke down at one of its visits. -/
theorem Plan.lost_iff_sweepFrom :
    (p.sweepFrom read a c signals).ending = .lost ↔
      p.brokeIn (p.sweepFrom read a c signals).events = true := by
  fun_induction Plan.sweepFrom p read a c signals with
  | case1 c signals hlt events ending hprepare =>
    simp only [brokeIn_unprepared hprepare]
    obtain ⟨cause, rfl⟩ | ⟨rfl, -⟩ := Cursor.prepare_error hprepare
    · simp
    · simp
  | case2 c signals hlt before filled hprepare visit events cause hreply =>
    simp only [events, brokeIn_prepared hprepare, breaksAt, hreply]
    simp
  | case3 c signals hlt before filled hprepare visit events hreply =>
    simp only [events, brokeIn_prepared hprepare, breaksAt, hreply]
  | case4 c signals hlt before filled hprepare visit events cancel hreply =>
    simp only [events, brokeIn_prepared hprepare, breaksAt, hreply]
    simp
  | case5 c signals hlt before filled hprepare visit events count cancel hreply signals' hnext =>
    have hoffset := Cursor.offset_of_prepare hprepare
    rw [← hoffset] at hlt hnext
    simp only [events, brokeIn_prepared hprepare]
    exact iff_of_true trivial ((breaksAt_of_advance hlt hreply).2 hnext)
  | case6 c signals hlt before filled hprepare visit events count cancel hreply signals' next
      hnext ih =>
    have hoffset := Cursor.offset_of_prepare hprepare
    rw [← hoffset] at hlt hnext
    -- this visit went well, so what matters is the rest of the sweep
    have hholds : p.breaksAt visit = false := by
      rw [← Bool.not_eq_true, breaksAt_of_advance hlt hreply, hnext]
      exact Option.some_ne_none next
    show (p.sweepFrom read a (filled.moveTo next) signals').ending = .lost ↔
      p.brokeIn (events ++ (p.sweepFrom read a (filled.moveTo next) signals').events) = true
    rw [brokeIn_append, brokeIn_prepared hprepare, hholds, Bool.false_or]
    exact ih
  | case7 c signals hge => simp [brokeIn, visitsOf]

/-- The sweep goes on behind one that did not break down. -/
theorem Plan.lost_iff_behind {first rest : Sweep}
    (hfirst : first.ending = .lost ↔ p.brokeIn first.events = true)
    (hrest : rest.ending = .lost ↔ p.brokeIn rest.events = true) (hne : first.ending ≠ .lost) :
    (rest.behind first.events first.stats).ending = .lost ↔
      p.brokeIn (rest.behind first.events first.stats).events = true := by
  have hholds : p.brokeIn first.events = false := by
    rw [← Bool.not_eq_true, ← hfirst]
    exact hne
  show rest.ending = .lost ↔ p.brokeIn (first.events ++ rest.events) = true
  rw [brokeIn_append, hholds, Bool.false_or]
  exact hrest

theorem Plan.lost_iff_sweep :
    (p.sweep read a signals).ending = .lost ↔ p.brokeIn (p.sweep read a signals).events = true := by
  rw [sweep_eq]
  exact lost_iff_sweepFrom

theorem Plan.lost_iff_sweepAll {areas : List Area} :
    (p.sweepAll read signals areas).ending = .lost ↔
      p.brokeIn (p.sweepAll read signals areas).events = true := by
  induction areas generalizing signals with
  | nil => simp [sweepAll, brokeIn, visitsOf]
  | cons a rest ih =>
    have hfirst : (p.sweep read a {}).ending = .lost ↔
        p.brokeIn (p.sweep read a {}).events = true := lost_iff_sweep
    obtain ⟨-, heq⟩ | ⟨-, -, heq⟩ | ⟨-, ⟨hending, heq⟩ | ⟨-, heq⟩⟩ :=
      p.sweepAll_cases read signals a rest
    · simp [heq, brokeIn, visitsOf]
    · simp [heq, brokeIn, visitsOf]
    · rw [heq]
      exact lost_iff_behind hfirst ih (by simp [hending])
    · rw [heq]
      exact hfirst

theorem Sweep.report?_eq_none_iff {s : Sweep} : s.report? = none ↔ s.ending = .lost := by
  rw [report?]
  cases s.ending with
  | complete => simp
  | stopped => simp
  | failed cause => simp
  | lost => simp

/-- **A worker reports nothing exactly if it broke down at one of its visits.** -/
theorem Plan.report?_run_eq_none_iff :
    (p.run read signals).report? = none ↔ p.brokeIn (p.run read signals).events = true := by
  rw [Sweep.report?_eq_none_iff]
  rcases Nat.lt_or_ge largestBuffer p.bufferSize with hlarge | hfits
  · rw [Plan.run_of_large hlarge]
    simp [brokeIn, visitsOf]
  · rw [Plan.run_of_fits hfits]
    exact lost_iff_sweepAll

end PointerChains
