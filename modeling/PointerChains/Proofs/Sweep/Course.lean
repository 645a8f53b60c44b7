import Mathlib.Order.Bounds.Basic
import PointerChains.Options.PointerScan
import PointerChains.Proofs.Sweep.Window

/-!
# The course of a sweep

A sweep that runs to the end of its region is a course: each visit is prepared, answered with an
advance, and followed by the next aligned offset.  What holds of its visits follows from the course
alone, by induction.

* `Course` — the events of a sweep that runs to the end, and `Plan.course_of_complete`;
* `Strides` — visits at the least aligned offsets that their advances leave;
* `Visit.Faithful` — a visit that is shown the image;
* `Plan.sweep_visits` — **a sweep of a served region visits exactly the offsets that the advances
  lead to, and is shown the image at each of them.**
-/

namespace PointerChains

variable {p : Plan} {read : Reader} {a : Area} {c : Cursor} {signals : Signals}
  {events : List Event} {image : Image} {advance : Visit → Nat}

/-! ### Courses -/

/-- The events of a sweep from a cursor on that runs to the end of its region. -/
inductive Course (p : Plan) (read : Reader) (a : Area) : Cursor → List Event → Prop where
  | past {c : Cursor} : a.size ≤ c.offset → Course p read a c []
  | visit {c filled : Cursor} {signals : Signals} {before rest : List Event} {count next : Nat}
      {cancel : Bool} :
      c.offset < a.size → c.prepare p read a signals = (before, .ok filled) →
      p.visitor (filled.visit a) = .advance (count + 1) cancel →
      p.next? a c.offset (count + 1) = some next →
      Course p read a (filled.moveTo next) rest →
      Course p read a c (before ++ [.visit (filled.visit a)] ++ rest)

/-- How preparing a visit can fail: with a cause, or because the pass was given up. -/
theorem Cursor.prepare_error {ending : Ending}
    (h : c.prepare p read a signals = (events, .error ending)) :
    (∃ cause, ending = .failed cause) ∨ (ending = .stopped ∧ signals.aborted = true) := by
  obtain ⟨request, -, -, ⟨cause, -, rfl⟩ | ⟨-, -, ⟨-, rfl⟩ | ⟨-, haborted, rfl⟩⟩⟩ :=
    prepare_eq_error h
  · exact .inl ⟨cause, rfl⟩
  · exact .inl ⟨.cancelled, rfl⟩
  · exact .inr ⟨rfl, haborted⟩

/-- Unless the pass is given up, a sweep does not stop on the way. -/
theorem Plan.sweepFrom_ne_stopped (h : signals.aborted = false) :
    (p.sweepFrom read a c signals).ending ≠ .stopped := by
  fun_induction Plan.sweepFrom p read a c signals with
  | case1 c signals hlt events ending hprepare =>
    obtain ⟨cause, rfl⟩ | ⟨-, hstop⟩ := Cursor.prepare_error hprepare
    · intro hne
      cases hne
    · rw [h] at hstop
      cases hstop
  | case6 c signals hlt before filled hprepare visit events count cancel hreply signals' next
      hnext ih => exact ih h
  | _ =>
    intro hne
    cases hne

/-- A sweep that runs to the end is a course.  It counts its visits and the bytes of the region. -/
theorem Plan.course_of_complete (h : (p.sweepFrom read a c signals).ending = .complete) :
    Course p read a c (p.sweepFrom read a c signals).events ∧
      (p.sweepFrom read a c signals).stats =
        ⟨(visitsOf (p.sweepFrom read a c signals).events).length, a.size⟩ := by
  fun_induction Plan.sweepFrom p read a c signals with
  | case1 c signals hlt events ending hprepare =>
    obtain ⟨cause, rfl⟩ | ⟨rfl, -⟩ := Cursor.prepare_error hprepare
    · cases h
    · cases h
  | case2 => cases h
  | case3 => cases h
  | case4 => cases h
  | case5 => cases h
  | case6 c signals hlt before filled hprepare visit events count cancel hreply signals' next
      hnext ih =>
    obtain ⟨hcourse, hstats⟩ := ih h
    refine ⟨.visit hlt hprepare hreply hnext hcourse, ?_⟩
    show Stats.add ⟨1, 0⟩ (p.sweepFrom read a (filled.moveTo next) signals').stats =
      ⟨(visitsOf (before ++ [.visit visit] ++ _)).length, a.size⟩
    rw [hstats, visitsOf_append, Cursor.visitsOf_prepared hprepare, List.length_append,
      List.length_singleton, Stats.add, Nat.zero_add]
  | case7 c signals hge => exact ⟨.past (Nat.le_of_not_lt hge), rfl⟩

/-- So is a sweep of the region from its first aligned offset on. -/
theorem Plan.course_of_sweep (h : (p.sweep read a signals).ending = .complete) :
    Course p read a (.startAt (alignUp a.start 0 p.alignment)) (p.sweep read a signals).events ∧
      (p.sweep read a signals).stats =
        ⟨(visitsOf (p.sweep read a signals).events).length, a.size⟩ := by
  rw [sweep_eq] at h ⊢
  exact course_of_complete h

/-- What a worker does with regions: it ends before the first of them if it was told to, and else it
sweeps the first and goes on, unless that sweep fails or is lost. -/
theorem Plan.sweepAll_cases (p : Plan) (read : Reader) (signals : Signals) (a : Area)
    (rest : List Area) :
    (signals.cancelled = true ∧ p.sweepAll read signals (a :: rest) =
        { cancelled := true, ending := .failed .cancelled }) ∨
      (signals.cancelled = false ∧ signals.aborted = true ∧
        p.sweepAll read signals (a :: rest) = { cancelled := false, ending := .complete }) ∨
      (signals = {} ∧
        (((p.sweep read a {}).ending = .complete ∧ p.sweepAll read signals (a :: rest) =
            (p.sweepAll read { cancelled := (p.sweep read a {}).cancelled } rest).behind
              (p.sweep read a {}).events (p.sweep read a {}).stats) ∨
          (((p.sweep read a {}).ending = .lost ∨
              ∃ cause, (p.sweep read a {}).ending = .failed cause) ∧
            p.sweepAll read signals (a :: rest) = p.sweep read a {}))) := by
  obtain ⟨cancelled, aborted⟩ := signals
  cases cancelled with
  | true => exact .inl ⟨rfl, rfl⟩
  | false =>
    cases aborted with
    | true => exact .inr (.inl ⟨rfl, rfl, rfl⟩)
    | false =>
      refine .inr (.inr ⟨rfl, ?_⟩)
      simp only [sweepAll, Bool.false_eq_true, if_false]
      cases hending : (p.sweep read a {}).ending with
      | complete => exact .inl ⟨rfl, rfl⟩
      | stopped =>
        rw [sweep_eq] at hending
        exact absurd hending (sweepFrom_ne_stopped rfl)
      | failed cause => exact .inr ⟨.inr ⟨cause, rfl⟩, rfl⟩
      | lost => exact .inr ⟨.inl rfl, rfl⟩

namespace Course

/-- Each visit of a course is at its offset in the region. -/
theorem mem_region (h : Course p read a c events) :
    ∀ v ∈ visitsOf events,
      v.offset < a.size ∧ v.address = a.address v.offset ∧ v.region = a.region := by
  induction h with
  | past _ =>
    intro v hv
    cases hv
  | visit hlt hprepare _ _ _ ih =>
    intro v hv
    rw [visitsOf_append, Cursor.visitsOf_prepared hprepare] at hv
    rcases List.mem_cons.1 hv with rfl | hv
    · have hoffset := Cursor.offset_of_prepare hprepare
      exact ⟨by simp only [Cursor.visit]; omega, rfl, rfl⟩
    · exact ih v hv

/-- A course only goes up. -/
theorem le_offset (h : Course p read a c events) : ∀ v ∈ visitsOf events, c.offset ≤ v.offset := by
  induction h with
  | past _ =>
    intro v hv
    cases hv
  | visit hlt hprepare _ hnext _ ih =>
    intro v hv
    rw [visitsOf_append, Cursor.visitsOf_prepared hprepare] at hv
    rcases List.mem_cons.1 hv with rfl | hv
    · exact (Cursor.offset_of_prepare hprepare).ge
    · have hrest : _ ≤ v.offset := ih v hv
      have hstep := Plan.lt_of_next? hnext hlt
      exact Nat.le_trans (Nat.le_of_lt hstep) hrest

/-- No offset is visited twice. -/
theorem pairwise_lt (h : Course p read a c events) :
    (visitsOf events).Pairwise fun v w => v.offset < w.offset := by
  induction h with
  | past _ => exact .nil
  | visit hlt hprepare _ hnext hrest ih =>
    rw [visitsOf_append, Cursor.visitsOf_prepared hprepare]
    refine .cons ?_ ih
    intro w hw
    have hoffset := Cursor.offset_of_prepare hprepare
    have hstep := Plan.lt_of_next? hnext hlt
    have hle : _ ≤ w.offset := hrest.le_offset w hw
    exact (hoffset.trans_lt hstep).trans_le hle

end Course

/-! ### Strides -/

/-- Visits at the least aligned offsets: the first from a bound on, and each later one from where
the advance of the visit before it leads.  Behind the last there are none left in the region. -/
inductive Strides (a : Area) (alignment : Nat) (advance : Visit → Nat) : Nat → List Visit → Prop
  where
  | past {bound : Nat} :
      (∀ o, bound ≤ o → alignment ∣ a.start + o → a.size ≤ o) → Strides a alignment advance bound []
  | visit {bound : Nat} {v : Visit} {rest : List Visit} :
      IsLeast {o | bound ≤ o ∧ alignment ∣ a.start + o} v.offset → v.offset < a.size →
      Strides a alignment advance (v.offset + advance v) rest →
      Strides a alignment advance bound (v :: rest)

theorem isLeast_alignUp (start bound : Nat) {alignment : Nat} (h : 0 < alignment) :
    IsLeast {o | bound ≤ o ∧ alignment ∣ start + o} (alignUp start bound alignment) := by
  refine ⟨⟨le_alignUp .., dvd_alignUp _ _ h⟩, ?_⟩
  intro o ho
  obtain ⟨hle, hdvd⟩ := ho
  exact alignUp_le_of_dvd h hle hdvd

theorem alignUp_lt (start bound : Nat) {alignment : Nat} (h : 0 < alignment) :
    alignUp start bound alignment < bound + alignment :=
  Nat.add_lt_add_left (Nat.mod_lt _ h) _

/-- The next offset is the least aligned one that the advance leaves, as long as that fits in a
word. -/
theorem Plan.next?_eq (halign : 0 < p.alignment) {offset count : Nat}
    (hfit : offset + count + p.alignment < 2 ^ 64) :
    p.next? a offset count = some (alignUp a.start (offset + count) p.alignment) := by
  have hlt := alignUp_lt a.start (offset + count) halign
  rw [Plan.next?, Nat.min_eq_left (by omega)]
  exact if_pos (by omega)

/-- A course whose visits are answered with certain advances strides by them. -/
theorem Course.strides (h : Course p read a c events) (halign : 0 < p.alignment) {bound : Nat}
    (hadvance : ∀ v ∈ visitsOf events, p.visitor v = .advance (advance v) ∧
      v.offset + advance v + p.alignment < 2 ^ 64)
    (hbound : c.offset = alignUp a.start bound p.alignment) :
    Strides a p.alignment advance bound (visitsOf events) := by
  induction h generalizing bound with
  | past hge =>
    refine .past ?_
    intro o hle hdvd
    have hleast := alignUp_le_of_dvd halign hle hdvd
    omega
  | visit hlt hprepare hreply hnext _ ih =>
    rw [visitsOf_append, Cursor.visitsOf_prepared hprepare] at hadvance ⊢
    have hoffset := Cursor.offset_of_prepare hprepare
    obtain ⟨hanswer, hfit⟩ := hadvance _ (List.mem_cons_self ..)
    rw [hanswer, Reply.advance.injEq] at hreply
    refine .visit ?_ (hoffset.trans_lt hlt) (ih (fun v hv => hadvance v (.tail _ hv)) ?_)
    · show IsLeast _ (Cursor.offset _)
      rw [hoffset, hbound]
      exact isLeast_alignUp _ _ halign
    · rw [← hreply.1, ← hoffset] at hnext
      exact (Option.some.inj ((Plan.next?_eq halign hfit).symm.trans hnext)).symm

/-! ### What the visits are shown -/

/-- The visit is shown the image from its address on: a pointer at least unless the region ends
first, and at most what the buffer holds. -/
structure Visit.Faithful (v : Visit) (image : Image) (p : Plan) (a : Area) : Prop where
  address_eq : v.address.toNat = a.start + v.offset
  region_eq : v.region = a.region
  remaining_eq : v.remaining = v.bytes.length
  bytes_eq : v.bytes = image.read v.address.toNat v.bytes.length
  le_length : min p.width.size (a.range.stop.toNat - v.address.toNat) ≤ v.bytes.length
  length_le : v.bytes.length ≤ min p.bufferSize (a.range.stop.toNat - v.address.toNat)

theorem Cursor.Shows.faithful_visit (h : c.Shows image p a) (hlt : c.offset < a.size)
    (hpointer : min p.width.size (a.size - c.offset) ≤ c.buffered) (hreach : c.reach ≤ a.size) :
    (c.visit a).Faithful image p a := by
  have haddress : (a.address c.offset).toNat = a.start + c.offset := Area.toNat_address hlt
  have hstop := Area.stop_eq hlt
  have hlength : c.window.length = c.buffered := h.length_window
  have hbuffered : c.buffered = c.reach - c.offset := rfl
  have hroom := h.buffered_le
  refine ⟨haddress, rfl, hlength.symm, ?_, ?_, ?_⟩
  · show c.window = image.read (a.address c.offset).toNat c.window.length
    rw [haddress, hlength, hbuffered, ← h.window_eq]
  · show min p.width.size (a.range.stop.toNat - (a.address c.offset).toNat) ≤ c.window.length
    rw [haddress, hlength]
    omega
  · show c.window.length ≤ min p.bufferSize (a.range.stop.toNat - (a.address c.offset).toNat)
    rw [haddress, hlength]
    omega

/-- Every visit of a course is shown the image, if that is all that reads in the region bring. -/
theorem Course.faithful_of_tells (h : Course p read a c events) (hshows : c.Shows image p a)
    (hread : read.Tells image a.range) (hfit : 2 * p.width.size ≤ p.bufferSize) :
    ∀ v ∈ visitsOf events, v.Faithful image p a := by
  induction h with
  | past _ =>
    intro v hv
    cases hv
  | visit hlt hprepare _ hnext _ ih =>
    intro v hv
    rw [visitsOf_append, Cursor.visitsOf_prepared hprepare] at hv
    have hoffset := Cursor.offset_of_prepare hprepare
    obtain ⟨hfilled, hpointer, hreach⟩ := hshows.prepare hread hfit hlt hprepare
    rcases List.mem_cons.1 hv with rfl | hv
    · exact hfilled.faithful_visit (hoffset.trans_lt hlt) hpointer hreach
    · have hstep := Plan.lt_of_next? hnext hlt
      exact ih (hfilled.moveTo (by omega)) v hv

/-- Every visit of a course through a served region is shown the image. -/
theorem Course.faithful (h : Course p read a c events) (hshows : c.Shows image p a)
    (hread : read.Serves image a.range) (hfit : 2 * p.width.size ≤ p.bufferSize) :
    ∀ v ∈ visitsOf events, v.Faithful image p a :=
  h.faithful_of_tells hshows hread.tells hfit

/-! ### Sweeps of served regions -/

/-- Nothing stops a sweep of a served region whose visits are answered with advances within a
word. -/
theorem Plan.sweepFrom_complete (hshows : c.Shows image p a) (halign : 0 < p.alignment)
    (hread : read.Serves image a.range) (hfit : 2 * p.width.size ≤ p.bufferSize)
    (hadvance : ∀ v ∈ visitsOf (p.sweepFrom read a c signals).events,
      p.visitor v = .advance (advance v) ∧ 0 < advance v ∧
        v.offset + advance v + p.alignment < 2 ^ 64)
    (hsignals : signals = {}) : (p.sweepFrom read a c signals).ending = .complete := by
  fun_induction Plan.sweepFrom p read a c signals with
  | case1 c signals hlt events ending hprepare =>
    obtain ⟨events', filled, hok⟩ := Cursor.Shows.exists_prepare (c := c) hread hfit
    rw [hsignals, hok] at hprepare
    cases hprepare
  | case2 c signals hlt before filled hprepare visit events cause hreply =>
    rw [Cursor.visitsOf_prepared hprepare] at hadvance
    rw [(hadvance visit (List.mem_singleton_self _)).1] at hreply
    cases hreply
  | case3 c signals hlt before filled hprepare visit events hreply =>
    rw [Cursor.visitsOf_prepared hprepare] at hadvance
    rw [(hadvance visit (List.mem_singleton_self _)).1] at hreply
    cases hreply
  | case4 c signals hlt before filled hprepare visit events cancel hreply =>
    rw [Cursor.visitsOf_prepared hprepare] at hadvance
    obtain ⟨hanswer, hpos, -⟩ := hadvance visit (List.mem_singleton_self _)
    rw [hanswer, Reply.advance.injEq] at hreply
    omega
  | case5 c signals hlt before filled hprepare visit events count cancel hreply signals' hnext =>
    rw [Cursor.visitsOf_prepared hprepare] at hadvance
    obtain ⟨hanswer, -, hword⟩ := hadvance visit (List.mem_singleton_self _)
    rw [hanswer, Reply.advance.injEq] at hreply
    have hcount : advance visit = count + 1 := hreply.1
    have hoffset : visit.offset = c.offset := Cursor.offset_of_prepare hprepare
    rw [← hcount, ← hoffset, Plan.next?_eq halign hword] at hnext
    cases hnext
  | case6 c signals hlt before filled hprepare visit events count cancel hreply signals' next
      hnext ih =>
    have hoffset := Cursor.offset_of_prepare hprepare
    have hvisits : visitsOf (events ++ (p.sweepFrom read a (filled.moveTo next) signals').events) =
        visit :: visitsOf (p.sweepFrom read a (filled.moveTo next) signals').events := by
      rw [visitsOf_append, Cursor.visitsOf_prepared hprepare, List.singleton_append]
    have hadvance : ∀ v ∈ visit :: visitsOf _, _ := hvisits ▸ hadvance
    rw [(hadvance visit (List.mem_cons_self ..)).1, Reply.advance.injEq] at hreply
    have hstep := Plan.lt_of_next? hnext hlt
    have hfilled := (hshows.prepare hread.tells hfit hlt hprepare).1
    refine ih (hfilled.moveTo (by omega)) (fun v hv => hadvance v (.tail _ hv)) ?_
    simp only [signals', hsignals, ← hreply.2, Bool.or_false]
  | case7 => rfl

/-- **A sweep of a served region visits exactly the offsets that the advances lead to**: the least
aligned one first, then from each the least aligned one that its advance leaves, in increasing
order up to the end of the region.  Every visit is shown the image. -/
theorem Plan.sweep_visits (halign : isPowerOfTwo p.alignment)
    (hfit : 2 * p.width.size ≤ p.bufferSize) (hread : read.Serves image a.range)
    (hadvance : ∀ v ∈ visitsOf (p.sweep read a {}).events, p.visitor v = .advance (advance v) ∧
      0 < advance v ∧ v.offset + advance v + p.alignment < 2 ^ 64) :
    (p.sweep read a {}).ending = .complete ∧
      Strides a p.alignment advance 0 (visitsOf (p.sweep read a {}).events) ∧
      (visitsOf (p.sweep read a {}).events).Pairwise (fun v w => v.offset < w.offset) ∧
      ∀ v ∈ visitsOf (p.sweep read a {}).events, v.offset < a.size ∧ v.Faithful image p a := by
  rw [sweep_eq] at hadvance ⊢
  have hpos : 0 < p.alignment := pos_of_isPowerOfTwo halign
  have hstart := Cursor.shows_startAt (p := p) (a := a) image
    (alignUp a.start 0 p.alignment)
  have hcomplete := Plan.sweepFrom_complete hstart hpos hread hfit hadvance rfl
  have hcourse := (Plan.course_of_complete hcomplete).1
  refine ⟨hcomplete, ?_, hcourse.pairwise_lt, ?_⟩
  · exact hcourse.strides hpos (fun v hv => ⟨(hadvance v hv).1, (hadvance v hv).2.2⟩) rfl
  intro v hv
  exact ⟨(hcourse.mem_region v hv).1, hcourse.faithful hstart hread hfit v hv⟩

/-- Steps of five bytes, which leave an alignment of four each time. -/
def Plan.byFives : Plan :=
  { areas := [], visitor := fun _ => .advance 5, alignment := 4, width := .eight, bufferSize := 16 }

/-- A region that starts and ends between aligned addresses. -/
def Area.unaligned : Area := ⟨⟨0⟩, .ofNat 0x1002, .ofNat 0x1042⟩

/-- Memory that holds the low byte of each address. -/
def Image.lowBytes : Image := fun n => UInt8.ofNat n

theorem Plan.sweep_visits_byFives :
    (isPowerOfTwo byFives.alignment ∧ 2 * byFives.width.size ≤ byFives.bufferSize ∧
      Image.lowBytes.reader.Serves .lowBytes Area.unaligned.range ∧
      ∀ v ∈ visitsOf (byFives.sweep Image.lowBytes.reader .unaligned {}).events,
        byFives.visitor v = .advance 5 ∧ 0 < 5 ∧ v.offset + 5 + byFives.alignment < 2 ^ 64) ∧
    (byFives.sweep Image.lowBytes.reader .unaligned {}).ending = .complete ∧
      Strides .unaligned 4 (fun _ => 5) 0
        (visitsOf (byFives.sweep Image.lowBytes.reader .unaligned {}).events) ∧
      (visitsOf (byFives.sweep Image.lowBytes.reader .unaligned {}).events).Pairwise
        (fun v w => v.offset < w.offset) ∧
      ∀ v ∈ visitsOf (byFives.sweep Image.lowBytes.reader .unaligned {}).events,
        v.offset < Area.unaligned.size ∧ v.Faithful .lowBytes byFives .unaligned := by
  have hadvance : ∀ v ∈ visitsOf (byFives.sweep Image.lowBytes.reader .unaligned {}).events,
      byFives.visitor v = .advance 5 ∧ 0 < 5 ∧ v.offset + 5 + byFives.alignment < 2 ^ 64 := by
    decide +kernel
  have hserves := Image.lowBytes.serves_reader Area.unaligned.range
  exact ⟨⟨by decide, by decide, hserves, hadvance⟩,
    Plan.sweep_visits (by decide) (by decide) hserves hadvance⟩

/-- The tail of the region is shorter than a pointer, and the last visit sees what there is. -/
example : (visitsOf (Plan.byFives.sweep Image.lowBytes.reader .unaligned {}).events).map
    (fun v => (v.offset, v.remaining)) =
      [(2, 16), (10, 8), (18, 16), (26, 8), (34, 16), (42, 8), (50, 14), (58, 6)] := by
  decide +kernel

end PointerChains
