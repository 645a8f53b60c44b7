import Mathlib.Algebra.GroupWithZero.Nat
import PointerChains.Proofs.Sweep.Steps

/-!
# The progress of a sweep

A sweep goes upwards from cursor to cursor, so it makes at most as many visits as its region has
bytes, whatever the advances are.  All that it computes at a cursor stays in words but for one
thing: an advance is added to the offset up to the last word, and rounding the sum up to the
alignment can leave the words behind.  There the worker breaks down.

* `Cursor.InWords` — what is computed at a cursor stays in words;
* `Plan.stats_run_le` — no more is counted than the regions have;
* `Area.Overshoots` — behind an advance no aligned offset fits into a word;
* `Plan.sweep_ends` — **a sweep whose reads succeed ends for all advances, and is lost exactly if
  one of them overshoots.**
-/

namespace PointerChains

variable {p : Plan} {read : Reader} {a : Area} {c c' filled : Cursor} {signals signals' : Signals}
  {events : List Event} {ending : Ending} {advance : Visit → Nat}

/-! ### Words -/

/-- What is computed at the cursor stays in words: its offsets, the address to visit, and the end of
a read that is due. -/
structure Cursor.InWords (c : Cursor) (p : Plan) (a : Area) : Prop where
  bounded : c.Bounded p a
  reach_lt : c.reach < 2 ^ 64
  address_lt : c.offset < a.size → a.start + c.offset < 2 ^ 64
  request_lt : ∀ request, c.request? p a = some request →
    c.buffered + request.length ≤ p.bufferSize ∧ a.start + c.reach + request.length < 2 ^ 64

theorem Cursor.Bounded.inWords (h : c.Bounded p a) (hoffset : c.offset < 2 ^ 64) :
    c.InWords p a := by
  have hsize : a.size < 2 ^ 64 := a.range.size_lt
  have hend : a.range.stop.toNat < 2 ^ 64 := a.range.stop.toNat_lt
  obtain ⟨hle, hreach, hroom⟩ := h
  refine ⟨⟨hle, hreach, hroom⟩, by omega, ?_, ?_⟩
  · intro hlt
    have hstop := Area.stop_eq hlt
    omega
  · intro request hrequest
    obtain ⟨-, hbehind, -, hlength⟩ := Cursor.request_eq hrequest
    have hstop := Area.stop_eq hbehind
    exact ⟨by omega, by omega⟩

/-- Every cursor that a sweep comes to stays in words, and so does one that is prepared there. -/
theorem Plan.Reaches.inWords (h : p.Reaches read a c signals c' signals')
    (halign : 0 < p.alignment) (hc : c.Bounded p a) (hoffset : c.offset < 2 ^ 64) :
    c'.InWords p a ∧ ∀ events filled, c'.offset < a.size →
      c'.prepare p read a signals' = (events, .ok filled) → filled.InWords p a := by
  have hbounded := h.bounded hc
  have hword : c'.offset < 2 ^ 64 :=
    h.invariant (P := fun c => c.offset < 2 ^ 64)
      (fun hmove _ => (hmove.next_spec halign).1) hoffset
  refine ⟨hbounded.inWords hword, ?_⟩
  intro events filled hlt hprepare
  have hsame := Cursor.offset_of_prepare hprepare
  exact (hbounded.prepare hlt hprepare).1.inWords (hsame.trans_lt hword)

/-! ### Overshooting -/

/-- No aligned offset behind the advance fits into a word. -/
def Area.Overshoots (a : Area) (alignment offset count : Nat) : Prop :=
  ∀ o, min (offset + count) (2 ^ 64 - 1) ≤ o → alignment ∣ a.start + o → 2 ^ 64 ≤ o

theorem Area.overshoots_iff {alignment offset count : Nat} (h : 0 < alignment) :
    a.Overshoots alignment offset count ↔
      2 ^ 64 ≤ alignUp a.start (min (offset + count) (2 ^ 64 - 1)) alignment := by
  constructor
  · intro hover
    exact hover _ (le_alignUp ..) (dvd_alignUp _ _ h)
  · intro hlarge o hle hdvd
    exact Nat.le_trans hlarge (alignUp_le_of_dvd h hle hdvd)

theorem Plan.breaksAt_iff (halign : 0 < p.alignment) {v : Visit} (hlt : v.offset < a.size)
    (haddress : v.address = a.address v.offset) {cancel : Bool}
    (hreply : p.visitor v = .advance (advance v) cancel) (hpos : 0 < advance v) :
    p.breaksAt v = true ↔ a.Overshoots p.alignment v.offset (advance v) := by
  obtain ⟨count, hcount⟩ := Nat.exists_eq_succ_of_ne_zero (Nat.ne_of_gt hpos)
  have hstart : v.address.toNat - v.offset = a.start := by
    rw [haddress, Area.toNat_address hlt, Nat.add_sub_cancel]
  rw [Area.overshoots_iff halign, breaksAt, hreply, hcount]
  simp only [Nat.succ_eq_add_one, hstart, decide_eq_true_eq]

/-! ### Progress -/

namespace Plan.Sweeps

/-- The offsets that are visited increase. -/
theorem pairwise_lt (h : p.Sweeps read a c signals events ending) :
    (visitsOf events).Pairwise fun v w => v.offset < w.offset := by
  induction h with
  | past => exact .nil
  | unprepared _ hprepare =>
    rw [Cursor.visitsOf_unprepared hprepare]
    exact .nil
  | last _ hprepare _ =>
    rw [Cursor.visitsOf_prepared hprepare]
    exact List.pairwise_singleton ..
  | move hmove hrest ih =>
    rw [visitsOf_append, Cursor.visitsOf_prepared hmove.prepare_eq]
    refine .cons ?_ ih
    intro w hw
    have hle : _ ≤ w.offset := (hrest.mem_region w hw).1
    exact (hmove.offset_eq.trans_lt hmove.offset_lt_next).trans_le hle

/-- No more offsets are visited than the region has behind the cursor. -/
theorem length_visits_le (h : p.Sweeps read a c signals events ending) :
    (visitsOf events).length ≤ a.size - c.offset := by
  induction h with
  | past => exact Nat.zero_le _
  | unprepared _ hprepare =>
    rw [Cursor.visitsOf_unprepared hprepare]
    exact Nat.zero_le _
  | last hlt hprepare _ =>
    rw [Cursor.visitsOf_prepared hprepare]
    exact Nat.sub_pos_of_lt hlt
  | move hmove _ ih =>
    have hlt := hmove.offset_lt
    have hstep := hmove.offset_lt_next
    have hrest : _ ≤ a.size - _ := ih
    rw [visitsOf_append, Cursor.visitsOf_prepared hmove.prepare_eq, List.length_append,
      List.length_singleton]
    simp only [Cursor.moveTo] at hrest
    omega

end Plan.Sweeps

/-- A sweep counts no more visits than it made, and no more bytes than the region has. -/
theorem Plan.stats_sweepFrom_le :
    (p.sweepFrom read a c signals).stats.addresses ≤
        (visitsOf (p.sweepFrom read a c signals).events).length ∧
      (p.sweepFrom read a c signals).stats.bytes ≤ a.size := by
  fun_induction Plan.sweepFrom p read a c signals with
  | case5 c signals hlt before filled hprepare visit events count cancel hreply signals' hnext =>
    rw [Cursor.visitsOf_prepared hprepare]
    exact ⟨Nat.le_refl 1, Nat.zero_le _⟩
  | case6 c signals hlt before filled hprepare visit events count cancel hreply signals' next
      hnext ih =>
    obtain ⟨haddresses, hbytes⟩ := ih
    show 1 + (p.sweepFrom read a (filled.moveTo next) signals').stats.addresses ≤
        (visitsOf (events ++ _)).length ∧
      0 + (p.sweepFrom read a (filled.moveTo next) signals').stats.bytes ≤ a.size
    rw [visitsOf_append, Cursor.visitsOf_prepared hprepare, List.length_append,
      List.length_singleton, Nat.zero_add]
    exact ⟨Nat.add_le_add_left haddresses 1, hbytes⟩
  | case7 => exact ⟨Nat.le_refl 0, Nat.le_refl _⟩
  | _ => exact ⟨Nat.zero_le _, Nat.zero_le _⟩

theorem Plan.stats_sweep_le (p : Plan) (read : Reader) (a : Area) (signals : Signals) :
    (p.sweep read a signals).stats.addresses ≤ (visitsOf (p.sweep read a signals).events).length ∧
      (p.sweep read a signals).stats.bytes ≤ a.size := by
  rw [sweep_eq]
  exact stats_sweepFrom_le

/-- Nor does the sweep of several regions count more visits or bytes than they have. -/
theorem Plan.stats_sweepAll_le {areas : List Area} :
    (p.sweepAll read signals areas).stats.addresses ≤ (areas.map Area.size).sum ∧
      (p.sweepAll read signals areas).stats.bytes ≤ (areas.map Area.size).sum := by
  induction areas generalizing signals with
  | nil => exact ⟨Nat.le_refl 0, Nat.le_refl 0⟩
  | cons a rest ih =>
    have hvisits : (visitsOf (p.sweep read a {}).events).length ≤ a.size - _ :=
      (p.sweeps_sweep read a {}).length_visits_le
    have hfirst : (p.sweep read a {}).stats.addresses ≤ a.size ∧
        (p.sweep read a {}).stats.bytes ≤ a.size :=
      ⟨Nat.le_trans (p.stats_sweep_le read a {}).1 (Nat.le_trans hvisits (Nat.sub_le ..)),
        (p.stats_sweep_le read a {}).2⟩
    rw [List.map_cons, List.sum_cons]
    obtain ⟨-, heq⟩ | ⟨-, -, heq⟩ | ⟨-, ⟨-, heq⟩ | ⟨-, heq⟩⟩ := p.sweepAll_cases read signals a rest
    · rw [heq]
      exact ⟨Nat.zero_le _, Nat.zero_le _⟩
    · rw [heq]
      exact ⟨Nat.zero_le _, Nat.zero_le _⟩
    · rw [heq]
      exact ⟨Nat.add_le_add hfirst.1 ih.1, Nat.add_le_add hfirst.2 ih.2⟩
    · rw [heq]
      exact ⟨Nat.le_add_right_of_le hfirst.1, Nat.le_add_right_of_le hfirst.2⟩

theorem Plan.stats_run_le : (p.run read signals).stats.addresses ≤ (p.areas.map Area.size).sum ∧
    (p.run read signals).stats.bytes ≤ (p.areas.map Area.size).sum := by
  rcases Nat.lt_or_ge largestBuffer p.bufferSize with hlarge | hfits
  · rw [run_of_large hlarge]
    exact ⟨Nat.zero_le _, Nat.zero_le _⟩
  · rw [run_of_fits hfits]
    exact stats_sweepAll_le

/-- Every read inside the range is answered in full. -/
def Reader.Answers (read : Reader) (r : AddressRange) : Prop :=
  ∀ (x : Address) (length : Nat), 0 < length → r.start.toNat ≤ x.toNat →
    x.toNat + length ≤ r.stop.toNat → ∃ bytes, read.exactly x length = .ok bytes

theorem Reader.Serves.answers {image : Image} {r : AddressRange} (h : read.Serves image r) :
    read.Answers r :=
  fun x length hpos hstart hstop => ⟨_, h.exactly_eq x length hpos hstart hstop⟩

/-- If the reads succeed and the visitor advances, a sweep that does not run to its end is lost, or
was told to end. -/
theorem Plan.Sweeps.ending_of_advance (h : p.Sweeps read a c signals events ending)
    (hfit : 2 * p.width.size ≤ p.bufferSize) (hread : read.Answers a.range)
    (hadvance : ∀ v, ∃ cancel, p.visitor v = .advance (advance v) cancel ∧ 0 < advance v) :
    ending = .lost ∨ ending = .complete ∨
      (ending = .failed .cancelled ∧
        (signals.cancelled = true ∨ ∃ v ∈ visitsOf events, p.cancelsAt v = true)) ∨
      (ending = .stopped ∧ signals.aborted = true) := by
  induction h with
  | past => exact .inr (.inl rfl)
  | unprepared _ hprepare =>
    obtain ⟨request, hrequest, -, ⟨cause, hfails, -⟩ | ⟨-, -, hsignals⟩⟩ :=
      Cursor.prepare_eq_error hprepare
    · obtain ⟨-, hpos, hstart, hstop⟩ := Cursor.request_inside hfit hrequest
      obtain ⟨bytes, hbytes⟩ := hread _ _ hpos hstart hstop
      rw [hbytes] at hfails
      cases hfails
    · obtain ⟨hcancelled, rfl⟩ | ⟨-, haborted, rfl⟩ := hsignals
      · exact .inr (.inr (.inl ⟨rfl, .inl hcancelled⟩))
      · exact .inr (.inr (.inr ⟨rfl, haborted⟩))
  | @last c filled signals before ending _ _ hending =>
    obtain ⟨cancel, hreply, hpos⟩ := hadvance (filled.visit a)
    obtain ⟨count, hcount⟩ := Nat.exists_eq_succ_of_ne_zero (Nat.ne_of_gt hpos)
    rw [hcount] at hreply
    rw [endingAt?_of_advance hreply] at hending
    split at hending
    · exact .inl (Option.some.inj hending).symm
    · cases hending
  | move hmove _ ih =>
    obtain hlost | hcomplete | ⟨hfailed, hcancel⟩ | hstopped := ih
    · exact .inl hlost
    · exact .inr (.inl hcomplete)
    · refine .inr (.inr (.inl ⟨hfailed, ?_⟩))
      rw [visitsOf_append, Cursor.visitsOf_prepared hmove.prepare_eq]
      simp only [Signals.behind, Bool.or_eq_true] at hcancel
      obtain (hbefore | hhere) | ⟨v, hv, hlater⟩ := hcancel
      · exact .inl hbefore
      · exact .inr ⟨_, List.mem_cons_self .., hhere⟩
      · exact .inr ⟨v, .tail _ hv, hlater⟩
    · exact .inr (.inr (.inr hstopped))

/-- **A sweep whose reads succeed ends for all advances.**  At every cursor that it comes to, what
is computed stays in words.  The offsets that it visits increase, and there are at most as many as
the region has bytes, which bounds its totals.  It is lost exactly if an advance overshoots; if not,
it runs to the end of the region unless it was told to end. -/
theorem Plan.sweep_ends (halign : isPowerOfTwo p.alignment) (hword : p.alignment < 2 ^ 64)
    (hfit : 2 * p.width.size ≤ p.bufferSize) (hread : read.Answers a.range)
    (hadvance : ∀ v, ∃ cancel, p.visitor v = .advance (advance v) cancel ∧ 0 < advance v) :
    (∀ c signals', p.Reaches read a (.startAt (alignUp a.start 0 p.alignment)) signals c signals' →
      c.InWords p a ∧ ∀ events filled, c.offset < a.size →
        c.prepare p read a signals' = (events, .ok filled) → filled.InWords p a) ∧
      (visitsOf (p.sweep read a signals).events).Pairwise (fun v w => v.offset < w.offset) ∧
      (visitsOf (p.sweep read a signals).events).length ≤ a.size ∧
      (p.sweep read a signals).stats.addresses ≤ a.size ∧
      (p.sweep read a signals).stats.bytes ≤ a.size ∧
      ((p.sweep read a signals).ending = .lost ↔
        ∃ v ∈ visitsOf (p.sweep read a signals).events,
          a.Overshoots p.alignment v.offset (advance v)) ∧
      ((p.sweep read a signals).ending = .lost ∨ (p.sweep read a signals).ending = .complete ∨
        ((p.sweep read a signals).ending = .failed .cancelled ∧ (signals.cancelled = true ∨
          ∃ v ∈ visitsOf (p.sweep read a signals).events, p.cancelsAt v = true)) ∨
        ((p.sweep read a signals).ending = .stopped ∧ signals.aborted = true)) := by
  have hpos : 0 < p.alignment := pos_of_isPowerOfTwo halign
  have hsweeps := p.sweeps_sweep read a signals
  have hlength : (visitsOf (p.sweep read a signals).events).length ≤ a.size :=
    Nat.le_trans hsweeps.length_visits_le (Nat.sub_le ..)
  obtain ⟨haddresses, hbytes⟩ := p.stats_sweep_le read a signals
  refine ⟨?_, hsweeps.pairwise_lt, hlength, Nat.le_trans haddresses hlength, hbytes, ?_,
    hsweeps.ending_of_advance hfit hread hadvance⟩
  · intro c signals' hreaches
    have hstart := alignUp_lt a.start 0 hpos
    rw [Nat.zero_add] at hstart
    exact hreaches.inWords hpos (Cursor.bounded_startAt _) (hstart.trans hword)
  · have hlost : (p.sweep read a signals).ending = .lost ↔
        p.brokeIn (p.sweep read a signals).events = true := lost_iff_sweep
    rw [hlost, brokeIn, List.any_eq_true]
    refine exists_congr fun v => and_congr_right fun hv => ?_
    obtain ⟨-, hlt, haddress, -⟩ := hsweeps.mem_region v hv
    obtain ⟨cancel, hreply, hadvances⟩ := hadvance v
    exact breaksAt_iff hpos hlt haddress hreply hadvances

/-- Words of four bytes, of which the second is answered with the largest advance. -/
def Plan.skipsRest : Plan :=
  { areas := [], visitor := fun v => .advance (if v.offset = 4 then 2 ^ 64 - 1 else 4)
    alignment := 4, width := .eight, bufferSize := 16 }

/-- A region of four such words. -/
def Area.fourWords : Area := ⟨⟨0⟩, .ofNat 0x1000, .ofNat 0x1010⟩

theorem Plan.sweep_ends_skipsRest :
    (isPowerOfTwo skipsRest.alignment ∧ skipsRest.alignment < 2 ^ 64 ∧
      2 * skipsRest.width.size ≤ skipsRest.bufferSize ∧
      Image.lowBytes.reader.Answers Area.fourWords.range ∧
      ∀ v, ∃ cancel, skipsRest.visitor v =
        .advance (if v.offset = 4 then 2 ^ 64 - 1 else 4) cancel ∧
          0 < if v.offset = 4 then 2 ^ 64 - 1 else 4) ∧
    (visitsOf (skipsRest.sweep Image.lowBytes.reader .fourWords {}).events).length ≤ 16 ∧
      ((skipsRest.sweep Image.lowBytes.reader .fourWords {}).ending = .lost ↔
        ∃ v ∈ visitsOf (skipsRest.sweep Image.lowBytes.reader .fourWords {}).events,
          Area.fourWords.Overshoots 4 v.offset (if v.offset = 4 then 2 ^ 64 - 1 else 4)) := by
  have hanswers : Image.lowBytes.reader.Answers Area.fourWords.range :=
    (Image.lowBytes.serves_reader _).answers
  have hadvance : ∀ v, ∃ cancel, skipsRest.visitor v =
      .advance (if v.offset = 4 then 2 ^ 64 - 1 else 4) cancel ∧
        0 < if v.offset = 4 then 2 ^ 64 - 1 else 4 := by
    intro v
    exact ⟨false, rfl, by split <;> omega⟩
  obtain ⟨-, -, hlength, -, -, hlost, -⟩ : _ ∧ _ ∧
      (visitsOf (skipsRest.sweep Image.lowBytes.reader .fourWords {}).events).length ≤ 16 ∧ _ :=
    Plan.sweep_ends (by decide) (by decide) (by decide) hanswers hadvance
  exact ⟨⟨by decide, by decide, by decide, hanswers, hadvance⟩, hlength, hlost⟩

/-- **The largest advance can cost the worker**: it is positive and fits into a word, and the reads
succeed, yet rounding up behind the second word overflows. -/
theorem Plan.skipsRest_lost :
    (isPowerOfTwo skipsRest.alignment ∧ 2 * skipsRest.width.size ≤ skipsRest.bufferSize ∧
      Image.lowBytes.reader.Answers Area.fourWords.range ∧
      ∀ v, ∃ count, skipsRest.visitor v = .advance count ∧ 1 ≤ count ∧ count ≤ 2 ^ 64 - 1) ∧
    ((visitsOf (skipsRest.sweep Image.lowBytes.reader .fourWords {}).events).map
        fun v => v.offset) = [0, 4] ∧
      (skipsRest.sweep Image.lowBytes.reader .fourWords {}).ending = .lost := by
  refine ⟨⟨by decide, by decide, (Image.lowBytes.serves_reader _).answers, ?_⟩, ?_, ?_⟩
  · intro v
    exact ⟨_, rfl, by split <;> omega, by split <;> omega⟩
  · decide +kernel
  · decide +kernel

end PointerChains
