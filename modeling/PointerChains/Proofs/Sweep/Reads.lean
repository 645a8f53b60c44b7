import PointerChains.Proofs.Sweep.Cancellation

/-!
# The reads of a sweep

A sweep reads where its window ends, whether it fills the window up behind a rest or starts it
afresh, and the window never ends before it did.  So its reads go upwards through the region and do
not meet.

* `Request.Touches` — the addresses that a read asks for;
* `Climbs` — reads that go upwards, each of a byte at least and of a buffer at most;
* `Plan.Sweeps.climbs` — the reads of a sweep climb from the end of its window on;
* `Plan.climbs_sweep`, `Plan.inside_sweep` — from the start of its region on, and inside of it;
* `Plan.shown_sweep` — every visit is shown something, and only what was read.
-/

namespace PointerChains

variable {p : Plan} {read : Reader} {a : Area} {c filled : Cursor} {signals : Signals}
  {events before : List Event} {ending : Ending} {requests requests' : List Request}
  {room low mid : Nat}

@[simp] theorem readsOf_append (events events' : List Event) :
    readsOf (events ++ events') = readsOf events ++ readsOf events' :=
  List.filterMap_append ..

/-- A visit reads nothing. -/
theorem readsOf_append_visit (events : List Event) (v : Visit) :
    readsOf (events ++ [.visit v]) = readsOf events := by
  rw [readsOf_append]
  exact List.append_nil _

/-- The read asks for the byte at the address. -/
def Request.Touches (r : Request) (x : Address) : Prop :=
  r.address.toNat ≤ x.toNat ∧ x.toNat < r.address.toNat + r.length

/-- The visit is shown the byte at the address. -/
def Visit.Spans (v : Visit) (x : Address) : Prop :=
  v.address.toNat ≤ x.toNat ∧ x.toNat < v.address.toNat + v.remaining

/-! ### Reads that climb -/

/-- Reads from an address on: each asks for a byte at least and for no more than there is room for,
and starts behind all that were asked for before. -/
structure Climbs (room low : Nat) (requests : List Request) : Prop where
  low_le : ∀ r ∈ requests, low ≤ r.address.toNat
  proper : ∀ r ∈ requests, 0 < r.length ∧ r.length ≤ room
  ascending : requests.Pairwise fun r s => r.address.toNat + r.length ≤ s.address.toNat

namespace Climbs

theorem nil : Climbs room low [] where
  low_le := List.forall_mem_nil _
  proper := List.forall_mem_nil _
  ascending := .nil

theorem singleton {r : Request} (hlow : low ≤ r.address.toNat)
    (hproper : 0 < r.length ∧ r.length ≤ room) : Climbs room low [r] where
  low_le := List.forall_mem_singleton.2 hlow
  proper := List.forall_mem_singleton.2 hproper
  ascending := List.pairwise_singleton ..

/-- Reads climb on from where others have ended. -/
theorem append (h : Climbs room low requests) (h' : Climbs room mid requests') (hle : low ≤ mid)
    (hend : ∀ r ∈ requests, r.address.toNat + r.length ≤ mid) :
    Climbs room low (requests ++ requests') where
  low_le := List.forall_mem_append.2 ⟨h.low_le, fun r hr => Nat.le_trans hle (h'.low_le r hr)⟩
  proper := List.forall_mem_append.2 ⟨h.proper, h'.proper⟩
  ascending := by
    refine List.pairwise_append.2 ⟨h.ascending, h'.ascending, ?_⟩
    intro r hr s hs
    exact Nat.le_trans (hend r hr) (h'.low_le s hs)

/-- No address is asked for twice on the way up. -/
theorem pairwise_touches (h : Climbs room low requests) :
    requests.Pairwise fun r s => ∀ x, r.Touches x → ¬s.Touches x := by
  refine h.ascending.imp ?_
  intro r s hle x hr hs
  have hbehind : x.toNat < s.address.toNat := hr.2.trans_le hle
  exact absurd hs.1 (Nat.not_le_of_lt hbehind)

end Climbs

/-- What a visit is prepared with climbs from the end of the window on. -/
theorem Cursor.climbs_prepare {result : Except Ending Cursor}
    (h : c.prepare p read a signals = (events, result)) (hfit : 2 * p.width.size ≤ p.bufferSize) :
    Climbs p.bufferSize (a.start + c.reach) (readsOf events) := by
  have hread : ∀ request, c.request? p a = some request →
      Climbs p.bufferSize (a.start + c.reach) [request] := by
    intro request hrequest
    obtain ⟨haddress, hpos, -, -⟩ := Cursor.request_inside hfit hrequest
    obtain ⟨-, -, -, hlength⟩ := Cursor.request_eq hrequest
    exact .singleton (Nat.le_of_eq haddress.symm) ⟨hpos, by omega⟩
  cases result with
  | ok filled =>
    obtain ⟨-, rfl, -⟩ | ⟨request, -, hrequest, -, rfl, -⟩ := Cursor.prepare_cases h
    · exact .nil
    · exact hread request hrequest
  | error ending =>
    obtain ⟨request, hrequest, rfl, -⟩ := Cursor.prepare_eq_error h
    exact hread request hrequest

/-- What was read for a visit is in the window afterwards. -/
theorem Cursor.reach_of_prepare (h : c.prepare p read a signals = (before, .ok filled)) :
    c.reach ≤ filled.reach ∧
      ∀ r ∈ readsOf before, r.address.toNat + r.length ≤ a.start + filled.reach := by
  obtain ⟨-, rfl, rfl⟩ | ⟨request, bytes, hrequest, hbytes, rfl, rfl⟩ := Cursor.prepare_cases h
  · exact ⟨Nat.le_refl _, List.forall_mem_nil _⟩
  · refine ⟨Nat.le_add_right .., List.forall_mem_singleton.2 ?_⟩
    obtain ⟨-, hreach, haddress, -⟩ := Cursor.request_eq hrequest
    have hlength : bytes.length = request.length := (Reader.exactly_eq_ok_iff.1 hbytes).2
    show request.address.toNat + request.length ≤ a.start + (c.reach + bytes.length)
    rw [haddress, Area.toNat_address hreach, hlength, Nat.add_assoc]

/-- The reads of a sweep climb from the end of the window on. -/
theorem Plan.Sweeps.climbs (h : p.Sweeps read a c signals events ending)
    (hfit : 2 * p.width.size ≤ p.bufferSize) :
    Climbs p.bufferSize (a.start + c.reach) (readsOf events) := by
  induction h with
  | past => exact .nil
  | unprepared _ hprepare => exact Cursor.climbs_prepare hprepare hfit
  | last _ hprepare _ =>
    rw [readsOf_append_visit]
    exact Cursor.climbs_prepare hprepare hfit
  | @move c filled signals before rest ending next hmove _ ih =>
    obtain ⟨hreach, hend⟩ := Cursor.reach_of_prepare hmove.prepare_eq
    -- an advance can leave the window behind, but never takes its end back
    have hmoved : filled.reach ≤ (filled.moveTo next).reach := Nat.le_max_left ..
    rw [readsOf_append, readsOf_append_visit]
    refine (Cursor.climbs_prepare hmove.prepare_eq hfit).append ih (by omega) ?_
    intro r hr
    exact Nat.le_trans (hend r hr) (Nat.add_le_add_left hmoved _)

theorem Plan.climbs_sweep (hfit : 2 * p.width.size ≤ p.bufferSize) :
    Climbs p.bufferSize a.start (readsOf (p.sweep read a signals).events) := by
  have hclimbs := (p.sweeps_sweep read a signals).climbs hfit
  exact { hclimbs with
    low_le := fun r hr => Nat.le_trans (Nat.le_add_right ..) (hclimbs.low_le r hr) }

/-- The reads of a sweep stay in its region. -/
theorem Plan.inside_sweep {r : Request} (hr : r ∈ readsOf (p.sweep read a signals).events) :
    (Event.read r).Inside a := by
  obtain ⟨e, he, hrequest⟩ := List.mem_filterMap.1 hr
  cases e with
  | read request =>
    cases hrequest
    exact (p.sweeps_sweep read a signals).inside _ he
  | visit v => cases hrequest

/-! ### What was read -/

/-- The window ends where it starts, or behind, and all of it was asked for. -/
structure Cursor.Backed (c : Cursor) (a : Area) (requests : List Request) : Prop where
  offset_le : c.offset ≤ c.reach
  exists_read : ∀ x : Address, a.start + c.offset ≤ x.toNat → x.toNat < a.start + c.reach →
    ∃ r ∈ requests, r.Touches x

namespace Cursor.Backed

theorem startAt (offset : Nat) : (Cursor.startAt offset).Backed a [] where
  offset_le := Nat.le_refl _
  exists_read := by
    intro x hle hlt
    exact absurd hlt (Nat.not_lt_of_le hle)

theorem moveTo (h : c.Backed a requests) {offset : Nat} (hle : c.offset ≤ offset) :
    (c.moveTo offset).Backed a requests where
  offset_le := Nat.le_max_right ..
  exists_read := by
    intro x hstart hend
    simp only [Cursor.moveTo] at hstart hend
    exact h.exists_read x (by omega) (by omega)

/-- What is read for a visit is all that the window gains, and it is not empty then. -/
theorem prepare (h : c.Backed a requests) (hfit : 2 * p.width.size ≤ p.bufferSize)
    (hlt : c.offset < a.size) (hprepare : c.prepare p read a signals = (before, .ok filled)) :
    filled.Backed a (requests ++ readsOf before) ∧ 0 < filled.buffered := by
  have hwidth := p.width.size_pos
  have hle := h.offset_le
  obtain ⟨hnone, rfl, rfl⟩ | ⟨request, bytes, hrequest, hbytes, rfl, rfl⟩ :=
    Cursor.prepare_cases hprepare
  · have hready : ¬(filled.buffered < p.width.size ∧ filled.reach < a.size) := by
      intro hdue
      rw [request?, if_pos hdue] at hnone
      cases hnone
    refine ⟨?_, ?_⟩
    · rw [← List.append_nil requests] at h
      exact h
    · simp only [buffered] at hready ⊢
      omega
  · obtain ⟨haddress, hpos, -, -⟩ := Cursor.request_inside hfit hrequest
    have hlength : bytes.length = request.length := (Reader.exactly_eq_ok_iff.1 hbytes).2
    refine ⟨⟨Nat.le_trans hle (Nat.le_add_right ..), ?_⟩, ?_⟩
    · intro x hstart hend
      -- the rest was asked for before, and what is behind it just now
      by_cases hold : x.toNat < a.start + c.reach
      · obtain ⟨r, hr, hx⟩ := h.exists_read x hstart hold
        exact ⟨r, List.mem_append_left _ hr, hx⟩
      · simp only [Cursor.extend] at hend
        refine ⟨request, List.mem_append_right _ (List.mem_singleton_self request), ?_⟩
        exact ⟨by omega, by omega⟩
    · simp only [buffered, Cursor.extend]
      omega

/-- A visit in such a window is shown something, and only what was asked for. -/
theorem visit (h : c.Backed a requests) (hpos : 0 < c.buffered) (hlt : c.offset < a.size) :
    0 < (c.visit a).remaining ∧ ∀ x, (c.visit a).Spans x → ∃ r ∈ requests, r.Touches x := by
  refine ⟨hpos, ?_⟩
  intro x hx
  obtain ⟨hstart, hend⟩ := hx
  have haddress : ((c.visit a).address).toNat = a.start + c.offset := Area.toNat_address hlt
  have hremaining : (c.visit a).remaining = c.reach - c.offset := rfl
  have hle := h.offset_le
  exact h.exists_read x (by omega) (by omega)

end Cursor.Backed

/-- Every visit of a sweep is shown something, and only what was asked for. -/
theorem Plan.Sweeps.shown (h : p.Sweeps read a c signals events ending)
    (hfit : 2 * p.width.size ≤ p.bufferSize) (hc : c.Backed a requests) :
    ∀ v ∈ visitsOf events, 0 < v.remaining ∧
      ∀ x, v.Spans x → ∃ r ∈ requests ++ readsOf events, r.Touches x := by
  induction h generalizing requests with
  | past => exact List.forall_mem_nil _
  | unprepared _ hprepare =>
    rw [Cursor.visitsOf_unprepared hprepare]
    exact List.forall_mem_nil _
  | @last c filled signals before ending hlt hprepare _ =>
    obtain ⟨hfilled, hpos⟩ := hc.prepare hfit hlt hprepare
    rw [Cursor.visitsOf_prepared hprepare, readsOf_append_visit]
    refine List.forall_mem_singleton.2 (hfilled.visit hpos ?_)
    exact (Cursor.offset_of_prepare hprepare).trans_lt hlt
  | @move c filled signals before rest ending next hmove _ ih =>
    obtain ⟨hfilled, hpos⟩ := hc.prepare hfit hmove.offset_lt hmove.prepare_eq
    have hmoved := hfilled.moveTo (hmove.offset_eq.trans_le (Nat.le_of_lt hmove.offset_lt_next))
    have hlt := hmove.offset_eq.trans_lt hmove.offset_lt
    rw [visitsOf_append, Cursor.visitsOf_prepared hmove.prepare_eq, readsOf_append,
      readsOf_append_visit, ← List.append_assoc]
    refine List.forall_mem_append.2 ⟨List.forall_mem_singleton.2 ?_, ih hmoved⟩
    obtain ⟨hremaining, hshown⟩ := hfilled.visit hpos hlt
    refine ⟨hremaining, ?_⟩
    intro x hx
    obtain ⟨r, hr, htouches⟩ := hshown x hx
    exact ⟨r, List.mem_append_left _ hr, htouches⟩

theorem Plan.shown_sweep (hfit : 2 * p.width.size ≤ p.bufferSize) :
    ∀ v ∈ visitsOf (p.sweep read a signals).events, 0 < v.remaining ∧
      ∀ x, v.Spans x → ∃ r ∈ readsOf (p.sweep read a signals).events, r.Touches x :=
  (p.sweeps_sweep read a signals).shown hfit (.startAt _)

end PointerChains
