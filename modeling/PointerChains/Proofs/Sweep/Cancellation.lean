import PointerChains.Proofs.Sweep.Steps

/-!
# Sweeps of a cancelled pass

A worker looks at the signals before each region and after each read into an empty window, but not
when it fills the window up behind a rest.  So behind the visit that cancels the pass it starts no
other region and keeps no window that it read afresh; yet as long as a rest is left each time, it
goes on through the region.  With windows that end at aligned addresses no rest is ever left.

* `Refills` — events whose reads fill up behind a rest, but for the last one;
* `Plan.Sweeps.refills`, `Plan.Sweeps.ending_of_cancelled` — a sweep that sees the cancellation;
* `Plan.IsTight`, `Plan.Sweeps.refills_tight` — alignments that leave no rest;
* `Plan.HaltsBehind`, `Plan.haltsBehind_sweepAll` — **how a worker halts behind a visit that
  cancels.**
-/

namespace PointerChains

variable {p : Plan} {read : Reader} {a : Area} {c c' filled : Cursor} {signals signals' : Signals}
  {before events : List Event} {ending : Ending}

/-- The reads among events, in order. -/
def readsOf (events : List Event) : List Request := events.filterMap Event.request?

/-- Each read but the last event fills up behind a rest: the visit that follows is at an address
before the one that was read. -/
inductive Refills : List Event → Prop where
  | nil : Refills []
  | last (r : Request) : Refills [.read r]
  | visit {v : Visit} {rest : List Event} : Refills rest → Refills (.visit v :: rest)
  | fill {r : Request} {v : Visit} {rest : List Event} :
      v.address.toNat < r.address.toNat → Refills rest → Refills (.read r :: .visit v :: rest)

/-- How the event ends the sweep by itself, if it does: the read fails, or the visit is the last. -/
def Plan.endingOf? (p : Plan) (read : Reader) : Event → Option Ending
  | .read r =>
    match read.exactly r.address r.length with
    | .error cause => some (.failed cause)
    | .ok _ => none
  | .visit v => p.endingAt? v

/-- The event takes place in the region. -/
def Event.Inside (a : Area) : Event → Prop
  | .read r => a.start ≤ r.address.toNat ∧ r.address.toNat + r.length ≤ a.range.stop.toNat
  | .visit v => v.region = a.region ∧ a.start ≤ v.address.toNat ∧
      v.address.toNat < a.range.stop.toNat

/-! ### Steps of a cancelled sweep -/

/-- A visit of a cancelled sweep is prepared without a read, or with one behind a rest. -/
theorem Cursor.refills_prepared (hlt : c.offset < a.size)
    (hprepare : c.prepare p read a signals = (before, .ok filled))
    (hcancelled : signals.cancelled = true) {rest : List Event} (hrest : Refills rest) :
    Refills (before ++ [.visit (filled.visit a)] ++ rest) := by
  obtain ⟨-, rfl, rfl⟩ | ⟨request, bytes, hrequest, -, hclear, rfl, rfl⟩ :=
    Cursor.prepare_eq_ok hprepare
  · exact .visit hrest
  · obtain ⟨-, hreach, haddress, -⟩ := Cursor.request_eq hrequest
    have hbehind : c.offset < c.reach := by
      by_contra hempty
      have hclear := (hclear (Nat.sub_eq_zero_of_le (Nat.le_of_not_lt hempty))).1
      rw [hcancelled] at hclear
      cases hclear
    refine .fill ?_ hrest
    show (a.address c.offset).toNat < request.address.toNat
    rw [haddress, Area.toNat_address hlt, Area.toNat_address hreach]
    omega

/-- Preparing a visit reads inside the region. -/
theorem Cursor.inside_prepare {result : Except Ending Cursor}
    (h : c.prepare p read a signals = (events, result)) : ∀ e ∈ events, e.Inside a := by
  have hevents : events = [] ∨ ∃ request, c.request? p a = some request ∧
      events = [.read request] := by
    cases result with
    | ok filled =>
      obtain ⟨-, hnone, -⟩ | ⟨request, -, hrequest, -, hread, -⟩ := Cursor.prepare_cases h
      · exact .inl hnone
      · exact .inr ⟨request, hrequest, hread⟩
    | error ending =>
      obtain ⟨request, hrequest, hread, -⟩ := Cursor.prepare_eq_error h
      exact .inr ⟨request, hrequest, hread⟩
  intro e he
  obtain rfl | ⟨request, hrequest, rfl⟩ := hevents
  · cases he
  · rw [List.mem_singleton.1 he]
    obtain ⟨-, hreach, haddress, hlength⟩ := Cursor.request_eq hrequest
    have hstop := Area.stop_eq hreach
    simp only [Event.Inside, haddress, Area.toNat_address hreach]
    omega

theorem Cursor.inside_prepared (hlt : c.offset < a.size)
    (h : c.prepare p read a signals = (before, .ok filled)) :
    ∀ e ∈ before ++ [.visit (filled.visit a)], e.Inside a := by
  intro e he
  rcases List.mem_append.1 he with hbefore | hhere
  · exact Cursor.inside_prepare h e hbefore
  · have hoffset := Cursor.offset_of_prepare h
    have hstop := Area.stop_eq hlt
    rw [List.mem_singleton.1 hhere]
    simp only [Event.Inside, Cursor.visit, hoffset, Area.toNat_address hlt, true_and]
    omega

namespace Plan.Sweeps

/-- A sweep stays in its region. -/
theorem inside (h : p.Sweeps read a c signals events ending) : ∀ e ∈ events, e.Inside a := by
  induction h with
  | past =>
    intro e he
    cases he
  | unprepared _ hprepare => exact Cursor.inside_prepare hprepare
  | last hlt hprepare _ => exact Cursor.inside_prepared hlt hprepare
  | move hmove _ ih =>
    intro e he
    rcases List.mem_append.1 he with hhere | hrest
    · exact Cursor.inside_prepared hmove.offset_lt hmove.prepare_eq e hhere
    · exact ih e hrest

/-- Every read of a cancelled sweep but the last event fills up behind a rest. -/
theorem refills (h : p.Sweeps read a c signals events ending)
    (hcancelled : signals.cancelled = true) : Refills events := by
  induction h with
  | past => exact .nil
  | unprepared _ hprepare =>
    obtain ⟨request, -, rfl, -⟩ := Cursor.prepare_eq_error hprepare
    exact .last request
  | last hlt hprepare _ =>
    rw [← List.append_nil (_ ++ _)]
    exact Cursor.refills_prepared hlt hprepare hcancelled .nil
  | move hmove _ ih =>
    have hrest := ih (by simp only [Signals.behind, hcancelled, Bool.true_or])
    exact Cursor.refills_prepared hmove.offset_lt hmove.prepare_eq hcancelled hrest

/-- A cancelled sweep runs to the end of its region without another read of an empty window, or is
cancelled at such a read, or ends by itself. -/
theorem ending_of_cancelled (h : p.Sweeps read a c signals events ending)
    (hcancelled : signals.cancelled = true) :
    (ending = .complete ∧ ∀ r, events.getLast? ≠ some (.read r)) ∨
      ending = .failed .cancelled ∨
      ∃ e, events.getLast? = some e ∧ p.endingOf? read e = some ending := by
  induction h with
  | past =>
    refine .inl ⟨rfl, ?_⟩
    intro r hlast
    cases hlast
  | unprepared _ hprepare =>
    obtain ⟨request, -, rfl, ⟨cause, hfails, rfl⟩ | ⟨-, -, ⟨-, rfl⟩ | ⟨hclear, -⟩⟩⟩ :=
      Cursor.prepare_eq_error hprepare
    · refine .inr (.inr ⟨.read request, rfl, ?_⟩)
      simp only [endingOf?, hfails]
    · exact .inr (.inl rfl)
    · rw [hcancelled] at hclear
      cases hclear
  | last _ _ hending => exact .inr (.inr ⟨_, List.getLast?_concat .., hending⟩)
  | @move c filled signals before rest ending next _ _ ih =>
    have hlast : (before ++ [Event.visit (filled.visit a)] ++ rest).getLast? =
        rest.getLast?.or (some (.visit (filled.visit a))) := by
      rw [List.getLast?_append, List.getLast?_concat]
    rw [hlast]
    obtain ⟨hcomplete, hnone⟩ | hfailed | ⟨e, he, hending⟩ :=
      ih (by simp only [Signals.behind, hcancelled, Bool.true_or])
    · refine .inl ⟨hcomplete, ?_⟩
      intro r hread
      cases hrest : rest.getLast? with
      | none =>
        rw [hrest] at hread
        cases hread
      | some e =>
        rw [hrest] at hread
        exact hnone r (hrest.trans hread)
    · exact .inr (.inl hfailed)
    · exact .inr (.inr ⟨e, by rw [he]; rfl, hending⟩)

end Plan.Sweeps

/-! ### Tight plans -/

/-- A pointer fits between two aligned addresses, and the buffer ends at an aligned one. -/
structure Plan.IsTight (p : Plan) : Prop where
  width_le : p.width.size ≤ p.alignment
  dvd_buffer : p.alignment ∣ p.bufferSize

/-- The window starts and ends at aligned addresses, unless it ends with the region. -/
structure Cursor.Aligned (c : Cursor) (p : Plan) (a : Area) : Prop where
  offset_dvd : p.alignment ∣ a.start + c.offset
  reach_dvd : c.reach = a.size ∨ p.alignment ∣ a.start + c.reach

/-- A read that is due finds an aligned window empty. -/
theorem Cursor.Aligned.buffered_eq_zero (h : c.Aligned p a) (htight : p.IsTight)
    {request : Request} (hrequest : c.request? p a = some request) : c.buffered = 0 := by
  obtain ⟨hshort, hreach, -, -⟩ := Cursor.request_eq hrequest
  have hdvd : p.alignment ∣ a.start + c.reach := by
    obtain hend | hdvd := h.reach_dvd
    · omega
    · exact hdvd
  have hbuffered : p.alignment ∣ c.buffered := by
    have hsub := Nat.dvd_sub hdvd h.offset_dvd
    rwa [Nat.add_sub_add_left] at hsub
  exact Nat.eq_zero_of_dvd_of_lt hbuffered (hshort.trans_le htight.width_le)

theorem Cursor.aligned_startAt {offset : Nat} (h : p.alignment ∣ a.start + offset) :
    (Cursor.startAt offset).Aligned p a :=
  ⟨h, .inr h⟩

theorem Plan.IsTight.alignment_pos (h : p.IsTight) : 0 < p.alignment :=
  p.width.size_pos.trans_le h.width_le

/-- Windows stay aligned: a read fills the buffer behind an aligned address, or ends the region. -/
theorem Cursor.Aligned.move (h : c.Aligned p a) (htight : p.IsTight) (hc : c.Bounded p a)
    {next : Nat} (hmove : p.Moves read a c signals before filled next) :
    (filled.moveTo next).Aligned p a := by
  have hnext := (hmove.next_spec htight.alignment_pos).2
  have hfilled : filled.reach = a.size ∨ p.alignment ∣ a.start + filled.reach := by
    obtain ⟨-, -, rfl⟩ | ⟨request, bytes, hrequest, hbytes, -, rfl⟩ :=
      Cursor.prepare_cases hmove.prepare_eq
    · exact h.reach_dvd
    · have hempty := h.buffered_eq_zero htight hrequest
      have hle := hc.offset_le
      have hreach : c.reach = c.offset := by
        simp only [buffered] at hempty
        omega
      obtain ⟨-, hinside, -, hlength⟩ := Cursor.request_eq hrequest
      have hcount : bytes.length = request.length := (Reader.exactly_eq_ok_iff.1 hbytes).2
      show c.reach + bytes.length = a.size ∨ p.alignment ∣ a.start + (c.reach + bytes.length)
      rcases Nat.le_total (a.size - c.reach) p.bufferSize with hend | hfull
      · exact .inl (by omega)
      · refine .inr ?_
        have hbuffer : bytes.length = p.bufferSize := by omega
        rw [hbuffer, hreach, ← Nat.add_assoc]
        exact Nat.dvd_add h.offset_dvd htight.dvd_buffer
  refine ⟨hnext, ?_⟩
  show max filled.reach next = a.size ∨ p.alignment ∣ a.start + max filled.reach next
  rcases Nat.le_total filled.reach next with hle | hle
  · rw [Nat.max_eq_right hle]
    exact .inr hnext
  · rw [Nat.max_eq_left hle]
    exact hfilled

/-- A visit of a cancelled sweep that is prepared in an aligned window needs no read. -/
theorem Cursor.Aligned.prepare_eq_nil (h : c.Aligned p a) (htight : p.IsTight)
    (hcancelled : signals.cancelled = true)
    (hprepare : c.prepare p read a signals = (before, .ok filled)) : before = [] := by
  obtain ⟨-, hnone, -⟩ | ⟨request, bytes, hrequest, -, hclear, -, -⟩ :=
    Cursor.prepare_eq_ok hprepare
  · exact hnone
  · have hclear := (hclear (h.buffered_eq_zero htight hrequest)).1
    rw [hcancelled] at hclear
    cases hclear

/-- A cancelled sweep in aligned windows reads at most once more, and then it ends. -/
theorem Plan.Sweeps.refills_tight (h : p.Sweeps read a c signals events ending)
    (htight : p.IsTight) (hc : c.Bounded p a) (haligned : c.Aligned p a)
    (hcancelled : signals.cancelled = true) : readsOf events.dropLast = [] := by
  induction h with
  | past => rfl
  | unprepared _ hprepare =>
    obtain ⟨request, -, rfl, -⟩ := Cursor.prepare_eq_error hprepare
    rfl
  | last _ hprepare _ =>
    rw [haligned.prepare_eq_nil htight hcancelled hprepare]
    rfl
  | @move c filled signals before rest ending next hmove _ ih =>
    have hrest := ih (hmove.bounded hc) (haligned.move htight hc hmove)
      (by simp only [Signals.behind, hcancelled, Bool.true_or])
    rw [haligned.prepare_eq_nil htight hcancelled hmove.prepare_eq]
    cases rest with
    | nil => rfl
    | cons e rest => exact hrest

theorem Plan.Reaches.aligned (h : p.Reaches read a c signals c' signals') (htight : p.IsTight)
    (hc : c.Bounded p a) (haligned : c.Aligned p a) : c'.Aligned p a :=
  (h.invariant (P := fun c => c.Bounded p a ∧ c.Aligned p a)
    (fun hmove hboth => ⟨hmove.bounded hboth.1, hboth.2.move htight hboth.1 hmove⟩)
    ⟨hc, haligned⟩).2

/-! ### Behind the visit that cancels -/

/-- How a worker with these regions halts behind a visit that cancels the pass: in the region of the
visit, at the latest when it would read into an empty window or start the next region. -/
structure Plan.HaltsBehind (p : Plan) (read : Reader) (areas : List Area) (v : Visit)
    (after : List Event) (ending : Ending) : Prop where
  refills : Refills after
  tight : p.IsTight → readsOf after.dropLast = []
  exists_area : ∃ done a todo, areas = done ++ a :: todo ∧
    (∀ e ∈ Event.visit v :: after, e.Inside a) ∧
    ((ending = .complete ∧ todo = [] ∧ ∀ r, after.getLast? ≠ some (.read r)) ∨
      ending = .failed .cancelled ∨
      ∃ e, (Event.visit v :: after).getLast? = some e ∧ p.endingOf? read e = some ending)

variable {first after : List Event} {v : Visit} {areas : List Area}

theorem Plan.endingOf?_eq_some {e : Event} (h : p.endingOf? read e = some ending) :
    ending = .lost ∨ ∃ cause, ending = .failed cause := by
  cases e with
  | read r =>
    rw [endingOf?] at h
    split at h
    · rename_i cause _
      exact .inr ⟨cause, (Option.some.inj h).symm⟩
    · cases h
  | visit v =>
    simp only [endingOf?, endingAt?] at h
    split at h
    · rename_i cause _
      exact .inr ⟨cause, (Option.some.inj h).symm⟩
    · exact .inl (Option.some.inj h).symm
    · exact .inr ⟨.zeroAdvance, (Option.some.inj h).symm⟩
    · split at h
      · exact .inl (Option.some.inj h).symm
      · cases h

/-- The sweep of the region of the visit, whatever the worker is to sweep behind it. -/
theorem Plan.haltsBehind_sweep (h : (p.sweep read a signals).events = first ++ .visit v :: after)
    (hcancel : p.cancelsAt v = true) :
    p.HaltsBehind read [a] v after (p.sweep read a signals).ending := by
  have hsweeps := p.sweeps_sweep read a signals
  have hinside : ∀ e ∈ Event.visit v :: after, e.Inside a := by
    intro e he
    exact hsweeps.inside e (by rw [h]; exact List.mem_append_right _ he)
  obtain ⟨rfl, hending⟩ | ⟨c', signals', hreaches, hcancelled, hrest⟩ := hsweeps.exists_reaches h
  · exact ⟨.nil, fun _ => rfl, [], a, [], rfl, hinside, .inr (.inr ⟨.visit v, rfl, hending⟩)⟩
  · have hbounded := Cursor.bounded_startAt (p := p) (a := a) (alignUp a.start 0 p.alignment)
    refine ⟨hrest.refills (hcancelled hcancel), ?_, [], a, [], rfl, hinside, ?_⟩
    · intro htight
      have haligned := Cursor.aligned_startAt (dvd_alignUp a.start 0 htight.alignment_pos)
      exact hrest.refills_tight htight (hreaches.bounded hbounded)
        (hreaches.aligned htight hbounded haligned) (hcancelled hcancel)
    · obtain ⟨hcomplete, hlast⟩ | hfailed | ⟨e, he, hending⟩ :=
        hrest.ending_of_cancelled (hcancelled hcancel)
      · exact .inl ⟨hcomplete, rfl, hlast⟩
      · exact .inr (.inl hfailed)
      · refine .inr (.inr ⟨e, ?_, hending⟩)
        rw [List.getLast?_cons, he]
        rfl

/-- A cancelled worker does nothing in further regions. -/
theorem Plan.sweepAll_cancelled (p : Plan) (read : Reader) (h : signals.cancelled = true)
    (areas : List Area) :
    (p.sweepAll read signals areas).events = [] ∧
      (p.sweepAll read signals areas).ending =
        if areas = [] then .complete else .failed .cancelled := by
  cases areas with
  | nil => exact ⟨rfl, rfl⟩
  | cons a rest =>
    rw [sweepAll, if_pos h]
    exact ⟨rfl, rfl⟩

theorem Plan.cancelled_of_cancelsAt
    (h : (p.sweep read a signals).events = first ++ .visit v :: after)
    (hcancel : p.cancelsAt v = true) : (p.sweep read a signals).cancelled = true := by
  have hmem : v ∈ visitsOf (p.sweep read a signals).events := by
    rw [h, visitsOf_append]
    exact List.mem_append_right _ (List.mem_cons_self ..)
  have heq : (p.sweep read a signals).cancelled = (signals.cancelled ||
      (visitsOf (p.sweep read a signals).events).any p.cancelsAt) := by
    rw [sweep_eq]
    exact cancelled_sweepFrom_eq
  rw [heq, List.any_eq_true.2 ⟨v, hmem, hcancel⟩, Bool.or_true]

/-- A worker halts in the same way if the region is not its first. -/
theorem Plan.HaltsBehind.cons (h : p.HaltsBehind read areas v after ending) (a : Area) :
    p.HaltsBehind read (a :: areas) v after ending := by
  obtain ⟨hrefills, htight, done, b, todo, hareas, hrest⟩ := h
  exact ⟨hrefills, htight, a :: done, b, todo, by rw [hareas]; rfl, hrest⟩

/-- A region that is swept to the end is followed by no other. -/
theorem Plan.HaltsBehind.of_last (h : p.HaltsBehind read [a] v after ending)
    (hending : ending = .complete) (rest : List Area) :
    p.HaltsBehind read (a :: rest) v after
      (if rest = [] then .complete else .failed .cancelled) := by
  obtain ⟨hrefills, htight, done, b, todo, hareas, hinside, hends⟩ := h
  obtain ⟨rfl, rfl, rfl⟩ : done = [] ∧ a = b ∧ todo = [] := by
    cases done with
    | nil =>
      rw [List.nil_append, List.cons.injEq] at hareas
      exact ⟨rfl, hareas.1, hareas.2.symm⟩
    | cons x done => exact absurd (List.cons.inj hareas).2.symm (by simp)
  refine ⟨hrefills, htight, [], a, rest, rfl, hinside, ?_⟩
  obtain ⟨-, -, hlast⟩ | hfailed | ⟨e, -, hitself⟩ := hends
  · split
    · rename_i hrest
      exact .inl ⟨rfl, hrest, hlast⟩
    · exact .inr (.inl rfl)
  · rw [hending] at hfailed
    cases hfailed
  · rw [hending] at hitself
    obtain hlost | ⟨cause, hfailed⟩ := endingOf?_eq_some hitself
    · cases hlost
    · cases hfailed

theorem Plan.HaltsBehind.of_first (h : p.HaltsBehind read [a] v after ending)
    (hending : ending ≠ .complete) (rest : List Area) :
    p.HaltsBehind read (a :: rest) v after ending := by
  obtain ⟨hrefills, htight, done, b, todo, hareas, hinside, hends⟩ := h
  refine ⟨hrefills, htight, done, b, todo ++ rest, ?_, hinside, ?_⟩
  · rw [← List.cons_append, ← List.append_assoc, ← hareas]
    rfl
  · obtain ⟨hcomplete, -⟩ | hends := hends
    · exact absurd hcomplete hending
    · exact .inr hends

/-- **Behind a visit that cancels the pass, a worker halts in the region of the visit.** -/
theorem Plan.haltsBehind_sweepAll
    (h : (p.sweepAll read signals areas).events = first ++ .visit v :: after)
    (hcancel : p.cancelsAt v = true) :
    p.HaltsBehind read areas v after (p.sweepAll read signals areas).ending := by
  induction areas generalizing signals first with
  | nil => exact absurd h.symm (by simp [sweepAll])
  | cons a rest ih =>
    obtain ⟨-, heq⟩ | ⟨-, -, heq⟩ | ⟨-, ⟨hending, heq⟩ | ⟨hending, heq⟩⟩ :=
      p.sweepAll_cases read signals a rest
    · rw [heq] at h
      exact absurd h.symm (by simp)
    · rw [heq] at h
      exact absurd h.symm (by simp)
    · rw [heq] at h ⊢
      obtain ⟨after', hfirst, rfl⟩ | ⟨first', hbehind⟩ := append_eq_append_cons h
      · -- the visit is in the first region, so that nothing happens in the others
        have hcancelled : ({ cancelled := (p.sweep read a {}).cancelled } : Signals).cancelled =
            true := cancelled_of_cancelsAt hfirst hcancel
        obtain ⟨hevents, hends⟩ := p.sweepAll_cancelled read hcancelled rest
        show p.HaltsBehind read (a :: rest) v (after' ++ _) (p.sweepAll read _ rest).ending
        rw [hevents, hends, List.append_nil]
        exact (haltsBehind_sweep hfirst hcancel).of_last hending rest
      · exact (ih hbehind).cons a
    · rw [heq] at h ⊢
      refine (haltsBehind_sweep h hcancel).of_first ?_ rest
      obtain hlost | ⟨cause, hfailed⟩ := hending
      · simp [hlost]
      · simp [hfailed]

/-- A worker that visits anything was told nothing before. -/
theorem Plan.signals_of_mem_sweepAll {e : Event} (h : e ∈ (p.sweepAll read signals areas).events) :
    signals = {} := by
  cases areas with
  | nil => cases h
  | cons a rest =>
    obtain ⟨-, heq⟩ | ⟨-, -, heq⟩ | ⟨hclear, -⟩ := p.sweepAll_cases read signals a rest
    · rw [heq] at h
      cases h
    · rw [heq] at h
      cases h
    · exact hclear

end PointerChains
