import PointerChains.Proofs.Sweep.Breakdown

/-!
# The steps of a sweep

At each cursor a sweep does one of four things: it is past the region, it cannot prepare a visit,
its visit is the last, or it moves on.  What holds of its events and of its ending follows by
induction on these steps, and every cursor on the way is one that the sweep comes to.

* `Plan.endingAt?`, `Plan.cancelsAt` — how a visit ends the sweep, and whether it cancels the pass;
* `Plan.Moves` — one step from a cursor to the next;
* `Plan.Sweeps` — the events and the ending of a sweep, step by step;
* `Plan.Reaches` — the cursors that a sweep comes to, each with the signals seen there;
* `Plan.Sweeps.exists_reaches` — the events behind a visit are those of the sweep from a reached
  cursor on.
-/

namespace PointerChains

variable {p : Plan} {read : Reader} {a : Area} {c c' filled : Cursor} {signals signals' : Signals}
  {before events : List Event} {ending : Ending} {next : Nat}

/-! ### Visits -/

/-- How the visit ends the sweep, if it does. -/
def Plan.endingAt? (p : Plan) (v : Visit) : Option Ending :=
  match p.visitor v with
  | .fail cause => some (.failed cause)
  | .crash => some .lost
  | .advance 0 _ => some (.failed .zeroAdvance)
  | .advance (_ + 1) _ => if p.breaksAt v then some .lost else none

theorem Plan.endingAt?_of_advance {v : Visit} {count : Nat} {cancel : Bool}
    (h : p.visitor v = .advance (count + 1) cancel) :
    p.endingAt? v = if p.breaksAt v then some .lost else none := by
  rw [endingAt?, h]

/-- Whether the pass is cancelled at the visit. -/
def Plan.cancelsAt (p : Plan) (v : Visit) : Bool :=
  match p.visitor v with
  | .advance _ cancel => cancel
  | _ => false

/-- The signals behind the visit. -/
def Signals.behind (signals : Signals) (p : Plan) (v : Visit) : Signals :=
  { signals with cancelled := signals.cancelled || p.cancelsAt v }

/-! ### Steps -/

/-- One step of a sweep: a visit is prepared, and answered with an advance to a next offset. -/
structure Plan.Moves (p : Plan) (read : Reader) (a : Area) (c : Cursor) (signals : Signals)
    (before : List Event) (filled : Cursor) (next : Nat) : Prop where
  offset_lt : c.offset < a.size
  prepare_eq : c.prepare p read a signals = (before, .ok filled)
  exists_reply : ∃ count cancel, p.visitor (filled.visit a) = .advance (count + 1) cancel ∧
    p.next? a c.offset (count + 1) = some next

namespace Plan.Moves

theorem offset_eq (h : p.Moves read a c signals before filled next) : filled.offset = c.offset :=
  Cursor.offset_of_prepare h.prepare_eq

theorem offset_lt_next (h : p.Moves read a c signals before filled next) : c.offset < next := by
  obtain ⟨count, cancel, -, hnext⟩ := h.exists_reply
  exact lt_of_next? hnext h.offset_lt

/-- The next offset is an aligned one that fits into a word. -/
theorem next_spec (h : p.Moves read a c signals before filled next) (halign : 0 < p.alignment) :
    next < 2 ^ 64 ∧ p.alignment ∣ a.start + next := by
  obtain ⟨count, cancel, -, hnext⟩ := h.exists_reply
  rw [next?] at hnext
  split at hnext
  · rename_i hlt
    cases hnext
    exact ⟨hlt, dvd_alignUp _ _ halign⟩
  · cases hnext

theorem bounded (h : p.Moves read a c signals before filled next) (hc : c.Bounded p a) :
    (filled.moveTo next).Bounded p a := by
  have hfilled := (hc.prepare h.offset_lt h.prepare_eq).1
  exact hfilled.moveTo (h.offset_eq.trans_le (Nat.le_of_lt h.offset_lt_next))

end Plan.Moves

/-! ### Sweeps -/

/-- The events and the ending of a sweep from a cursor on. -/
inductive Plan.Sweeps (p : Plan) (read : Reader) (a : Area) :
    Cursor → Signals → List Event → Ending → Prop where
  | past {c : Cursor} {signals : Signals} :
      a.size ≤ c.offset → Plan.Sweeps p read a c signals [] .complete
  | unprepared {c : Cursor} {signals : Signals} {events : List Event} {ending : Ending} :
      c.offset < a.size → c.prepare p read a signals = (events, .error ending) →
      Plan.Sweeps p read a c signals events ending
  | last {c filled : Cursor} {signals : Signals} {before : List Event} {ending : Ending} :
      c.offset < a.size → c.prepare p read a signals = (before, .ok filled) →
      p.endingAt? (filled.visit a) = some ending →
      Plan.Sweeps p read a c signals (before ++ [.visit (filled.visit a)]) ending
  | move {c filled : Cursor} {signals : Signals} {before rest : List Event} {ending : Ending}
      {next : Nat} :
      p.Moves read a c signals before filled next →
      Plan.Sweeps p read a (filled.moveTo next) (signals.behind p (filled.visit a)) rest ending →
      Plan.Sweeps p read a c signals (before ++ [.visit (filled.visit a)] ++ rest) ending

theorem Plan.sweeps_sweepFrom :
    p.Sweeps read a c signals (p.sweepFrom read a c signals).events
      (p.sweepFrom read a c signals).ending := by
  fun_induction Plan.sweepFrom p read a c signals with
  | case1 c signals hlt events ending hprepare => exact .unprepared hlt hprepare
  | case2 c signals hlt before filled hprepare visit events cause hreply =>
    exact .last hlt hprepare (by simp only [endingAt?, visit, hreply])
  | case3 c signals hlt before filled hprepare visit events hreply =>
    exact .last hlt hprepare (by simp only [endingAt?, visit, hreply])
  | case4 c signals hlt before filled hprepare visit events cancel hreply =>
    exact .last hlt hprepare (by simp only [endingAt?, visit, hreply])
  | case5 c signals hlt before filled hprepare visit events count cancel hreply signals' hnext =>
    have hoffset := Cursor.offset_of_prepare hprepare
    rw [← hoffset] at hlt hnext
    have hbreaks : p.breaksAt visit = true := (breaksAt_of_advance hlt hreply).2 hnext
    rw [hoffset] at hlt
    exact .last hlt hprepare ((endingAt?_of_advance hreply).trans (if_pos hbreaks))
  | case6 c signals hlt before filled hprepare visit events count cancel hreply signals' next
      hnext ih =>
    have hsignals : signals' = signals.behind p visit := by
      simp only [signals', Signals.behind, cancelsAt, visit, hreply]
    refine .move ⟨hlt, hprepare, count, cancel, hreply, hnext⟩ ?_
    rw [← hsignals]
    exact ih
  | case7 c signals hge => exact .past (Nat.le_of_not_lt hge)

/-- The sweep of a region goes through these steps from its first aligned offset on. -/
theorem Plan.sweeps_sweep (p : Plan) (read : Reader) (a : Area) (signals : Signals) :
    p.Sweeps read a (.startAt (alignUp a.start 0 p.alignment)) signals
      (p.sweep read a signals).events (p.sweep read a signals).ending := by
  rw [sweep_eq]
  exact sweeps_sweepFrom

/-- The visits of a sweep lie in its region, from the cursor on. -/
theorem Plan.Sweeps.mem_region (h : p.Sweeps read a c signals events ending) :
    ∀ v ∈ visitsOf events, c.offset ≤ v.offset ∧ v.offset < a.size ∧
      v.address = a.address v.offset ∧ v.region = a.region := by
  induction h with
  | past =>
    intro v hv
    cases hv
  | unprepared _ hprepare =>
    intro v hv
    rw [Cursor.visitsOf_unprepared hprepare] at hv
    cases hv
  | last hlt hprepare _ =>
    have hoffset := Cursor.offset_of_prepare hprepare
    intro v hv
    rw [Cursor.visitsOf_prepared hprepare, List.mem_singleton] at hv
    subst hv
    exact ⟨hoffset.ge, hoffset.trans_lt hlt, rfl, rfl⟩
  | move hmove _ ih =>
    intro v hv
    rw [visitsOf_append, Cursor.visitsOf_prepared hmove.prepare_eq] at hv
    rcases List.mem_cons.1 hv with rfl | hv
    · exact ⟨hmove.offset_eq.ge, hmove.offset_eq.trans_lt hmove.offset_lt, rfl, rfl⟩
    · obtain ⟨hle, hinside⟩ := ih v hv
      exact ⟨Nat.le_trans (Nat.le_of_lt hmove.offset_lt_next) hle, hinside⟩

/-- A sweep leaves the pass cancelled if it was, or if one of its visits cancelled it. -/
theorem Plan.cancelled_sweepFrom_eq :
    (p.sweepFrom read a c signals).cancelled =
      (signals.cancelled || (visitsOf (p.sweepFrom read a c signals).events).any p.cancelsAt) := by
  fun_induction Plan.sweepFrom p read a c signals with
  | case1 c signals hlt events ending hprepare => simp [Cursor.visitsOf_unprepared hprepare]
  | case2 c signals hlt before filled hprepare visit events _ hreply
  | case3 c signals hlt before filled hprepare visit events hreply
  | case4 c signals hlt before filled hprepare visit events _ hreply =>
    simp [events, Cursor.visitsOf_prepared hprepare, cancelsAt, hreply]
  | case5 c signals hlt before filled hprepare visit events count cancel hreply signals' _ =>
    simp [events, signals', Cursor.visitsOf_prepared hprepare, cancelsAt, hreply]
  | case6 c signals hlt before filled hprepare visit events count cancel hreply signals' next
      hnext ih =>
    show (p.sweepFrom read a (filled.moveTo next) signals').cancelled =
      (signals.cancelled || (visitsOf (events ++ _)).any p.cancelsAt)
    rw [ih, visitsOf_append, Cursor.visitsOf_prepared hprepare]
    simp [signals', cancelsAt, hreply, Bool.or_assoc]
  | case7 => simp [visitsOf]

/-! ### Reached cursors -/

/-- The cursors that a sweep comes to from one on, each with the signals seen there. -/
inductive Plan.Reaches (p : Plan) (read : Reader) (a : Area) :
    Cursor → Signals → Cursor → Signals → Prop where
  | here (c : Cursor) (signals : Signals) : Plan.Reaches p read a c signals c signals
  | move {c filled c' : Cursor} {signals signals' : Signals} {before : List Event} {next : Nat} :
      p.Moves read a c signals before filled next →
      Plan.Reaches p read a (filled.moveTo next) (signals.behind p (filled.visit a)) c' signals' →
      Plan.Reaches p read a c signals c' signals'

/-- What every step keeps holds at every cursor that a sweep comes to. -/
theorem Plan.Reaches.invariant {P : Cursor → Prop} (h : p.Reaches read a c signals c' signals')
    (hstep : ∀ {c filled : Cursor} {signals : Signals} {before : List Event} {next : Nat},
      p.Moves read a c signals before filled next → P c → P (filled.moveTo next))
    (hc : P c) : P c' := by
  induction h with
  | here => exact hc
  | move hmove _ ih => exact ih (hstep hmove hc)

theorem Plan.Reaches.bounded (h : p.Reaches read a c signals c' signals') (hc : c.Bounded p a) :
    c'.Bounded p a :=
  h.invariant (fun hmove => hmove.bounded) hc

/-- An element of two lists together is in the first or in the second. -/
theorem append_eq_append_cons {α : Type} {l m before after : List α} {x : α}
    (h : l ++ m = before ++ x :: after) :
    (∃ after', l = before ++ x :: after' ∧ after = after' ++ m) ∨
      ∃ before', m = before' ++ x :: after := by
  obtain ⟨before', -, hm⟩ | ⟨tail, hl, htail⟩ := List.append_eq_append_iff.1 h
  · exact .inr ⟨before', hm⟩
  · cases tail with
    | nil => exact .inr ⟨[], htail.symm⟩
    | cons y tail =>
      rw [List.cons_append, List.cons.injEq] at htail
      obtain ⟨rfl, hafter⟩ := htail
      exact .inl ⟨tail, hl, hafter⟩

/-- A visit behind one that was prepared is that one, or among the events that follow. -/
theorem visit_split {before rest first after : List Event} {v w : Visit}
    (hbefore : visitsOf (before ++ [.visit w]) = [w])
    (h : before ++ [.visit w] ++ rest = first ++ .visit v :: after) :
    (w = v ∧ rest = after) ∨ ∃ first', rest = first' ++ .visit v :: after := by
  have hnone : visitsOf before = [] := by
    rw [visitsOf_append] at hbefore
    exact List.append_left_eq_self.1 hbefore
  rw [List.append_assoc] at h
  obtain ⟨after', rfl, -⟩ | ⟨first', hbehind⟩ := append_eq_append_cons h
  · rw [visitsOf_append] at hnone
    exact absurd (List.append_eq_nil_iff.1 hnone).2 (List.cons_ne_nil _ _)
  · cases first' with
    | nil =>
      rw [List.singleton_append, List.nil_append, List.cons.injEq, Event.visit.injEq] at hbehind
      exact .inl hbehind
    | cons e first' => exact .inr ⟨first', (List.cons.inj hbehind).2⟩

/-- **What happens behind a visit is the sweep from a reached cursor on**, where the signals tell of
the visit, unless the sweep ended with the visit. -/
theorem Plan.Sweeps.exists_reaches {first after : List Event} {v : Visit}
    (h : p.Sweeps read a c signals events ending) (hsplit : events = first ++ .visit v :: after) :
    (after = [] ∧ p.endingAt? v = some ending) ∨
      ∃ c' signals', p.Reaches read a c signals c' signals' ∧
        (p.cancelsAt v = true → signals'.cancelled = true) ∧
        p.Sweeps read a c' signals' after ending := by
  induction h generalizing first with
  | past => exact absurd hsplit.symm (by simp)
  | unprepared _ hprepare =>
    have hnone := Cursor.visitsOf_unprepared hprepare
    rw [hsplit, visitsOf_append] at hnone
    exact absurd (List.append_eq_nil_iff.1 hnone).2 (List.cons_ne_nil _ _)
  | last _ hprepare hending =>
    rw [← List.append_nil (_ ++ _)] at hsplit
    obtain ⟨rfl, rfl⟩ | ⟨first', hnil⟩ := visit_split (Cursor.visitsOf_prepared hprepare _) hsplit
    · exact .inl ⟨rfl, hending⟩
    · exact absurd hnil.symm (by simp)
  | move hmove hrest ih =>
    obtain ⟨rfl, rfl⟩ | ⟨first', hrest'⟩ :=
      visit_split (Cursor.visitsOf_prepared hmove.prepare_eq _) hsplit
    · refine .inr ⟨_, _, .move hmove (.here _ _), ?_, hrest⟩
      intro hcancel
      simp only [Signals.behind, hcancel, Bool.or_true]
    · obtain hend | ⟨c', signals', hreaches, hcancel, hsweeps⟩ := ih hrest'
      · exact .inl hend
      · exact .inr ⟨c', signals', .move hmove hreaches, hcancel, hsweeps⟩

end PointerChains
