import PointerChains.Proofs.Sweep.Share
import PointerChains.Proofs.Sweep.Steps

/-!
# Sweeps with agreeing readers

A sweep reads only inside its region.  Readers that answer alike there make the same sweep, so it
does not matter which session serves a region.  A visitor that never cancels leaves the pass as it
is, so that a share of regions whose sweeps are complete is swept to its end.

* `Reader.Agrees` — the readers answer alike inside a range;
* `Plan.sweep_congr` — the sweep of a region depends on the answers inside it only;
* `Plan.run_of_completes` — a share of regions that can be swept is swept.
-/

namespace PointerChains

/-- The readers answer alike inside the range. -/
def Reader.Agrees (read answer : Reader) (r : AddressRange) : Prop :=
  ∀ (a : Address) (length : Nat), 0 < length → r.start.toNat ≤ a.toNat →
    a.toNat + length ≤ r.stop.toNat → read a length = answer a length

variable {p : Plan} {read answer : Reader} {a : Area} {c : Cursor} {signals : Signals}
  {areas : List Area} {image : Image}

theorem Reader.Agrees.exactly_eq {r : AddressRange} (h : read.Agrees answer r) {x : Address}
    {length : Nat} (hpos : 0 < length) (hstart : r.start.toNat ≤ x.toNat)
    (hstop : x.toNat + length ≤ r.stop.toNat) :
    read.exactly x length = answer.exactly x length := by
  rw [Reader.exactly, Reader.exactly, h x length hpos hstart hstop]

theorem Reader.Tells.congr {r : AddressRange} (h : answer.Tells image r)
    (hagrees : read.Agrees answer r) : read.Tells image r := by
  intro x length bytes hpos hstart hstop hbytes
  rw [hagrees.exactly_eq hpos hstart hstop] at hbytes
  exact h x length bytes hpos hstart hstop hbytes

/-! ### One region -/

/-- A due read is one inside the region. -/
theorem Cursor.prepare_congr (h : read.Agrees answer a.range)
    (hfit : 2 * p.width.size ≤ p.bufferSize) :
    c.prepare p read a signals = c.prepare p answer a signals := by
  cases hrequest : c.request? p a with
  | none => simp [Cursor.prepare, hrequest]
  | some request =>
    obtain ⟨-, hpos, hstart, hstop⟩ := Cursor.request_inside hfit hrequest
    simp [Cursor.prepare, hrequest, h.exactly_eq hpos hstart hstop]

/-- What is swept besides the region does not matter, either. -/
theorem Plan.sweepFrom_congr (h : read.Agrees answer a.range)
    (hfit : 2 * p.width.size ≤ p.bufferSize) (others : List Area) :
    ({ p with areas := others } : Plan).sweepFrom read a c signals =
      p.sweepFrom answer a c signals := by
  have hprepare : ∀ (c : Cursor) (signals : Signals),
      c.prepare { p with areas := others } read a signals = c.prepare p answer a signals :=
    fun c signals => Cursor.prepare_congr h hfit
  fun_induction Plan.sweepFrom p answer a c signals with
  | case1 c signals hlt events ending hanswer =>
    rw [Plan.sweepFrom, dif_pos hlt, hprepare, hanswer]
  | case2 c signals hlt before filled hanswer visit events _ hreply
  | case3 c signals hlt before filled hanswer visit events hreply
  | case4 c signals hlt before filled hanswer visit events _ hreply =>
    rw [Plan.sweepFrom, dif_pos hlt, hprepare, hanswer]
    simp only [visit] at hreply
    simp [hreply, events, visit]
  | case5 c signals hlt before filled hanswer visit events count cancel hreply signals' hnext =>
    have hnext' : ({ p with areas := others } : Plan).next? a c.offset (count + 1) = none := hnext
    rw [Plan.sweepFrom, dif_pos hlt, hprepare, hanswer]
    simp only [visit] at hreply
    simp only [hreply]
    split
    · rfl
    · simp_all
  | case6 c signals hlt before filled hanswer visit events count cancel hreply signals' next
      hnext ih =>
    have hnext' : ({ p with areas := others } : Plan).next? a c.offset (count + 1) = some next :=
      hnext
    rw [Plan.sweepFrom, dif_pos hlt, hprepare, hanswer]
    simp only [visit] at hreply
    simp only [hreply]
    split
    · simp_all
    · rename_i next' hnext''
      rw [hnext'] at hnext''
      cases hnext''
      rw [ih]
  | case7 c signals hge => rw [Plan.sweepFrom, dif_neg hge]

theorem Plan.sweep_congr (h : read.Agrees answer a.range)
    (hfit : 2 * p.width.size ≤ p.bufferSize) (others : List Area) :
    ({ p with areas := others } : Plan).sweep read a signals = p.sweep answer a signals := by
  rw [Plan.sweep_eq, Plan.sweep_eq]
  exact Plan.sweepFrom_congr h hfit others

/-! ### Visitors that do not cancel -/

/-- The visitor never cancels the pass. -/
def Plan.IsQuiet (p : Plan) : Prop :=
  ∀ v count cancel, p.visitor v = .advance count cancel → cancel = false

theorem Plan.IsQuiet.cancelsAt (hquiet : p.IsQuiet) (v : Visit) : p.cancelsAt v = false := by
  rw [Plan.cancelsAt]
  split
  · rename_i hreply
    exact hquiet _ _ _ hreply
  · rfl

theorem Plan.cancelled_sweep (hquiet : p.IsQuiet) :
    (p.sweep read a signals).cancelled = signals.cancelled := by
  simp [sweep_eq, cancelled_sweepFrom_eq, hquiet.cancelsAt]

/-- A share of regions whose sweeps are complete is swept to its end. -/
theorem Plan.sweepAll_of_completes (hquiet : p.IsQuiet) (h : p.Completes read areas) :
    (p.sweepAll read {} areas).ending = .complete ∧
      (p.sweepAll read {} areas).cancelled = false := by
  induction areas with
  | nil => simp [Plan.sweepAll]
  | cons a rest ih =>
    obtain ⟨hfirst, hrest⟩ := List.forall_mem_cons.1 h
    have hcancelled : (p.sweep read a {}).cancelled = false := Plan.cancelled_sweep hquiet
    simpa [Plan.sweepAll, hfirst, hcancelled, Sweep.behind] using ih hrest

theorem Plan.run_of_completes (hfits : p.bufferSize ≤ largestBuffer) (hquiet : p.IsQuiet)
    (h : p.Completes read p.areas) :
    (∃ stats, (p.run read {}).report? = some (.ok stats)) ∧ (p.run read {}).cancelled = false := by
  rw [Plan.run_of_fits hfits]
  obtain ⟨hending, hcancelled⟩ := Plan.sweepAll_of_completes hquiet h
  exact ⟨⟨_, Sweep.report?_eq_ok_iff.2 ⟨.inl hending, rfl⟩⟩, hcancelled⟩

end PointerChains
