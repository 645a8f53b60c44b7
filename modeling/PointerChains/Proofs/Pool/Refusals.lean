import PointerChains.Pool.Basic
import PointerChains.Proofs.Causes

/-!
# Why set-ups are refused

The checks of a set-up, the sharing out of regions and the plans fail for settings, for the lack of
sessions, or for regions that the map does not have.

* `Error.IsOfSetup` — the causes;
* `Pool.failsOnly_checkSetup`, `Pool.failsOnly_update`, `Pool.failsOnly_plansFor` — the parts of a
  set-up before it starts workers fail for no others.
-/

namespace PointerChains

/-- The cause lies in the settings of a set-up, in the sessions or in the selected regions. -/
inductive Error.IsOfSetup : Error → Prop where
  | missingOption (setting : Setting) : IsOfSetup (.missingOption setting)
  | invalidOption (refusal : Refusal) : IsOfSetup (.invalidOption refusal)
  | emptyAreaSet : IsOfSetup .emptyAreaSet
  | noSessions : IsOfSetup .noSessions
  | unknownRegion (region : RegionId) : IsOfSetup (.unknownRegion region)

theorem Options.failsOnly_require {α : Type} (setting : Setting) (value : Option α) :
    FailsOnly Error.IsOfSetup (require setting value) := by
  cases value with
  | none => exact failsOnly_error (.missingOption setting)
  | some a => exact failsOnly_ok

namespace Pool

theorem failsOnly_checkSetup (o : Options) (areas : AreaSet) (alignment : Nat) :
    FailsOnly Error.IsOfSetup (checkSetup o areas alignment) := by
  rw [checkSetup]
  cases isPowerOfTwo alignment with
  | false => exact failsOnly_error (.invalidOption _)
  | true =>
    show FailsOnly _ (o.getMap >>= _)
    refine (Options.failsOnly_require .map o.map).bind fun m _ => ?_
    cases o.width.fitsTwice o.bufferSize with
    | false => exact failsOnly_error (.invalidOption _)
    | true =>
      cases areas.isEmpty with
      | true => exact failsOnly_error .emptyAreaSet
      | false => exact failsOnly_ok

theorem failsOnly_sizedRegions (m : MemoryMap) (ids : List RegionId) :
    FailsOnly Error.IsOfSetup (sizedRegions m ids) := by
  induction ids with
  | nil => exact failsOnly_ok
  | cons id ids ih =>
    rw [sizedRegions]
    cases m.region? id with
    | none => exact failsOnly_error (.unknownRegion id)
    | some region => exact ih.bind fun rest _ => failsOnly_ok

theorem failsOnly_areasOf (m : MemoryMap) (ids : List RegionId) :
    FailsOnly Error.IsOfSetup (areasOf m ids) := by
  induction ids with
  | nil => exact failsOnly_ok
  | cons id ids ih =>
    rw [areasOf]
    cases m.region? id with
    | none => exact failsOnly_error (.unknownRegion id)
    | some region => exact ih.bind fun rest _ => failsOnly_ok

theorem failsOnly_update (p : Partition) (m : MemoryMap) (regions : List RegionId)
    (stamp workers : Nat) (force : Bool) :
    FailsOnly Error.IsOfSetup (p.update m regions stamp workers force) := by
  rw [Partition.update]
  split
  · exact failsOnly_ok
  refine FailsOnly.bind ?_ fun shares _ => failsOnly_ok
  rw [PointerChains.partition]
  split
  · exact failsOnly_error .noSessions
  · exact (failsOnly_sizedRegions m regions).bind fun sized _ => failsOnly_ok

theorem failsOnly_plansFor (o : Options) (m : MemoryMap) (visitor : Visitor) (alignment : Nat)
    (shares : List (List RegionId)) :
    FailsOnly Error.IsOfSetup (plansFor o m visitor alignment shares) := by
  induction shares with
  | nil => exact failsOnly_ok
  | cons share shares ih =>
    rw [plansFor]
    exact (failsOnly_areasOf m share).bind fun areas _ => ih.bind fun rest _ => failsOnly_ok

end Pool

end PointerChains
