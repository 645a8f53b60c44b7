import Mathlib
import PointerChains.Proofs.Pool.Coverage

/-!
# Histories of a pool

A pool keeps its partition and its plans from one operation to the next: a partition outlives the
set-ups that it fits, and plans outlive a set-up that is refused.  Over a whole history neither is
ever used for anything but the last job that was accepted.

* `Pool.History` — the pools that operations lead to, with the last accepted job;
* `Pool.Sound` — the partition fits the selections, and a running pool has the plans of that job;
* `Pool.History.sound` — every operation keeps it so;
* `Pool.History.pass_exhaustive` — **a pass that ends with totals has swept the regions of the last
  job, each once, and visited their aligned addresses, each once.**
-/

namespace PointerChains

variable {ρ : Type} {given : Selections}

namespace Pool

/-- The pools that can be reached by operations in any order, with the job that was accepted last.
Selections under one stamp have the same regions; everything else is up to the caller. -/
inductive History (given : Selections) : Pool ρ → Option Job → Prop where
  | new {pool : Pool ρ} (sessions : List ρ) : Pool.make sessions = .ok pool →
      History given pool none
  | accepted {pool after : Pool ρ} {last : Option Job} {job : Job} {flags : SetupFlags}
      {faults : StartFaults} :
      History given pool last → job.Admissible given →
      pool.setup job.options job.areas job.visitor job.alignment flags faults = (.ok (), after) →
      History given after (some job)
  | refused {pool after : Pool ρ} {last : Option Job} {o : Options} {areas : AreaSet}
      {visitor : Visitor} {alignment : Nat} {flags : SetupFlags} {faults : StartFaults}
      {cause : Error} :
      History given pool last → areas.IsFrom given →
      pool.setup o areas visitor alignment flags faults = (.error cause, after) →
      History given after last
  | pass {pool : Pool ρ} {last : Option Job} (read : ρ → Reader) :
      History given pool last → History given (pool.runPass read).2 last
  | shutdown {pool : Pool ρ} {last : Option Job} :
      History given pool last → History given pool.shutdown last
  | signal {pool : Pool ρ} {last : Option Job} (token : Token) :
      History given pool last → History given { pool with cancel := token } last

/-- The kept partition shares out the selection of its stamp.  A running pool has the plans for the
last job. -/
structure Sound (pool : Pool ρ) (given : Selections) (last : Option Job) : Prop where
  fits : pool.partition.FitsStamps given
  runs : pool.running = true → ∃ job m shares,
    last = some job ∧ job.Admissible given ∧ pool.RunsFor job m shares

namespace Sound

variable {pool after : Pool ρ} {last : Option Job}

theorem of_make {sessions : List ρ} (h : Pool.make sessions = .ok pool) :
    pool.Sound given none := by
  rw [make] at h
  split at h
  · cases h
  · cases h
    refine ⟨Partition.fitsStamps_default given, ?_⟩
    intro hrunning
    cases hrunning

/-- A pool stays sound as long as its partition is sound, and its workers are stopped or left as
they are. -/
theorem of_kept (h : pool.Sound given last) (hfits : after.partition.FitsStamps given)
    (hkept : after.running = true →
      pool.running = true ∧ after.sessions = pool.sessions ∧ after.plans = pool.plans) :
    after.Sound given last := by
  refine ⟨hfits, ?_⟩
  intro hrunning
  obtain ⟨hbefore, hsessions, hsame⟩ := hkept hrunning
  obtain ⟨job, m, shares, hlast, hjob, hruns⟩ := h.runs hbefore
  refine ⟨job, m, shares, hlast, hjob, ?_⟩
  exact { hruns with
    length_eq := hruns.length_eq.trans (congrArg List.length hsessions.symm)
    plans_eq := hsame.trans hruns.plans_eq }

theorem of_stopped (hfits : after.partition.FitsStamps given) (hstopped : after.running = false) :
    after.Sound given last := by
  refine ⟨hfits, ?_⟩
  intro hrunning
  rw [hstopped] at hrunning
  cases hrunning

theorem accepted {job : Job} {flags : SetupFlags} {faults : StartFaults}
    (h : pool.Sound given last) (hjob : job.Admissible given)
    (hsetup : pool.setup job.options job.areas job.visitor job.alignment flags faults =
      (.ok (), after)) :
    after.Sound given (some job) := by
  obtain ⟨hfits, -, -, m, hruns⟩ := RunsFor.of_setup h.fits hjob hsetup
  exact ⟨hfits, fun _ => ⟨job, m, _, rfl, hjob, hruns⟩⟩

theorem refused {o : Options} {areas : AreaSet} {visitor : Visitor} {alignment : Nat}
    {flags : SetupFlags} {faults : StartFaults} {cause : Error} (h : pool.Sound given last)
    (hareas : areas.IsFrom given)
    (hsetup : pool.setup o areas visitor alignment flags faults = (.error cause, after)) :
    after.Sound given last := by
  obtain ⟨hfits, hkept⟩ := setup_refused h.fits hareas hsetup
  exact h.of_kept hfits hkept

theorem pass (h : pool.Sound given last) (read : ρ → Reader) :
    (pool.runPass read).2.Sound given last := by
  obtain ⟨-, heq⟩ | ⟨stats, cancel, -, -, -, heq⟩ | ⟨cause, -, hpartition, hstopped, -⟩ :=
    pool.runPass_cases read
  · rw [heq]
    exact h
  · rw [heq]
    exact h.of_kept h.fits fun hrunning => ⟨hrunning, rfl, rfl⟩
  · refine of_stopped ?_ hstopped
    rw [hpartition]
    exact h.fits

theorem shutdown (h : pool.Sound given last) : pool.shutdown.Sound given last := by
  refine of_stopped ?_ (running_shutdown pool)
  rw [partition_shutdown]
  exact h.fits

theorem signal (h : pool.Sound given last) (token : Token) :
    ({ pool with cancel := token } : Pool ρ).Sound given last :=
  h.of_kept h.fits fun hrunning => ⟨hrunning, rfl, rfl⟩

end Sound

namespace History

variable {pool : Pool ρ} {last : Option Job} {read : ρ → Reader} {stats : Stats}

theorem sound (h : History given pool last) : pool.Sound given last := by
  induction h with
  | new sessions hmake => exact .of_make hmake
  | accepted _ hjob hsetup ih => exact ih.accepted hjob hsetup
  | refused _ hareas hsetup ih => exact ih.refused hareas hsetup
  | pass read _ ih => exact ih.pass read
  | shutdown _ ih => exact ih.shutdown
  | signal token _ ih => exact ih.signal token

/-- A pass that ends with totals is one of a running pool, and covers its job. -/
theorem covers (h : History given pool last) (hok : (pool.runPass read).1.result = .ok stats) :
    ∃ job m shares, last = some job ∧ job.Admissible given ∧ pool.RunsFor job m shares ∧
      (pool.runPass read).1.Covers read pool.sessions job m shares := by
  have hrunning : pool.running = true := by
    obtain ⟨-, heq⟩ | ⟨stats, cancel, hrunning, -, -, -⟩ | ⟨cause, herror, -, -⟩ :=
      pool.runPass_cases read
    · rw [heq] at hok
      cases hok
    · exact hrunning
    · rw [hok] at herror
      cases herror
  obtain ⟨job, m, shares, hlast, hjob, hruns⟩ := h.sound.runs hrunning
  exact ⟨job, m, shares, hlast, hjob, hruns, hruns.covers hjob hok⟩

/-- **A pass that ends with totals has swept the regions of the last accepted job, each by one
worker and once, and nothing else.**  Its bytes are those of the regions.  If the visitor always
advances by the alignment, the visited addresses are the aligned ones of the regions, each once, and
the totals count them. -/
theorem pass_exhaustive (h : History given pool last)
    (hok : (pool.runPass read).1.result = .ok stats) :
    ∃ job m shares, last = some job ∧ job.options.map = some m ∧
      (pool.runPass read).1.Covers read pool.sessions job m shares ∧
      stats.bytes = ((m.areas job.areas.regions).map Area.size).sum ∧
      (job.StepsByAlignment →
        ((visitsOf (pool.runPass read).1.logs.flatten).map Visit.address).Nodup ∧
        (∀ x, (∃ v ∈ visitsOf (pool.runPass read).1.logs.flatten, v.address = x) ↔
          x ∈ job.addresses m) ∧
        stats.addresses = (job.addresses m).ncard) := by
  obtain ⟨job, m, shares, hlast, hjob, hruns, hcovers⟩ := h.covers hok
  have hm := hjob.built m hruns.map_eq
  have hpos : 0 < job.alignment := pos_of_isPowerOfTwo hruns.aligned
  have hstats := hok.symm.trans hcovers.result_eq
  rw [Except.ok.injEq] at hstats
  refine ⟨job, m, shares, hlast, hruns.map_eq, hcovers, congrArg Stats.bytes hstats, ?_⟩
  intro hstep
  refine ⟨hcovers.nodup_addresses hm, hcovers.exists_address_iff hpos hstep, ?_⟩
  rw [hstats]
  exact hcovers.length_visits hm hpos hstep

end History

end Pool

/-! ### Two regions and two workers -/

/-- Two regions, the lower one of which an object owns. -/
def MemoryMap.twoRegions : MemoryMap where
  regions := #[⟨⟨0⟩, ⟨.ofNat 0x1000, .ofNat 0x1020⟩, .none, some ⟨0⟩⟩,
    ⟨⟨1⟩, ⟨.ofNat 0x2000, .ofNat 0x2010⟩, .none, none⟩]
  objects := #[⟨⟨0⟩, "/bin/one", [⟨0⟩], .ofNat 0x1000⟩]

theorem MemoryMap.built_twoRegions : MemoryMap.twoRegions.Built :=
  ⟨[⟨⟨.ofNat 0x1000, .ofNat 0x1020⟩, .none, "/bin/one"⟩,
    ⟨⟨.ofNat 0x2000, .ofNat 0x2010⟩, .none, ""⟩], by cbv⟩

/-- Windows of two pointers on the two regions. -/
def Options.twoRegions : Options := { map := some .twoRegions, bufferSize := 16 }

/-- One selection, of both regions. -/
def Selections.twoRegions : Selections where
  regions stamp := if stamp = 1 then [⟨0⟩, ⟨1⟩] else []
  made stamp := by
    by_cases h : stamp = 1
    · rw [if_pos h]
      exact .inr ⟨.twoRegions, .twoRegions, MemoryMap.built_twoRegions, by decide +kernel⟩
    · rw [if_neg h]
      exact .inl rfl

/-- A sweep of both regions in steps of a pointer. -/
def Job.twoRegions : Job :=
  { options := .twoRegions, areas := ⟨[⟨0⟩, ⟨1⟩], 1⟩, visitor := fun _ => .advance 8,
    alignment := 8 }

theorem Job.admissible_twoRegions : Job.twoRegions.Admissible .twoRegions where
  built m hm := by
    cases hm
    exact MemoryMap.built_twoRegions
  given := rfl

/-- Memory that holds a pointer to the second region in the first one. -/
def Image.onePointer : Image := fun n => if n = 0x1009 then 0x20 else 0

namespace Pool

/-- Two workers that are set up to sweep both regions. -/
def twoWorkers : Pool Unit :=
  (({ idle := [(), ()] } : Pool Unit).setup Job.twoRegions.options Job.twoRegions.areas
    Job.twoRegions.visitor Job.twoRegions.alignment {}).2

/-- A single session, which no worker has yet. -/
def oneSession : Pool Bool := { idle := [true] }

theorem history_twoWorkers : History .twoRegions twoWorkers (some .twoRegions) := by
  have hsetup : ({ idle := [(), ()] } : Pool Unit).setup Job.twoRegions.options
      Job.twoRegions.areas Job.twoRegions.visitor Job.twoRegions.alignment {} =
        (.ok (), twoWorkers) := by
    refine Prod.ext ?_ rfl
    cbv
  exact .accepted (.new [(), ()] rfl) Job.admissible_twoRegions hsetup

theorem History.pass_exhaustive_twoWorkers :
    History .twoRegions twoWorkers (some .twoRegions) ∧
    (twoWorkers.runPass fun _ => Image.onePointer.reader).1.result = .ok ⟨6, 48⟩ ∧
    ∃ job m shares, some Job.twoRegions = some job ∧ job.options.map = some m ∧
      (twoWorkers.runPass fun _ => Image.onePointer.reader).1.Covers
        (fun _ => Image.onePointer.reader) twoWorkers.sessions job m shares ∧
      48 = ((m.areas job.areas.regions).map Area.size).sum ∧
      (job.StepsByAlignment →
        ((visitsOf (twoWorkers.runPass fun _ => Image.onePointer.reader).1.logs.flatten).map
          Visit.address).Nodup ∧
        (∀ x, (∃ v ∈ visitsOf
          (twoWorkers.runPass fun _ => Image.onePointer.reader).1.logs.flatten, v.address = x) ↔
          x ∈ job.addresses m) ∧
        6 = (job.addresses m).ncard) := by
  have hok : (twoWorkers.runPass fun _ => Image.onePointer.reader).1.result = .ok ⟨6, 48⟩ := by
    cbv
  exact ⟨history_twoWorkers, hok, history_twoWorkers.pass_exhaustive hok⟩

end Pool

end PointerChains
