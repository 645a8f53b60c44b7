import PointerChains.Proofs.Pool.Cancellation
import PointerChains.Proofs.Pool.History
import PointerChains.Proofs.Sweep.Reads

/-!
# The reads of a pass

The shares of the workers hold the selected regions, each of them once, and the regions of a map are
apart.  So what the workers read does not meet either: a pass reads no address twice, and none
outside of the selection, however it ends.

* `ReadsOnce` — reads of some areas that ask for no address twice;
* `Plan.readsOnce_run`, `Pool.RunsFor.readsOnce` — the reads of a worker, and of all of them;
* `Pool.History.reads_once` — **the reads of a sweep climb through its region, and those of a pass
  stay in the selection of the last job and ask for no address twice.**
-/

namespace PointerChains

variable {ρ : Type} {p : Plan} {a : Area} {signals : Signals} {requests requests' : List Request}
  {areas areas' : List Area} {room : Nat}

/-- Each read asks for a byte at least and for no more than there is room for, all in one of the
areas, and no address is asked for twice. -/
structure ReadsOnce (room : Nat) (areas : List Area) (requests : List Request) : Prop where
  proper : ∀ r ∈ requests, 0 < r.length ∧ r.length ≤ room
  inside : ∀ r ∈ requests, ∃ a ∈ areas, (Event.read r).Inside a
  once : requests.Pairwise fun r s => ∀ x, r.Touches x → ¬s.Touches x

theorem Request.contains_of_touches {r : Request} {x : Address} (h : (Event.read r).Inside a)
    (hx : r.Touches x) : a.range.contains x := by
  obtain ⟨hstart, hstop⟩ := h
  exact AddressRange.contains_iff.2 ⟨Nat.le_trans hstart hx.1, hx.2.trans_le hstop⟩

namespace ReadsOnce

theorem nil : ReadsOnce room areas [] where
  proper := List.forall_mem_nil _
  inside := List.forall_mem_nil _
  once := .nil

theorem mono (h : ReadsOnce room areas requests) (hsub : areas ⊆ areas') :
    ReadsOnce room areas' requests where
  proper := h.proper
  inside := by
    intro r hr
    obtain ⟨a, ha, hinside⟩ := h.inside r hr
    exact ⟨a, hsub ha, hinside⟩
  once := h.once

/-- Reads in areas that are apart do not meet. -/
theorem append (h : ReadsOnce room areas requests) (h' : ReadsOnce room areas' requests')
    (hapart : ∀ a ∈ areas, ∀ b ∈ areas', a.Apart b) :
    ReadsOnce room (areas ++ areas') (requests ++ requests') where
  proper := List.forall_mem_append.2 ⟨h.proper, h'.proper⟩
  inside := List.forall_mem_append.2 ⟨(h.mono (List.subset_append_left ..)).inside,
    (h'.mono (List.subset_append_right ..)).inside⟩
  once := by
    refine List.pairwise_append.2 ⟨h.once, h'.once, ?_⟩
    intro r hr s hs x hx hx'
    obtain ⟨a, ha, hinside⟩ := h.inside r hr
    obtain ⟨b, hb, hinside'⟩ := h'.inside s hs
    exact hapart a ha b hb x (Request.contains_of_touches hinside hx)
      (Request.contains_of_touches hinside' hx')

end ReadsOnce

/-! ### The reads of a worker -/

theorem Plan.readsOnce_sweep {read : Reader} (hfit : 2 * p.width.size ≤ p.bufferSize) :
    ReadsOnce p.bufferSize [a] (readsOf (p.sweep read a signals).events) where
  proper := (Plan.climbs_sweep hfit).proper
  inside := fun _ hr => ⟨a, List.mem_singleton_self a, Plan.inside_sweep hr⟩
  once := (Plan.climbs_sweep hfit).pairwise_touches

/-- The reads of a worker keep to its regions, and ask for no address twice. -/
theorem Plan.readsOnce_sweepAll {read : Reader} (hfit : 2 * p.width.size ≤ p.bufferSize)
    (hapart : areas.Pairwise Area.Apart) :
    ReadsOnce p.bufferSize areas (readsOf (p.sweepAll read signals areas).events) := by
  induction areas generalizing signals with
  | nil => exact .nil
  | cons a rest ih =>
    obtain ⟨hfirst, hrest⟩ := List.pairwise_cons.1 hapart
    have hsweep : ReadsOnce p.bufferSize [a] (readsOf (p.sweep read a {}).events) :=
      Plan.readsOnce_sweep hfit
    obtain ⟨-, heq⟩ | ⟨-, -, heq⟩ | ⟨-, ⟨-, heq⟩ | ⟨-, heq⟩⟩ := p.sweepAll_cases read signals a rest
    · rw [heq]
      exact .nil
    · rw [heq]
      exact .nil
    · rw [heq, Sweep.behind, readsOf_append]
      exact hsweep.append (ih hrest) (List.forall_mem_singleton.2 hfirst)
    · rw [heq]
      exact hsweep.mono (List.cons_subset_cons a (List.nil_subset rest))

theorem Plan.readsOnce_run {read : Reader} (hfit : 2 * p.width.size ≤ p.bufferSize)
    (hapart : p.areas.Pairwise Area.Apart) :
    ReadsOnce p.bufferSize p.areas (readsOf (p.run read signals).events) := by
  rcases Nat.lt_or_ge largestBuffer p.bufferSize with hlarge | hfits
  · rw [run_of_large hlarge]
    exact .nil
  · rw [run_of_fits hfits]
    exact readsOnce_sweepAll hfit hapart

namespace Pool

variable {pool : Pool ρ} {read : ρ → Reader} {given : Selections} {last : Option Job}

/-! ### The reads of all workers -/

/-- Workers whose regions are apart ask for no address twice, whatever they tell each other. -/
theorem readsOnce_logsOf {ws : List (ρ × Plan)}
    (hfit : ∀ w ∈ ws, w.2.bufferSize = room ∧ 2 * w.2.width.size ≤ room)
    (hapart : (ws.flatMap fun w => w.2.areas).Pairwise Area.Apart) :
    ReadsOnce room (ws.flatMap fun w => w.2.areas) (readsOf (logsOf read signals ws).flatten) := by
  induction ws generalizing signals with
  | nil => exact .nil
  | cons w ws ih =>
    rw [List.flatMap_cons] at hapart ⊢
    obtain ⟨hown, hothers, hbetween⟩ := List.pairwise_append.1 hapart
    obtain ⟨⟨rfl, hroom⟩, hrest⟩ := List.forall_mem_cons.1 hfit
    rw [logsOf, List.flatten_cons, readsOf_append]
    exact (Plan.readsOnce_run hroom hown).append (ih hrest hothers) hbetween

/-- The workers of a pool that runs for a job keep to its regions, and ask for no address twice. -/
theorem RunsFor.readsOnce {job : Job} {m : MemoryMap} {shares : List (List RegionId)}
    (h : pool.RunsFor job m shares) (hjob : job.Admissible given) :
    ReadsOnce job.options.bufferSize (m.areas job.areas.regions)
      (readsOf (pool.passLogs read).flatten) := by
  have hapart := (hjob.built m h.map_eq).pairwise_apart (h.perm.nodup_iff.2 hjob.nodup_regions)
  have hperm : (m.areas shares.flatten).Perm (m.areas job.areas.regions) := h.perm.filterMap _
  rw [← h.flatMap_areas] at hapart hperm
  refine (readsOnce_logsOf ?_ hapart).mono hperm.subset
  intro w hw
  rw [h.zip_plans] at hw
  obtain ⟨⟨session, share⟩, -, rfl⟩ := List.mem_map.1 hw
  exact ⟨rfl, h.fits⟩

/-- A pass logs what its workers do, if they do anything. -/
theorem readsOf_runPass (pool : Pool ρ) (read : ρ → Reader) :
    readsOf (pool.runPass read).1.logs.flatten = [] ∨
      readsOf (pool.runPass read).1.logs.flatten = readsOf (pool.passLogs read).flatten := by
  obtain ⟨-, hrefused⟩ | ⟨⟨hrunning, hlength⟩, heq⟩ := pool.pass_eq read
  · rw [hrefused, List.flatten_replicate_nil]
    exact .inl rfl
  · rw [heq, (sweepRound_logs hrunning hlength read).1]
    exact .inr rfl

theorem readsOf_runPass_of_idle (h : pool.running = false) (read : ρ → Reader) :
    readsOf (pool.runPass read).1.logs.flatten = [] := by
  rw [(isDown_of_running_eq_false h).2 read, List.flatten_replicate_nil]
  rfl

/-- **The reads of a sweep climb through its region, and no read of a pass meets another.**  Each
read of a sweep asks for a byte at least and for a buffer at most, stays in the region, and starts
behind all that were asked for before, whatever the visitor, the reader and the signals do; and all
that a visit is shown was asked for.  In a pass, however it ends, every read lies in a selected
region of the job that was accepted last, and no address is asked for twice by any of the
workers. -/
theorem History.reads_once (h : History given pool last) (read : ρ → Reader) :
    (∀ (p : Plan) (reader : Reader) (a : Area) (signals : Signals),
      2 * p.width.size ≤ p.bufferSize →
        (∀ r ∈ readsOf (p.sweep reader a signals).events, 0 < r.length ∧ r.length ≤ p.bufferSize ∧
          a.range.start.toNat ≤ r.address.toNat ∧
          r.address.toNat + r.length ≤ a.range.stop.toNat) ∧
        ((readsOf (p.sweep reader a signals).events).Pairwise fun r s =>
          r.address.toNat + r.length ≤ s.address.toNat) ∧
        ∀ v ∈ visitsOf (p.sweep reader a signals).events, 0 < v.remaining ∧
          ∀ x, v.Spans x → ∃ r ∈ readsOf (p.sweep reader a signals).events, r.Touches x) ∧
    (pool.running = false → readsOf (pool.runPass read).1.logs.flatten = []) ∧
    (pool.running = true → ∃ job m, last = some job ∧ job.options.map = some m ∧
      ReadsOnce job.options.bufferSize (m.areas job.areas.regions)
        (readsOf (pool.runPass read).1.logs.flatten)) := by
  refine ⟨?_, fun hidle => readsOf_runPass_of_idle hidle read, ?_⟩
  · intro p reader a signals hfit
    have hclimbs : Climbs p.bufferSize a.start (readsOf (p.sweep reader a signals).events) :=
      Plan.climbs_sweep hfit
    refine ⟨?_, hclimbs.ascending, Plan.shown_sweep hfit⟩
    intro r hr
    obtain ⟨hpos, hle⟩ := hclimbs.proper r hr
    obtain ⟨hstart, hstop⟩ := Plan.inside_sweep hr
    exact ⟨hpos, hle, hstart, hstop⟩
  · intro hrunning
    obtain ⟨job, m, shares, hlast, hjob, hruns⟩ := h.sound.runs hrunning
    refine ⟨job, m, hlast, hruns.map_eq, ?_⟩
    obtain hnone | hlogs := pool.readsOf_runPass read
    · rw [hnone]
      exact .nil
    · rw [hlogs]
      exact hruns.readsOnce hjob

theorem History.reads_once_twoWorkers :
    History .twoRegions twoWorkers (some .twoRegions) ∧
    (2 * Plan.byFives.width.size ≤ Plan.byFives.bufferSize ∧
      (∀ r ∈ readsOf (Plan.byFives.sweep Image.lowBytes.reader .unaligned {}).events,
        0 < r.length ∧ r.length ≤ 16 ∧ 0x1002 ≤ r.address.toNat ∧
          r.address.toNat + r.length ≤ 0x1042) ∧
      ((readsOf (Plan.byFives.sweep Image.lowBytes.reader .unaligned {}).events).Pairwise
        fun r s => r.address.toNat + r.length ≤ s.address.toNat) ∧
      ∀ v ∈ visitsOf (Plan.byFives.sweep Image.lowBytes.reader .unaligned {}).events,
        0 < v.remaining ∧ ∀ x, v.Spans x →
          ∃ r ∈ readsOf (Plan.byFives.sweep Image.lowBytes.reader .unaligned {}).events,
            r.Touches x) ∧
    twoWorkers.running = true ∧
    ∃ job m, some Job.twoRegions = some job ∧ job.options.map = some m ∧
      ReadsOnce job.options.bufferSize (m.areas job.areas.regions)
        (readsOf (twoWorkers.runPass fun _ => Image.onePointer.reader).1.logs.flatten) := by
  have hrunning : twoWorkers.running = true := by cbv
  have hfit : 2 * Plan.byFives.width.size ≤ Plan.byFives.bufferSize := by decide
  obtain ⟨hsweep, -, hpass⟩ := history_twoWorkers.reads_once fun _ => Image.onePointer.reader
  exact ⟨history_twoWorkers, ⟨hfit, hsweep .byFives Image.lowBytes.reader .unaligned {} hfit⟩,
    hrunning, hpass hrunning⟩

/-- A rest of four bytes stays in the window, which is filled up behind it. -/
example : (readsOf (({ Plan.byFives with bufferSize := 20 } : Plan).sweep Image.lowBytes.reader
    .unaligned {}).events).map (fun r => (r.address.toNat, r.length)) =
      [(0x1004, 20), (0x1018, 16), (0x1028, 16), (0x1038, 10)] := by
  decide +kernel

end Pool

end PointerChains
