import Mathlib.Data.Set.Card
import Mathlib.Order.Interval.Finset.Nat
import PointerChains.Proofs.Pool.Round
import PointerChains.Proofs.Pool.Setup

/-!
# What a pass covers

A pass that ends with totals has swept each region of its job once, by one worker, and nothing else.
Where the visitor always advances by the alignment, each aligned address of the regions is visited
once.

* `Area.Apart`, `Area.sum_size_lt` — regions apart, and that they have fewer bytes than there are
  addresses;
* `Pass.Covers` — every region of the job is in one share, and every share was swept to the end;
* `Pool.RunsFor.covers` — a pass that ends with totals covers the job;
* `Pass.Covers.nodup_addresses`, `Pass.Covers.exists_address_iff` — the visited addresses;
* `Pass.Covers.shown_of_mem` — what the visits are shown.
-/

namespace PointerChains

variable {ρ : Type} {m : MemoryMap} {given : Selections} {p : Plan} {read : Reader}
  {areas : List Area}

/-! ### Regions apart -/

/-- No address lies in both areas. -/
def Area.Apart (a b : Area) : Prop := ∀ x, a.range.contains x → ¬b.range.contains x

theorem MemoryMap.Built.pairwise_apart (h : m.Built) {ids : List RegionId} (hnodup : ids.Nodup) :
    (m.areas ids).Pairwise Area.Apart := by
  refine List.Pairwise.filterMap _ ?_ hnodup
  intro i j hne a ha b hb x hx hx'
  rw [Option.map_eq_some_iff] at ha hb
  obtain ⟨r, hr, rfl⟩ := ha
  obtain ⟨s, hs, rfl⟩ := hb
  exact hne (h.id_eq_of_contains hr hs hx hx')

theorem MemoryMap.mem_areas_iff {ids : List RegionId} {a : Area} :
    a ∈ m.areas ids ↔ ∃ id ∈ ids, ∃ r, m.region? id = some r ∧ r.area = a := by
  rw [areas, List.mem_filterMap]
  simp only [Option.map_eq_some_iff]

/-- The numbers of the addresses in the area. -/
def Area.numbers (a : Area) : Finset Nat := Finset.Ico a.start a.range.stop.toNat

theorem Area.Apart.disjoint {a b : Area} (h : a.Apart b) : Disjoint a.numbers b.numbers := by
  rw [Finset.disjoint_left]
  intro x ha hb
  rw [Area.numbers, Finset.mem_Ico] at ha hb
  have hx : (Address.ofNat x).toNat = x :=
    Address.toNat_ofNat (ha.2.trans a.range.stop.toNat_lt)
  refine h (.ofNat x) (AddressRange.contains_iff.2 ?_) (AddressRange.contains_iff.2 ?_)
  · rw [hx]
    exact ha
  · rw [hx]
    exact hb

/-- Regions apart have as many bytes as there are addresses in any of them. -/
theorem Area.exists_numbers (h : areas.Pairwise Area.Apart) :
    ∃ s : Finset Nat, s.card = (areas.map Area.size).sum ∧
      ∀ x ∈ s, ∃ a ∈ areas, x ∈ a.numbers := by
  induction areas with
  | nil => exact ⟨∅, rfl, by simp⟩
  | cons a rest ih =>
    obtain ⟨hfirst, hrest⟩ := List.pairwise_cons.1 h
    obtain ⟨s, hcard, hs⟩ := ih hrest
    have hdisjoint : Disjoint a.numbers s := by
      rw [Finset.disjoint_left]
      intro x ha hx
      obtain ⟨b, hb, hx⟩ := hs x hx
      exact Finset.disjoint_left.1 (hfirst b hb).disjoint ha hx
    refine ⟨a.numbers ∪ s, ?_, ?_⟩
    · rw [Finset.card_union_of_disjoint hdisjoint, hcard, Area.numbers, Nat.card_Ico,
        List.map_cons, List.sum_cons]
      rfl
    · intro x hx
      rcases Finset.mem_union.1 hx with ha | hx
      · exact ⟨a, List.mem_cons_self .., ha⟩
      · obtain ⟨b, hb, hx⟩ := hs x hx
        exact ⟨b, List.mem_cons_of_mem _ hb, hx⟩

/-- Regions apart have fewer bytes than there are addresses. -/
theorem Area.sum_size_lt (h : areas.Pairwise Area.Apart) :
    (areas.map Area.size).sum < 2 ^ 64 := by
  obtain ⟨s, hcard, hs⟩ := Area.exists_numbers h
  -- the end of a region is an address itself, so that no region holds the last one
  have hsub : s ⊆ Finset.range (2 ^ 64 - 1) := by
    intro x hx
    obtain ⟨a, -, hx⟩ := hs x hx
    have hstop := a.range.stop.toNat_lt
    rw [Area.numbers, Finset.mem_Ico] at hx
    exact Finset.mem_range.2 (by omega)
  have hle := Finset.card_le_card hsub
  rw [Finset.card_range, hcard] at hle
  omega

/-! ### The visits of a share -/

namespace Plan

theorem exists_visit_iff (P : Visit → Prop) :
    (∃ v ∈ visitsOf (p.log read areas), P v) ↔
      ∃ a ∈ areas, ∃ v ∈ visitsOf (p.sweep read a {}).events, P v := by
  rw [log, visitsOf_flatMap]
  simp only [List.mem_flatMap]
  constructor
  · intro h
    obtain ⟨v, ⟨a, ha, hv⟩, hp⟩ := h
    exact ⟨a, ha, v, hv, hp⟩
  · intro h
    obtain ⟨a, ha, v, hv, hp⟩ := h
    exact ⟨v, ⟨a, ha, hv⟩, hp⟩

theorem Completes.exists_contains (h : p.Completes read areas) {v : Visit}
    (hv : v ∈ visitsOf (p.log read areas)) : ∃ a ∈ areas, a.range.contains v.address := by
  obtain ⟨a, ha, w, hw, rfl⟩ := (Plan.exists_visit_iff fun u => u = v).1 ⟨v, hv, rfl⟩
  exact ⟨a, ha, Plan.contains_address (h a ha) hw⟩

theorem Completes.pairwise_address_ne (h : p.Completes read areas)
    (hapart : areas.Pairwise Area.Apart) :
    (visitsOf (p.log read areas)).Pairwise fun v w => v.address ≠ w.address := by
  rw [log, visitsOf_flatMap, List.pairwise_flatMap]
  refine ⟨?_, hapart.imp_of_mem ?_⟩
  · intro a ha
    rw [← List.pairwise_map, ← List.nodup_iff_pairwise_ne]
    exact Plan.nodup_addresses (h a ha)
  · intro a b ha hb hab v hv w hw heq
    have hinside := Plan.contains_address (h b hb) hw
    rw [← heq] at hinside
    exact hab _ (Plan.contains_address (h a ha) hv) hinside

end Plan

/-! ### Passes that cover a job -/

/-- What a worker leaves in the log when it sweeps its share of a job to the end. -/
def Job.log (job : Job) (m : MemoryMap) (read : ρ → Reader) (w : ρ × List RegionId) : List Event :=
  (job.plan (m.areas w.2)).log (read w.1) (m.areas w.2)

/-- The pass has swept each region of the job once, in the share of one session, and nothing else,
and its totals count just that. -/
structure Pass.Covers (pass : Pass) (read : ρ → Reader) (sessions : List ρ) (job : Job)
    (m : MemoryMap) (shares : List (List RegionId)) : Prop where
  length_eq : shares.length = sessions.length
  perm : shares.flatten.Perm job.areas.regions
  nodup : job.areas.regions.Nodup
  knows : m.Knows job.areas.regions
  completes : ∀ w ∈ sessions.zip shares,
    (job.plan (m.areas w.2)).Completes (read w.1) (m.areas w.2)
  logs_eq : pass.logs = (sessions.zip shares).map (job.log m read)
  result_eq : pass.result = .ok ⟨(visitsOf pass.logs.flatten).length,
    ((m.areas job.areas.regions).map Area.size).sum⟩

theorem flatMap_areas_zip {sessions : List ρ} {shares : List (List RegionId)}
    (h : shares.length = sessions.length) (m : MemoryMap) :
    ((sessions.zip shares).flatMap fun w => m.areas w.2) = m.areas shares.flatten := by
  have hsnd : (sessions.zip shares).map Prod.snd = shares := List.map_snd_zip (Nat.le_of_eq h)
  rw [MemoryMap.areas_flatten]
  conv_rhs => rw [← hsnd]
  rw [List.flatMap_map]

namespace Pool

variable {pool : Pool ρ} {read : ρ → Reader} {stats : Stats} {job : Job}
  {shares : List (List RegionId)}

theorem idle_iff (pool : Pool ρ) :
    (!pool.running || pool.plans.length != pool.crew.length) = true ↔
      ¬(pool.running = true ∧ pool.plans.length = pool.sessions.length) := by
  cases hrunning : pool.running with
  | false => simp
  | true =>
    rw [crew_eq_sessions hrunning, Bool.not_true, Bool.false_or, bne_iff_ne]
    exact (not_congr (and_iff_right rfl)).symm

/-- All that a pass can do: it is refused, or it ends with totals and leaves the workers as they
are, or it fails and takes them down. -/
theorem runPass_cases (pool : Pool ρ) (read : ρ → Reader) :
    (¬(pool.running = true ∧ pool.plans.length = pool.sessions.length) ∧
      pool.runPass read = (⟨.error .poolNotSetUp, List.replicate pool.workers []⟩, pool)) ∨
    (∃ stats cancel, pool.running = true ∧ pool.plans.length = pool.sessions.length ∧
      (pool.sweepRound read).finalTally.outcome = .ok stats ∧
      pool.runPass read = (⟨.ok stats, (pool.sweepRound read).logs⟩, { pool with cancel })) ∨
    (∃ cause, (pool.runPass read).1.result = .error cause ∧
      (pool.runPass read).2.partition = pool.partition ∧
      (pool.runPass read).2.running = false ∧
      (pool.running = true ∧ pool.plans.length = pool.sessions.length) ∧
      (pool.runPass read).1.logs = (pool.sweepRound read).logs ∧
      (pool.runPass read).2.sessions = survivors pool.sessions (pool.sweepRound read).lost) := by
  rw [runPass]
  split
  · rename_i hidle
    exact .inl ⟨pool.idle_iff.1 hidle, rfl⟩
  · rename_i hready
    rw [idle_iff, not_not] at hready
    simp only
    split
    · rename_i stats houtcome
      exact .inr (.inl ⟨stats, _, hready.1, hready.2, houtcome, rfl⟩)
    · rename_i cause houtcome
      refine .inr (.inr ⟨cause, rfl, ?_⟩)
      -- what the token is then does not matter to the workers
      generalize (if cause = .cancelled then _ else _ : Token) = cancel
      have hdown : ({ pool with cancel } : Pool ρ).running = true := hready.1
      rw [takeDown_of_running hdown]
      exact ⟨rfl, rfl, hready, rfl, List.append_nil _⟩

/-- Each worker has the plan for its share. -/
theorem RunsFor.zip_plans (h : pool.RunsFor job m shares) : pool.sessions.zip pool.plans =
    (pool.sessions.zip shares).map (Prod.map id fun share => job.plan (m.areas share)) := by
  rw [h.plans_eq, List.zip_map_right]

/-- The workers together have the regions of the shares. -/
theorem RunsFor.flatMap_areas (h : pool.RunsFor job m shares) :
    ((pool.sessions.zip pool.plans).flatMap fun w => w.2.areas) = m.areas shares.flatten := by
  rw [h.zip_plans, List.flatMap_map]
  exact flatMap_areas_zip h.length_eq m

/-- A pass that ends with totals found the memory for its windows. -/
theorem RunsFor.bufferSize_le (h : pool.RunsFor job m shares) (hsessions : pool.sessions ≠ [])
    (hok : (pool.runPass read).1.result = .ok stats) :
    job.options.bufferSize ≤ largestBuffer := by
  obtain ⟨-, heq⟩ | ⟨stats', cancel, hrunning, hlength, houtcome, -⟩ | ⟨cause, herror, -, -⟩ :=
    pool.runPass_cases read
  · rw [heq] at hok
    cases hok
  · have hcrew := crew_eq_sessions hrunning
    have hall := (sweepRound_of_ok (by rwa [hcrew]) houtcome).1
    rw [hcrew] at hall
    have hne : pool.sessions.zip pool.plans ≠ [] := by
      rw [← List.length_pos_iff, List.length_zip, hlength, Nat.min_self, List.length_pos_iff]
      exact hsessions
    obtain ⟨w, hw⟩ := List.exists_mem_of_ne_nil _ hne
    have hfits := (hall w hw).1
    rw [h.zip_plans] at hw
    obtain ⟨⟨session, share⟩, -, rfl⟩ := List.mem_map.1 hw
    exact hfits
  · rw [hok] at herror
    cases herror

/-- **A pass that ends with totals covers the job that the pool runs for.** -/
theorem RunsFor.covers (h : pool.RunsFor job m shares) (hjob : job.Admissible given)
    (hok : (pool.runPass read).1.result = .ok stats) :
    (pool.runPass read).1.Covers read pool.sessions job m shares := by
  obtain ⟨-, heq⟩ | ⟨stats', cancel, hrunning, hlength, houtcome, heq⟩ | ⟨cause, herror, -, -⟩ :=
    pool.runPass_cases read
  · rw [heq] at hok
    cases hok
  · have hcrew := crew_eq_sessions hrunning
    obtain ⟨hcompletes, hlogs, hstats⟩ := sweepRound_of_ok (by rwa [hcrew]) houtcome
    rw [hcrew] at hcompletes hlogs hstats
    have hzip := h.zip_plans
    have hlog : (pool.sessions.zip pool.plans).map (Round.logOf read) =
        (pool.sessions.zip shares).map (job.log m read) := by
      rw [hzip, List.map_map]
      rfl
    have hperm : (m.areas shares.flatten).Perm (m.areas job.areas.regions) := h.perm.filterMap _
    rw [heq]
    refine ⟨h.length_eq, h.perm, hjob.nodup_regions, h.knows, ?_, hlogs.trans hlog, ?_⟩
    · intro w hw
      refine (hcompletes (w.1, job.plan (m.areas w.2)) ?_).2
      rw [hzip]
      exact List.mem_map_of_mem hw
    · show Except.ok stats' = _
      rw [hstats, h.flatMap_areas, List.flatMap_def, ← hlogs, (hperm.map Area.size).sum_eq]
  · rw [hok] at herror
    cases herror

end Pool

/-! ### The visits of a pass -/

/-- The reader serves the image in every region of the selection. -/
def AreaSet.Served (areas : AreaSet) (m : MemoryMap) (read : Reader) (image : Image) : Prop :=
  ∀ id ∈ areas.regions, ∀ r, m.region? id = some r → read.Serves image r.range

/-- What the reader brings in a region of the selection is the image. -/
def AreaSet.Told (areas : AreaSet) (m : MemoryMap) (read : Reader) (image : Image) : Prop :=
  ∀ id ∈ areas.regions, ∀ r, m.region? id = some r → read.Tells image r.range

theorem AreaSet.Served.told {areas : AreaSet} {read : Reader} {image : Image}
    (h : areas.Served m read image) : areas.Told m read image :=
  fun id hid r hr => (h id hid r hr).tells

/-- The addresses of a job: those in its regions that are divisible by its alignment. -/
def Job.addresses (job : Job) (m : MemoryMap) : Set Address :=
  {x | job.alignment ∣ x.toNat ∧
    ∃ id ∈ job.areas.regions, ∃ r, m.region? id = some r ∧ r.range.contains x}

/-- The visitor of the job always advances by the alignment. -/
def Job.StepsByAlignment (job : Job) : Prop :=
  ∀ v, ∃ cancel, job.visitor v = .advance job.alignment cancel

namespace Pass.Covers

variable {pass : Pass} {read : ρ → Reader} {sessions : List ρ} {job : Job}
  {shares : List (List RegionId)}

theorem pairwise_apart (h : pass.Covers read sessions job m shares) (hm : m.Built) :
    (m.areas shares.flatten).Pairwise Area.Apart :=
  hm.pairwise_apart (h.perm.nodup_iff.2 h.nodup)

theorem exists_visit_iff (h : pass.Covers read sessions job m shares) (P : Visit → Prop) :
    (∃ v ∈ visitsOf pass.logs.flatten, P v) ↔
      ∃ w ∈ sessions.zip shares, ∃ a ∈ m.areas w.2,
        ∃ v ∈ visitsOf ((job.plan (m.areas w.2)).sweep (read w.1) a {}).events, P v := by
  rw [h.logs_eq, ← List.flatMap_def, visitsOf_flatMap]
  simp only [List.mem_flatMap]
  constructor
  · intro h
    obtain ⟨v, ⟨w, hw, hv⟩, hp⟩ := h
    exact ⟨w, hw, (Plan.exists_visit_iff P).1 ⟨v, hv, hp⟩⟩
  · intro h
    obtain ⟨w, hw, hvisit⟩ := h
    obtain ⟨v, hv, hp⟩ := (Plan.exists_visit_iff P).2 hvisit
    exact ⟨v, ⟨w, hw, hv⟩, hp⟩

/-- The shares of the sessions together are the regions of the job. -/
theorem exists_area_iff (h : pass.Covers read sessions job m shares) (P : Area → Prop) :
    (∃ w ∈ sessions.zip shares, ∃ a ∈ m.areas w.2, P a) ↔
      ∃ id ∈ job.areas.regions, ∃ r, m.region? id = some r ∧ P r.area := by
  have hmem : ∀ a, (∃ w ∈ sessions.zip shares, a ∈ m.areas w.2) ↔ a ∈ m.areas shares.flatten := by
    intro a
    rw [← flatMap_areas_zip h.length_eq, List.mem_flatMap]
  constructor
  · intro h
    obtain ⟨w, hw, a, ha, hp⟩ := h
    obtain ⟨id, hid, r, hr, rfl⟩ := MemoryMap.mem_areas_iff.1 ((hmem a).1 ⟨w, hw, ha⟩)
    exact ⟨id, h.perm.mem_iff.1 hid, r, hr, hp⟩
  · intro h
    obtain ⟨id, hid, r, hr, hp⟩ := h
    have ha := MemoryMap.mem_areas_iff.2 ⟨id, h.perm.mem_iff.2 hid, r, hr, rfl⟩
    obtain ⟨w, hw, ha⟩ := (hmem r.area).2 ha
    exact ⟨w, hw, r.area, ha, hp⟩

/-- No address is visited twice. -/
theorem nodup_addresses (h : pass.Covers read sessions job m shares) (hm : m.Built) :
    ((visitsOf pass.logs.flatten).map Visit.address).Nodup := by
  have hapart := h.pairwise_apart hm
  rw [← flatMap_areas_zip h.length_eq, List.pairwise_flatMap] at hapart
  rw [List.nodup_iff_pairwise_ne, List.pairwise_map, h.logs_eq, ← List.flatMap_def,
    visitsOf_flatMap, List.pairwise_flatMap]
  refine ⟨?_, hapart.2.imp_of_mem ?_⟩
  · intro w hw
    exact (h.completes w hw).pairwise_address_ne (hapart.1 w hw)
  · intro w w' hw hw' hab v hv v' hv' heq
    obtain ⟨a, ha, hinside⟩ := (h.completes w hw).exists_contains hv
    obtain ⟨b, hb, hinside'⟩ := (h.completes w' hw').exists_contains hv'
    rw [← heq] at hinside'
    exact hab a ha b hb _ hinside hinside'

/-- If the visitor always advances by the alignment, the addresses of the job are visited. -/
theorem exists_address_iff (h : pass.Covers read sessions job m shares)
    (halign : 0 < job.alignment) (hstep : job.StepsByAlignment) (x : Address) :
    (∃ v ∈ visitsOf pass.logs.flatten, v.address = x) ↔ x ∈ job.addresses m := by
  have hsweep : ∀ w ∈ sessions.zip shares, ∀ a ∈ m.areas w.2,
      ((∃ v ∈ visitsOf ((job.plan (m.areas w.2)).sweep (read w.1) a {}).events, v.address = x) ↔
        a.range.contains x ∧ job.alignment ∣ x.toNat) := by
    intro w hw a ha
    exact Plan.exists_address_iff (h.completes w hw a ha) halign hstep x
  have hregions := h.exists_area_iff fun a => a.range.contains x
  rw [h.exists_visit_iff]
  constructor
  · intro h
    obtain ⟨w, hw, a, ha, hvisit⟩ := h
    obtain ⟨hinside, hdvd⟩ := (hsweep w hw a ha).1 hvisit
    exact ⟨hdvd, hregions.1 ⟨w, hw, a, ha, hinside⟩⟩
  · intro h
    obtain ⟨hdvd, hregion⟩ := h
    obtain ⟨w, hw, a, ha, hinside⟩ := hregions.2 hregion
    exact ⟨w, hw, a, ha, (hsweep w hw a ha).2 ⟨hinside, hdvd⟩⟩

/-- If the visitor always advances by the alignment, there are as many visits as addresses. -/
theorem length_visits (h : pass.Covers read sessions job m shares) (hm : m.Built)
    (halign : 0 < job.alignment) (hstep : job.StepsByAlignment) :
    (visitsOf pass.logs.flatten).length = (job.addresses m).ncard := by
  have hset : job.addresses m =
      (((visitsOf pass.logs.flatten).map Visit.address).toFinset : Set Address) := by
    ext x
    rw [List.coe_toFinset, Set.mem_ofPred_eq, List.mem_map]
    exact (h.exists_address_iff halign hstep x).symm
  rw [hset, Set.ncard_coe_finset, List.toFinset_card_of_nodup (h.nodup_addresses hm),
    List.length_map]

/-- Every visit of the pass is shown the image, if that is all that reads in the regions bring: a
pointer at least unless the region ends first. -/
theorem shown_of_mem {image : Image} (h : pass.Covers read sessions job m shares) (hm : m.Built)
    (hfit : 2 * job.options.width.size ≤ job.options.bufferSize)
    (htold : ∀ session ∈ sessions, job.areas.Told m (read session) image) {v : Visit}
    (hv : v ∈ visitsOf pass.logs.flatten) :
    ∃ r, m.region? v.region = some r ∧ v.region ∈ job.areas.regions ∧
      r.range.contains v.address ∧
      v.bytes = image.read v.address.toNat v.bytes.length ∧
      min job.options.width.size (r.range.stop.toNat - v.address.toNat) ≤ v.bytes.length ∧
      v.bytes.length ≤ r.range.stop.toNat - v.address.toNat := by
  obtain ⟨w, hw, a, ha, u, hu, rfl⟩ := (h.exists_visit_iff fun u => u = v).1 ⟨v, hv, rfl⟩
  obtain ⟨id, hid, r, hr, rfl⟩ := (h.exists_area_iff fun b => b = a).1 ⟨w, hw, a, ha, rfl⟩
  have hcomplete := h.completes w hw r.area ha
  have hread := htold w.1 (List.of_mem_zip hw).1 id hid r hr
  have hstart := Cursor.shows_startAt (p := job.plan (m.areas w.2)) (a := r.area) image
    (alignUp r.area.start 0 job.alignment)
  have hfaithful := (Plan.course_of_sweep hcomplete).1.faithful_of_tells hstart hread hfit u hu
  have hregion : u.region = id := hfaithful.region_eq.trans (hm.region?_id hr)
  have hinside : r.range.contains u.address := Plan.contains_address hcomplete hu
  have hlength : u.bytes.length ≤
      min job.options.bufferSize (r.range.stop.toNat - u.address.toNat) := hfaithful.length_le
  rw [hregion]
  exact ⟨r, hr, hid, hinside, hfaithful.bytes_eq, hfaithful.le_length, by omega⟩

end Pass.Covers

end PointerChains
