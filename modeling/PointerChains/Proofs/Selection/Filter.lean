import PointerChains.Proofs.Map.Built

/-!
# Selecting is filtering

A selection goes through the regions once.  It remembers the objects that it has found to be left
out, and passes over runs of regions inside one omitted range.  Neither changes what is selected:
each region stands or falls with conditions on it alone.

* `Options.Admits` — the conditions on a region, with `Options.admits` to decide them;
* `Options.Remembers` — what is remembered is left out anyway, from region to region;
* `Options.selectFrom_eq` — so that it makes no difference;
* `AreaSet.update_eq_filter` — **a selection is the filter by the conditions**, and one without
  regions leaves the earlier selection in place.
-/

namespace PointerChains

namespace Options

variable {o : Options} {m : MemoryMap} {r : Region}

/-- What the options ask of a region. -/
structure Admits (o : Options) (m : MemoryMap) (r : Region) : Prop where
  access : o.access.isEmpty ∨ r.access.contains o.access
  /-- A region with an object is selected only among the exclusive objects, if there are any set. -/
  exclusiveObject : ∀ object ids,
    r.object = some object → o.exclusiveObjects = some ids → object ∈ ids
  omittedObject : ∀ object ids,
    r.object = some object → o.omitObjects = some ids → object ∉ ids
  pathname : ∀ object found, r.object = some object → m.object? object = some found →
    ∀ start ∈ blacklist, ¬start.toList <+: found.pathname.toList
  omittedRegion : ∀ ids, o.omitRegions = some ids → r.id ∉ ids
  omittedRange : ∀ ranges, o.omitRanges = some ranges → ∀ range ∈ ranges, ¬range.covers r.range
  /-- If any exclusive setting is there, one of them names the region or its object or covers it. -/
  exclusive :
    o.exclusiveObjects.isSome ∨ o.exclusiveRegions.isSome ∨ o.exclusiveRanges.isSome →
    (∃ ids object, o.exclusiveObjects = some ids ∧ r.object = some object ∧ object ∈ ids) ∨
    (∃ ids, o.exclusiveRegions = some ids ∧ r.id ∈ ids) ∨
    ∃ ranges, o.exclusiveRanges = some ranges ∧ ∃ range ∈ ranges, range.covers r.range

/-- Whether a region meets all conditions. -/
def admits (o : Options) (m : MemoryMap) (r : Region) : Bool :=
  o.admitsAccess r && !r.object.any (o.rejectsObject m) && !o.omitsRegion r &&
    (o.omitRange? r).isNone && o.includes r

/-! ### One condition after the other -/

theorem isBlacklisted_eq_false_iff {pathname : String} :
    isBlacklisted pathname = false ↔ ∀ start ∈ blacklist, ¬start.toList <+: pathname.toList := by
  simp [isBlacklisted, List.isPrefixOf_iff_prefix]

theorem rejectsObject_eq_false_iff {object : ObjectId} :
    o.rejectsObject m object = false ↔
      (∀ ids, o.exclusiveObjects = some ids → object ∈ ids) ∧
      (∀ ids, o.omitObjects = some ids → object ∉ ids) ∧
      ∀ found, m.object? object = some found → isBlacklisted found.pathname = false := by
  simp only [rejectsObject, Bool.or_eq_false_iff, Option.any_eq_false, and_assoc]
  simp

theorem omitsRegion_eq_false_iff :
    o.omitsRegion r = false ↔ ∀ ids, o.omitRegions = some ids → r.id ∉ ids := by
  simp [omitsRegion, Option.any_eq_false]

theorem omitRange?_eq_none_iff : o.omitRange? r = none ↔
    ∀ ranges, o.omitRanges = some ranges → ∀ range ∈ ranges, ¬range.covers r.range := by
  simp [omitRange?, Option.bind_eq_none_iff, List.find?_eq_none]

theorem omitRange?_eq_some {range : AddressRange} (h : o.omitRange? r = some range) :
    ∃ ranges, o.omitRanges = some ranges ∧ range ∈ ranges := by
  obtain ⟨ranges, hranges, hfind⟩ := Option.bind_eq_some_iff.1 h
  exact ⟨ranges, hranges, List.mem_of_find?_eq_some hfind⟩

theorem matchesExclusive_iff : o.matchesExclusive r ↔
    (∃ ids object, o.exclusiveObjects = some ids ∧ r.object = some object ∧ object ∈ ids) ∨
    (∃ ids, o.exclusiveRegions = some ids ∧ r.id ∈ ids) ∨
    ∃ ranges, o.exclusiveRanges = some ranges ∧ ∃ range ∈ ranges, range.covers r.range := by
  simp [matchesExclusive, Option.any_eq_true, or_assoc]

theorem isExclusive_iff : o.isExclusive ↔
    o.exclusiveObjects.isSome ∨ o.exclusiveRegions.isSome ∨ o.exclusiveRanges.isSome := by
  simp [isExclusive, or_assoc]

theorem includes_iff : o.includes r ↔ (o.isExclusive → o.matchesExclusive r) := by
  cases hexclusive : o.isExclusive <;> simp [includes, hexclusive]

theorem admits_iff : o.admits m r ↔ o.Admits m r := by
  have hobject : r.object.any (o.rejectsObject m) = false ↔
      ∀ object, r.object = some object → o.rejectsObject m object = false := by
    simp [Option.any_eq_false]
  simp only [admits, Bool.and_eq_true, Bool.not_eq_true', Option.isNone_iff_eq_none, hobject,
    includes_iff, admitsAccess, Bool.or_eq_true, rejectsObject_eq_false_iff,
    isBlacklisted_eq_false_iff, omitsRegion_eq_false_iff, omitRange?_eq_none_iff,
    isExclusive_iff, matchesExclusive_iff]
  constructor
  · intro h
    obtain ⟨⟨⟨⟨haccess, hobject⟩, hregion⟩, hrange⟩, hexclusive⟩ := h
    exact ⟨haccess, fun object ids hr => (hobject object hr).1 ids,
      fun object ids hr => (hobject object hr).2.1 ids,
      fun object found hr => (hobject object hr).2.2 found, hregion, hrange, hexclusive⟩
  · intro h
    exact ⟨⟨⟨⟨h.access, fun object hr => ⟨fun ids => h.exclusiveObject object ids hr,
      fun ids => h.omittedObject object ids hr, fun found => h.pathname object found hr⟩⟩,
      h.omittedRegion⟩, h.omittedRange⟩, h.exclusive⟩

instance (o : Options) (m : MemoryMap) : DecidablePred (o.Admits m) :=
  fun _ => decidable_of_iff _ admits_iff

/-! ### What is remembered -/

/-- What a selection remembers is left out anyway: the objects in `rejected`, and what lies inside
`covering`, one of the omitted ranges. -/
structure Remembers (o : Options) (m : MemoryMap) (rejected : IndexSet)
    (covering : Option AddressRange) : Prop where
  rejects : ∀ object : ObjectId, rejected.contains object.index → o.rejectsObject m object
  omits : ∀ range, covering = some range →
    ∃ ranges, o.omitRanges = some ranges ∧ range ∈ ranges

namespace Remembers

variable {rejected : IndexSet} {covering : Option AddressRange}

/-- The start of a selection remembers nothing. -/
theorem start (o : Options) (m : MemoryMap) (capacity : Nat) :
    o.Remembers m ((IndexSet.withCapacity? capacity).getD {}) none := by
  refine ⟨?_, ?_⟩
  · intro object h
    have hempty : ((IndexSet.withCapacity? capacity).getD {}).contains object.index = false := by
      cases hmade : IndexSet.withCapacity? capacity with
      | none => exact IndexSet.contains_empty object.index
      | some s => exact IndexSet.contains_of_withCapacity? hmade object.index
    rw [hempty] at h
    cases h
  · intro range h
    cases h

theorem leave (h : o.Remembers m rejected covering) : o.Remembers m rejected none := by
  refine ⟨h.rejects, ?_⟩
  intro range hrange
  cases hrange

theorem insert (h : o.Remembers m rejected covering) {object : ObjectId}
    (hrejects : o.rejectsObject m object) :
    o.Remembers m (rejected.insert object.index) none := by
  refine ⟨?_, h.leave.omits⟩
  intro other hother
  rw [IndexSet.contains_insert, Bool.or_eq_true, decide_eq_true_eq] at hother
  rcases hother with heq | hother
  · cases object
    cases other
    cases heq
    exact hrejects
  · exact h.rejects other hother

theorem enter (h : o.Remembers m rejected covering) {range : AddressRange}
    (hrange : o.omitRange? r = some range) : o.Remembers m rejected (some range) := by
  refine ⟨h.rejects, ?_⟩
  intro other heq
  cases heq
  exact omitRange?_eq_some hrange

/-- A region that lies inside the range which is being passed over is not admitted. -/
theorem admits_eq_false_of_covers (h : o.Remembers m rejected covering)
    (hcovers : covering.any fun range => range.covers r.range) : o.admits m r = false := by
  obtain ⟨range, hcovering, hcovers⟩ := (Option.any_eq_true ..).1 hcovers
  obtain ⟨ranges, hranges, hrange⟩ := h.omits range hcovering
  have hsome : (o.omitRange? r).isNone = false := by
    rw [Option.isNone_eq_false_iff, Option.isSome_iff_ne_none]
    intro hnone
    exact omitRange?_eq_none_iff.1 hnone ranges hranges range hrange hcovers
  simp [admits, hsome]

/-- A region whose object is known to be rejected is not admitted. -/
theorem admits_eq_false_of_known (h : o.Remembers m rejected covering)
    (hknown : r.object.any fun object => rejected.contains object.index) :
    o.admits m r = false := by
  obtain ⟨object, hobject, hknown⟩ := (Option.any_eq_true ..).1 hknown
  simp [admits, hobject, h.rejects object hknown]

end Remembers

theorem any_rejectsObject : r.object.any (o.rejectsObject m) =
    (r.object.filter (o.rejectsObject m)).isSome := by
  cases r.object with
  | none => rfl
  | some object =>
    by_cases hrejects : o.rejectsObject m object
    · simp [hrejects]
    · simp [hrejects]

/-- What is remembered makes no difference: the regions that are left are the admitted ones. -/
theorem selectFrom_eq {rejected : IndexSet} {covering : Option AddressRange}
    {regions : List Region} (h : o.Remembers m rejected covering) :
    o.selectFrom m rejected covering regions = (regions.filter (o.admits m)).map Region.id := by
  fun_induction selectFrom o m rejected covering regions with
  | case1 => rfl
  | case2 rejected covering r rest hcovers ih =>
    simp [h.admits_eq_false_of_covers hcovers, ih h]
  | case3 rejected covering r rest _ haccess ih =>
    have hout : o.admits m r = false := by
      simp only [Bool.not_eq_true'] at haccess
      simp [admits, haccess]
    simp [hout, ih h.leave]
  | case4 rejected covering r rest _ _ hknown ih =>
    simp [h.admits_eq_false_of_known hknown, ih h.leave]
  | case5 rejected covering r rest _ _ _ object hobject ih =>
    have hout : o.admits m r = false := by
      simp [admits, any_rejectsObject, hobject]
    have hrejects := (Option.filter_eq_some_iff.1 hobject).2
    simp [hout, ih (h.insert hrejects)]
  | case6 rejected covering r rest _ _ _ _ hregion ih =>
    have hout : o.admits m r = false := by
      simp [admits, hregion]
    simp [hout, ih h.leave]
  | case7 rejected covering r rest _ _ _ _ _ range hrange ih =>
    have hout : o.admits m r = false := by
      simp [admits, hrange]
    simp [hout, ih (h.enter hrange)]
  | case8 rejected covering r rest _ haccess _ hobject hregion hrange hincludes ih =>
    have hin : o.admits m r = true := by
      simp only [Bool.not_eq_true', Bool.not_eq_false] at haccess
      simp only [Bool.not_eq_true] at hregion
      simp [admits, haccess, any_rejectsObject, hobject, hregion, hrange, hincludes]
    simp [hin, ih h.leave]
  | case9 rejected covering r rest _ _ _ _ _ _ hincludes ih =>
    have hout : o.admits m r = false := by
      simp only [Bool.not_eq_true] at hincludes
      simp [admits, hincludes]
    simp [hout, ih h.leave]

/-! ### Selections -/

/-- The regions that meet all conditions, in map order. -/
def admitted (o : Options) (m : MemoryMap) : List RegionId :=
  (m.regions.toList.filter fun r => o.Admits m r).map Region.id

theorem admitted_eq_nil_iff : o.admitted m = [] ↔ ∀ r ∈ m.regions, ¬o.Admits m r := by
  simp [admitted, List.filter_eq_nil_iff]

theorem selectFrom_start (o : Options) (m : MemoryMap) :
    o.selectFrom m ((IndexSet.withCapacity? m.objects.size).getD {}) none m.regions.toList =
      o.admitted m := by
  rw [selectFrom_eq (.start o m m.objects.size), admitted]
  congr 1
  apply List.filter_congr
  intro r _
  rw [Bool.eq_iff_iff, decide_eq_true_eq]
  exact admits_iff

theorem select_of_admits (h : ∃ r ∈ m.regions, o.Admits m r) :
    o.select m = .ok (o.admitted m) := by
  have hne : o.admitted m ≠ [] := by
    intro hnil
    obtain ⟨r, hr, hadmits⟩ := h
    exact admitted_eq_nil_iff.1 hnil r hr hadmits
  rw [select, selectFrom_start]
  split
  · contradiction
  · rfl

theorem select_of_none (h : ∀ r ∈ m.regions, ¬o.Admits m r) :
    o.select m = .error .emptyAreaSet := by
  rw [select, selectFrom_start, admitted_eq_nil_iff.2 h]

end Options

namespace AreaSet

/-- **A selection is the filter by the conditions.**  It fails exactly if no region meets them all,
and an update with the map leaves the earlier selection with its stamp in place then. -/
theorem update_eq_filter (o : Options) (m : MemoryMap) :
    (∀ ids, o.select m = .ok ids ↔ ids = o.admitted m ∧ ∃ r ∈ m.regions, o.Admits m r) ∧
    (∀ cause, o.select m = .error cause ↔
      cause = .emptyAreaSet ∧ ∀ r ∈ m.regions, ¬o.Admits m r) ∧
    ∀ (s : AreaSet) (stamp : Nat), o.map = some m →
      ((∃ r ∈ m.regions, o.Admits m r) → s.update o stamp = (.ok (), ⟨o.admitted m, stamp⟩)) ∧
      ((∀ r ∈ m.regions, ¬o.Admits m r) → s.update o stamp = (.error .emptyAreaSet, s)) := by
  refine ⟨?_, ?_, ?_⟩
  · intro ids
    by_cases h : ∃ r ∈ m.regions, o.Admits m r
    · rw [Options.select_of_admits h, Except.ok.injEq, eq_comm]
      exact ⟨fun heq => ⟨heq, h⟩, And.left⟩
    · have hnone : ∀ r ∈ m.regions, ¬o.Admits m r := fun r hr hadmits => h ⟨r, hr, hadmits⟩
      simp [Options.select_of_none hnone, h]
  · intro cause
    by_cases hnone : ∀ r ∈ m.regions, ¬o.Admits m r
    · rw [Options.select_of_none hnone, Except.error.injEq, eq_comm]
      exact ⟨fun heq => ⟨heq, hnone⟩, And.left⟩
    · have h : ∃ r ∈ m.regions, o.Admits m r := by
        simpa using hnone
      simp [Options.select_of_admits h, hnone]
  · intro s stamp hmap
    have hget : o.getMap = .ok m := by
      rw [Options.getMap, hmap]
      rfl
    refine ⟨?_, ?_⟩
    · intro h
      simp [update, hget, bind, Except.bind, Options.select_of_admits h]
    · intro h
      simp [update, hget, bind, Except.bind, Options.select_of_none h]

end AreaSet

/-! ### Seven regions under mixed conditions -/

/-- Seven regions, five of which four objects own, and one of the objects is blacklisted. -/
def MemoryMap.sevenRegions : MemoryMap where
  regions := #[⟨⟨0⟩, ⟨.ofNat 0x1000, .ofNat 0x2000⟩, ⟨5⟩, some ⟨0⟩⟩,
    ⟨⟨1⟩, ⟨.ofNat 0x2000, .ofNat 0x3000⟩, ⟨3⟩, some ⟨0⟩⟩,
    ⟨⟨2⟩, ⟨.ofNat 0x3000, .ofNat 0x4000⟩, ⟨3⟩, none⟩,
    ⟨⟨3⟩, ⟨.ofNat 0x4000, .ofNat 0x5000⟩, ⟨3⟩, none⟩,
    ⟨⟨4⟩, ⟨.ofNat 0x5000, .ofNat 0x6000⟩, ⟨3⟩, some ⟨1⟩⟩,
    ⟨⟨5⟩, ⟨.ofNat 0x6000, .ofNat 0x7000⟩, ⟨3⟩, some ⟨2⟩⟩,
    ⟨⟨6⟩, ⟨.ofNat 0x8000, .ofNat 0x9000⟩, ⟨3⟩, some ⟨3⟩⟩]
  objects := #[⟨⟨0⟩, "/bin/game", [⟨0⟩, ⟨1⟩], .ofNat 0x1000⟩,
    ⟨⟨1⟩, "/lib/libc.so", [⟨4⟩], .ofNat 0x5000⟩,
    ⟨⟨2⟩, "/dev/dri/card0", [⟨5⟩], .ofNat 0x6000⟩,
    ⟨⟨3⟩, "[heap]", [⟨6⟩], .ofNat 0x8000⟩]

/-- Conditions of each kind.  Two regions lie inside the omitted range. -/
def Options.mixed : Options where
  map := some .sevenRegions
  access := .union .read .write
  omitRegions := some [⟨6⟩]
  exclusiveObjects := some [⟨0⟩, ⟨2⟩, ⟨3⟩]
  omitRanges := some [⟨.ofNat 0x2000, .ofNat 0x4000⟩]
  exclusiveRanges := some [⟨.ofNat 0x3000, .ofNat 0x5000⟩]

theorem AreaSet.update_eq_filter_mixed :
    Options.mixed.map = some .sevenRegions ∧
    Options.mixed.select .sevenRegions = .ok (Options.mixed.admitted .sevenRegions) ∧
    ({} : AreaSet).update .mixed 1 = (.ok (), ⟨Options.mixed.admitted .sevenRegions, 1⟩) := by
  have hadmits : ∃ r ∈ MemoryMap.sevenRegions.regions, Options.mixed.Admits .sevenRegions r := by
    decide +kernel
  obtain ⟨hselect, -, hupdate⟩ := update_eq_filter .mixed .sevenRegions
  exact ⟨rfl, (hselect _).2 ⟨rfl, hadmits⟩, (hupdate {} 1 rfl).1 hadmits⟩

/-- The omitted range wins over the exclusive one that covers region 2, too. -/
example : Options.mixed.admitted .sevenRegions = [⟨3⟩] := by
  decide +kernel

end PointerChains
