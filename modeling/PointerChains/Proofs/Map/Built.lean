import Mathlib.Data.List.Nodup
import PointerChains.Proofs.Map.Entries
import PointerChains.Selection

/-!
# Built maps and their selections

Maps are only made from entries, and selections only from maps.  What the making settles is stated
here once: regions and objects are found at their own references, no two regions share an address,
and a selection lists each region once.

* `MemoryMap.Built` — a map that was made from entries;
* `MemoryMap.Built.region?_id`, `MemoryMap.Built.object?_id` — references are positions;
* `MemoryMap.Built.findObject?_pathname`, `MemoryMap.Built.findObject?_eq_some` — no two objects
  share a pathname, by which they are found;
* `MemoryMap.Built.id_eq_of_contains` — an address lies in one region at most;
* `Options.nodup_select` — a selection from a built map lists each region once.
-/

namespace PointerChains

/-- The map was made from entries. -/
def MemoryMap.Built (m : MemoryMap) : Prop := ∃ entries, MemoryMap.build entries = .ok m

/-! ### Entries in order -/

/-- Positions increase. -/
theorem pairwise_zipIdx {α : Type} (xs : List α) (k : Nat) :
    (xs.zipIdx k).Pairwise fun a b => a.2 < b.2 := by
  have hpositions : ((xs.zipIdx k).map Prod.snd).Pairwise (· < ·) := by
    rw [List.zipIdx_map_snd]
    exact List.pairwise_lt_range' 1
  exact List.pairwise_map.1 hpositions

namespace Mapping

theorem startsBy_iff {d e : Mapping} :
    d.startsBy e ↔ d.range.start.toNat ≤ e.range.start.toNat := by
  rw [startsBy, decide_eq_true_eq, Address.le_iff_toNat_le]

theorem pairwise_startsBy (entries : List Mapping) :
    (entries.mergeSort startsBy).Pairwise fun d e => d.startsBy e := by
  refine List.pairwise_mergeSort ?_ ?_ entries
  · intro d e f hde hef
    rw [startsBy_iff] at hde hef ⊢
    exact Nat.le_trans hde hef
  · intro d e
    rw [Bool.or_eq_true, startsBy_iff, startsBy_iff]
    exact Nat.le_total _ _

/-- Among entries in order, those that do not overlap their neighbours overlap none. -/
theorem pairwise_stop_le {entries : List Mapping}
    (hsorted : entries.Pairwise fun d e => d.startsBy e) (h : firstOverlap? entries = none) :
    entries.Pairwise fun d e => d.range.stop.toNat ≤ e.range.start.toNat := by
  fun_induction firstOverlap? entries with
  | case1 d e rest hlt => cases h
  | case2 d e rest hge ih =>
    obtain ⟨-, hrest⟩ := List.pairwise_cons.1 hsorted
    refine .cons ?_ (ih hrest h)
    have hstop : d.range.stop.toNat ≤ e.range.start.toNat := by
      rw [Address.lt_iff_toNat_lt] at hge
      exact Nat.le_of_not_lt hge
    intro f hf
    rcases List.mem_cons.1 hf with rfl | hf
    · exact hstop
    · exact Nat.le_trans hstop (startsBy_iff.1 ((List.pairwise_cons.1 hrest).1 f hf))
  | case3 entries hshort =>
    cases entries with
    | nil => exact .nil
    | cons d rest =>
      cases rest with
      | nil => exact List.pairwise_singleton ..
      | cons e rest => exact absurd rfl (hshort d e rest)

theorem getElem?_toRegions {entries : List Mapping} {n : Nat} {r : Region}
    (h : (toRegions entries)[n]? = some r) :
    r.id = ⟨n⟩ ∧ ∃ e, entries[n]? = some e ∧ r.range = e.range := by
  rw [toRegions, List.getElem?_map, List.getElem?_zipIdx] at h
  cases hentry : entries[n]? with
  | none => rw [hentry] at h; cases h
  | some e =>
    rw [hentry, Option.map_some, Option.map_some, Option.some.injEq] at h
    subst h
    exact ⟨by rw [Nat.zero_add], e, rfl, rfl⟩

theorem getElem?_toObjects {entries : List Mapping} {n : Nat} {o : MappedObject}
    (h : (toObjects entries)[n]? = some o) : o.id = ⟨n⟩ := by
  rw [toObjects, List.getElem?_map, Option.map_eq_some_iff] at h
  obtain ⟨name, hname, rfl⟩ := h
  obtain ⟨hn, rfl⟩ := List.getElem?_eq_some_iff.1 hname
  exact congrArg ObjectId.mk ((nodup_owners entries).idxOf_getElem n hn)

theorem map_pathname_toObjects (entries : List Mapping) :
    (toObjects entries).map MappedObject.pathname = owners entries := by
  rw [toObjects, List.map_map]
  exact List.map_id _

end Mapping

/-! ### Built maps -/

namespace MemoryMap.Built

variable {m : MemoryMap}

theorem exists_sorted (h : m.Built) : ∃ entries : List Mapping, m = ofOrdered entries ∧
    entries.Pairwise fun d e => d.range.stop.toNat ≤ e.range.start.toNat := by
  obtain ⟨entries, hbuild⟩ := h
  rw [build_eq] at hbuild
  split at hbuild
  · cases hbuild
  · rename_i hnone
    cases hbuild
    exact ⟨_, rfl, Mapping.pairwise_stop_le (Mapping.pairwise_startsBy entries) hnone⟩

/-- A region is found at its own reference. -/
theorem region?_id (h : m.Built) {id : RegionId} {r : Region} (hr : m.region? id = some r) :
    r.id = id := by
  obtain ⟨entries, rfl, -⟩ := h.exists_sorted
  rw [MemoryMap.region?, ofOrdered, List.getElem?_toArray] at hr
  exact (Mapping.getElem?_toRegions hr).1

/-- An object is found at its own reference. -/
theorem object?_id (h : m.Built) {id : ObjectId} {o : MappedObject} (ho : m.object? id = some o) :
    o.id = id := by
  obtain ⟨entries, rfl, -⟩ := h.exists_sorted
  rw [MemoryMap.object?, ofOrdered, List.getElem?_toArray] at ho
  exact Mapping.getElem?_toObjects ho

/-- A pathname finds the object that has it, which is at its own reference. -/
theorem findObject?_eq_some (h : m.Built) {pathname : String} {o : MappedObject}
    (hfind : m.findObject? pathname = some o) :
    m.object? o.id = some o ∧ o.pathname = pathname := by
  obtain ⟨entries, rfl, -⟩ := h.exists_sorted
  rw [findObject?_ofOrdered] at hfind
  by_cases hname : pathname ∈ Mapping.owners entries
  · rw [if_pos hname] at hfind
    cases hfind
    exact ⟨object?_idxOf hname, rfl⟩
  · rw [if_neg hname] at hfind
    cases hfind

/-- An object is found by its pathname, which no other has. -/
theorem findObject?_pathname (h : m.Built) {id : ObjectId} {o : MappedObject}
    (ho : m.object? id = some o) : m.findObject? o.pathname = some o := by
  obtain ⟨entries, rfl, -⟩ := h.exists_sorted
  rw [MemoryMap.object?, ofOrdered, List.getElem?_toArray] at ho
  obtain ⟨name, hname, rfl⟩ := List.mem_map.1 (List.mem_of_getElem? ho)
  rw [findObject?_ofOrdered]
  exact if_pos hname

/-- Of two regions the one in front ends before the other starts. -/
theorem stop_le_start (h : m.Built) {i j : RegionId} {r s : Region} (hr : m.region? i = some r)
    (hs : m.region? j = some s) (hlt : i.index < j.index) :
    r.range.stop.toNat ≤ s.range.start.toNat := by
  obtain ⟨entries, rfl, hpairwise⟩ := h.exists_sorted
  rw [MemoryMap.region?, ofOrdered, List.getElem?_toArray] at hr hs
  obtain ⟨-, d, hd, hrange⟩ := Mapping.getElem?_toRegions hr
  obtain ⟨-, e, he, hrange'⟩ := Mapping.getElem?_toRegions hs
  obtain ⟨hi, rfl⟩ := List.getElem?_eq_some_iff.1 hd
  obtain ⟨hj, rfl⟩ := List.getElem?_eq_some_iff.1 he
  rw [hrange, hrange']
  exact List.pairwise_iff_getElem.1 hpairwise _ _ hi hj hlt

/-- An address lies in one region at most. -/
theorem id_eq_of_contains (h : m.Built) {i j : RegionId} {r s : Region} {a : Address}
    (hr : m.region? i = some r) (hs : m.region? j = some s) (ha : r.range.contains a)
    (ha' : s.range.contains a) : i = j := by
  rw [AddressRange.contains_iff] at ha ha'
  rcases Nat.lt_trichotomy i.index j.index with hlt | heq | hlt
  · have hle := h.stop_le_start hr hs hlt
    omega
  · cases i
    cases j
    exact congrArg RegionId.mk heq
  · have hle := h.stop_le_start hs hr hlt
    omega

theorem nodup_ids (h : m.Built) : (m.regions.toList.map Region.id).Nodup := by
  rw [List.nodup_iff_pairwise_ne, List.pairwise_iff_getElem]
  intro i j hi hj hlt heq
  rw [List.getElem_map, List.getElem_map] at heq
  rw [List.length_map] at hi hj
  have hi' : m.region? ⟨i⟩ = some m.regions.toList[i] := by
    rw [MemoryMap.region?, ← Array.getElem?_toList, List.getElem?_eq_getElem hi]
  have hj' : m.region? ⟨j⟩ = some m.regions.toList[j] := by
    rw [MemoryMap.region?, ← Array.getElem?_toList, List.getElem?_eq_getElem hj]
  rw [h.region?_id hi', h.region?_id hj', RegionId.mk.injEq] at heq
  omega

end MemoryMap.Built

/-! ### Selections -/

namespace Options

/-- Selecting leaves out regions, and keeps the others as they come. -/
theorem sublist_selectFrom (o : Options) (m : MemoryMap) (rejected : IndexSet)
    (covering : Option AddressRange) (regions : List Region) :
    (o.selectFrom m rejected covering regions).Sublist (regions.map Region.id) := by
  fun_induction selectFrom o m rejected covering regions with
  | case1 => exact List.Sublist.refl _
  | case8 rejected covering r rest _ _ _ _ _ _ hincludes ih => exact ih.cons_cons r.id
  | _ => exact List.Sublist.cons _ (by assumption)

theorem nodup_select (o : Options) {m : MemoryMap} (hm : m.Built) {ids : List RegionId}
    (h : o.select m = .ok ids) : ids.Nodup := by
  rw [select] at h
  split at h
  · cases h
  · cases h
    exact (o.sublist_selectFrom m _ _ _).nodup hm.nodup_ids

end Options

/-- The selections that were made so far, by the stamps that they were made under. -/
structure Selections where
  /-- The regions selected under a stamp; none under one that was not given out. -/
  regions : Nat → List RegionId
  /-- Each was selected from a map. -/
  made : ∀ stamp, regions stamp = [] ∨
    ∃ (o : Options) (m : MemoryMap), m.Built ∧ o.select m = .ok (regions stamp)

theorem Selections.nodup_regions (given : Selections) (stamp : Nat) :
    (given.regions stamp).Nodup := by
  rcases given.made stamp with hnil | ⟨o, m, hm, hselect⟩
  · rw [hnil]
    exact List.nodup_nil
  · exact o.nodup_select hm hselect

/-- The selection is the one that was made under its stamp. -/
def AreaSet.IsFrom (s : AreaSet) (given : Selections) : Prop :=
  s.regions = given.regions s.generation

end PointerChains
