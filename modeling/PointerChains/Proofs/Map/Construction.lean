import Mathlib
import PointerChains.Proofs.Map.Built

/-!
# What a map is made of

The entries of a map come in any order.  Entries that hold an address and do not overlap have
distinct starts, so that they can be put in order in one way only, and all that a map tells can be
said about the entries themselves.

* `AddressRange.Apart` — no address lies in both ranges;
* `MemoryMap.exists_build_iff`, `MemoryMap.build_of_perm` — entries make a map exactly if they are
  apart, and in any order the same one;
* `MemoryMap.Describes` — the regions are the entries in order, and the objects their owners;
* `Mapping.owners_before` — owners are numbered by their lowest entries;
* `MemoryMap.build_describes` — **a map is made exactly of entries that are apart, and describes
  them.**
-/

namespace PointerChains

/-! ### Ranges apart -/

/-- No address lies in both ranges. -/
def AddressRange.Apart (r s : AddressRange) : Prop := ∀ x, r.contains x → ¬s.contains x

theorem AddressRange.Apart.symm {r s : AddressRange} (h : r.Apart s) : s.Apart r :=
  fun x hs hr => h x hr hs

/-- Of two ranges that hold an address, the one in front ends before the other starts, if they are
apart. -/
theorem AddressRange.apart_iff {r s : AddressRange} (hs : s.start < s.stop)
    (hle : r.start.toNat ≤ s.start.toNat) : r.Apart s ↔ r.stop.toNat ≤ s.start.toNat := by
  rw [Address.lt_iff_toNat_lt] at hs
  constructor
  · intro h
    have hout := h s.start
    rw [contains_iff, contains_iff] at hout
    omega
  · intro hstop x hx hx'
    rw [contains_iff] at hx hx'
    omega

/-- Things in the order of their starts whose ranges are apart do not overlap their neighbours. -/
theorem AddressRange.not_overlap_of_apart {α : Type} {range : α → AddressRange} {things : List α}
    (hproper : ∀ x ∈ things, (range x).start < (range x).stop)
    (hsorted : things.Pairwise fun x y => (range x).start.toNat ≤ (range y).start.toNat)
    (hapart : things.Pairwise fun x y => (range x).Apart (range y)) {n : Nat} {x y : α}
    (hx : things[n]? = some x) (hy : things[n + 1]? = some y) :
    ¬(range y).start < (range x).stop := by
  obtain ⟨hn, rfl⟩ := List.getElem?_eq_some_iff.1 hx
  obtain ⟨hn', rfl⟩ := List.getElem?_eq_some_iff.1 hy
  have hle := List.pairwise_iff_getElem.1 hsorted n (n + 1) hn hn' (by omega)
  have hstop := (apart_iff (hproper _ (List.getElem_mem hn')) hle).1
      (List.pairwise_iff_getElem.1 hapart n (n + 1) hn hn' (by omega))
  rw [Address.lt_iff_toNat_lt]
  omega

namespace Mapping

variable {entries others : List Mapping} {e : Mapping} {n : Nat} {name : String}

/-! ### Entries in order -/

/-- Entries in order that are apart do not overlap their neighbours. -/
theorem firstOverlap?_of_apart (hproper : ∀ e ∈ entries, e.range.start < e.range.stop)
    (hsorted : entries.Pairwise fun d e => d.startsBy e)
    (hapart : entries.Pairwise fun d e => d.range.Apart e.range) :
    firstOverlap? entries = none := by
  rw [firstOverlap?_eq_none_iff]
  intro n d e hd he
  have hstarts := hsorted.imp startsBy_iff.1
  exact AddressRange.not_overlap_of_apart hproper hstarts hapart hd he

/-- Entries that are apart can be put in order in one way only. -/
theorem mergeSort_eq_of_perm (hproper : ∀ e ∈ entries, e.range.start < e.range.stop)
    (hstops : (entries.mergeSort startsBy).Pairwise
      fun d e => d.range.stop.toNat ≤ e.range.start.toNat)
    (hperm : others.Perm entries) : others.mergeSort startsBy = entries.mergeSort startsBy := by
  have hsame : (others.mergeSort startsBy).Perm (entries.mergeSort startsBy) :=
    (List.mergeSort_perm ..).trans (hperm.trans (List.mergeSort_perm ..).symm)
  refine List.Perm.eq_of_pairwise ?_ (pairwise_startsBy others) (pairwise_startsBy entries) hsame
  intro d e hd he hde hed
  rw [startsBy_iff] at hde hed
  have hd' : d ∈ entries.mergeSort startsBy := hsame.mem_iff.1 hd
  by_contra hne
  have hproper' : ∀ c ∈ entries.mergeSort startsBy, c.range.start.toNat < c.range.stop.toNat :=
    fun c hc => Address.lt_iff_toNat_lt.1 (hproper c (List.mem_mergeSort.1 hc))
  have hd'' := hproper' d hd'
  have he'' := hproper' e he
  obtain ⟨i, hi, rfl⟩ := List.getElem_of_mem hd'
  obtain ⟨j, hj, rfl⟩ := List.getElem_of_mem he
  rcases Nat.lt_trichotomy i j with hlt | rfl | hlt
  · have := List.pairwise_iff_getElem.1 hstops i j hi hj hlt
    omega
  · exact hne rfl
  · have := List.pairwise_iff_getElem.1 hstops j i hj hi hlt
    omega

/-! ### Owners -/

/-- Some entry of the one owner comes before all entries of the other. -/
def Before (entries : List Mapping) (a b : String) : Prop :=
  ∃ (n : Nat) (d : Mapping), entries[n]? = some d ∧ d.owner? = some a ∧
    ∀ (k : Nat) (e : Mapping), entries[k]? = some e → e.owner? = some b → n < k

/-- Owners are numbered by their lowest entries. -/
theorem owners_before (entries : List Mapping) : (owners entries).Pairwise (Before entries) := by
  induction entries using List.reverseRecOn with
  | nil => exact .nil
  | append_singleton entries e ih =>
    rw [owners_concat, List.pairwise_append]
    refine ⟨ih.imp ?_, ?_, ?_⟩
    · intro a b h
      obtain ⟨n, d, hd, hda, hfirst⟩ := h
      obtain ⟨hn, -⟩ := List.getElem?_eq_some_iff.1 hd
      refine ⟨n, d, by rw [List.getElem?_append_left hn, hd], hda, ?_⟩
      intro k c hc hcb
      rcases Nat.lt_or_ge k entries.length with hk | hk
      · rw [List.getElem?_append_left hk] at hc
        exact hfirst k c hc hcb
      · exact Nat.lt_of_lt_of_le hn hk
    · cases e.owner? with
      | none => exact .nil
      | some name => exact (List.pairwise_singleton _ name).filter _
    · intro a ha b hb
      rw [List.mem_filter, decide_eq_true_eq] at hb
      obtain ⟨d, hd, hda⟩ := mem_owners_iff.1 ha
      obtain ⟨n, hn, rfl⟩ := List.getElem_of_mem hd
      refine ⟨n, entries[n], ?_, hda, ?_⟩
      · rw [List.getElem?_append_left hn, List.getElem?_eq_getElem hn]
      · intro k c hc hcb
        rcases Nat.lt_or_ge k entries.length with hk | hk
        · -- an owner that is new owns no entry before
          rw [List.getElem?_append_left hk] at hc
          exact absurd (mem_owners_iff.2 ⟨c, List.mem_of_getElem? hc, hcb⟩) hb.2
        · exact Nat.lt_of_lt_of_le hn hk

theorem pairwise_ownedBy (entries : List Mapping) (name : String) :
    (ownedBy entries name).Pairwise fun d e => d.2 < e.2 :=
  (pairwise_zipIdx entries 0).filter _

theorem mem_owners_of_owner? (hn : entries[n]? = some e) (howner : e.owner? = some name) :
    name ∈ owners entries :=
  mem_owners_iff.2 ⟨e, List.mem_of_getElem? hn, howner⟩

/-! ### Objects by their names -/

theorem mem_regions_namedObject {id : RegionId} : id ∈ (namedObject entries name).regions ↔
    ∃ e, entries[id.index]? = some e ∧ e.owner? = some name := by
  show id ∈ (ownedBy entries name).map (fun e => (⟨e.2⟩ : RegionId)) ↔ _
  rw [List.mem_map]
  constructor
  · rintro ⟨⟨e, n⟩, hmem, rfl⟩
    exact ⟨e, mem_ownedBy_iff.1 hmem⟩
  · rintro ⟨e, hn, howner⟩
    exact ⟨(e, id.index), mem_ownedBy_iff.2 ⟨hn, howner⟩, rfl⟩

/-- The base is the start of the first entry, and no entry of the object starts below it. -/
theorem base_namedObject (hsorted : entries.Pairwise fun d e => d.startsBy e)
    (hname : name ∈ owners entries) :
    (∃ e ∈ entries, e.owner? = some name ∧ e.range.start = (namedObject entries name).base) ∧
    ∀ e ∈ entries, e.owner? = some name →
      (namedObject entries name).base.toNat ≤ e.range.start.toNat := by
  obtain ⟨e, he, howner⟩ := mem_owners_iff.1 hname
  obtain ⟨n, hn, rfl⟩ := List.getElem_of_mem he
  have howned := mem_ownedBy_iff.2 ⟨List.getElem?_eq_getElem hn, howner⟩
  cases hall : ownedBy entries name with
  | nil =>
    rw [hall] at howned
    cases howned
  | cons first rest =>
    have hbase : (namedObject entries name).base = first.1.range.start := by
      simp [namedObject, hall]
    have hordered := pairwise_ownedBy entries name
    rw [hall] at hordered
    obtain ⟨hfirst, hfirst'⟩ := mem_ownedBy_iff.1 (hall ▸ List.mem_cons_self .. :
      (first.1, first.2) ∈ ownedBy entries name)
    refine ⟨⟨first.1, List.mem_of_getElem? hfirst, hfirst', hbase.symm⟩, ?_⟩
    intro d hd hdowner
    obtain ⟨k, hk, rfl⟩ := List.getElem_of_mem hd
    have hmem := mem_ownedBy_iff.2 ⟨List.getElem?_eq_getElem hk, hdowner⟩
    rw [hall] at hmem
    rw [hbase]
    rcases List.mem_cons.1 hmem with rfl | hmem
    · exact Nat.le_refl _
    · obtain ⟨hlt, heq⟩ := List.getElem?_eq_some_iff.1 hfirst
      have hle := List.pairwise_iff_getElem.1 hsorted _ _ hlt hk
        ((List.pairwise_cons.1 hordered).1 _ hmem)
      rw [heq] at hle
      exact startsBy_iff.1 hle

end Mapping

/-! ### Maps and entries -/

namespace MemoryMap

open Mapping (owners ownedBy namedObject)

variable {m : MemoryMap} {entries others : List Mapping}

theorem build_eq_ok_iff : build entries = .ok m ↔
    Mapping.firstOverlap? (entries.mergeSort Mapping.startsBy) = none ∧
      ofOrdered (entries.mergeSort Mapping.startsBy) = m := by
  rw [build_eq]
  cases Mapping.firstOverlap? (entries.mergeSort Mapping.startsBy) with
  | none => simp
  | some range => simp

/-- **Entries make a map exactly if they are apart.** -/
theorem exists_build_iff (hproper : ∀ e ∈ entries, e.range.start < e.range.stop) :
    (∃ m, build entries = .ok m) ↔ entries.Pairwise fun d e => d.range.Apart e.range := by
  have hperm := List.mergeSort_perm entries Mapping.startsBy
  have hsorted := Mapping.pairwise_startsBy entries
  have hproper' : ∀ e ∈ entries.mergeSort Mapping.startsBy, e.range.start < e.range.stop :=
    fun e he => hproper e (List.mem_mergeSort.1 he)
  simp only [build_eq_ok_iff, exists_and_left, exists_eq', and_true]
  rw [← hperm.pairwise_iff fun h => h.symm]
  constructor
  · intro hnone
    have hstops := Mapping.pairwise_stop_le hsorted hnone
    refine (hsorted.and hstops).imp_of_mem ?_
    intro d e _ he h
    exact (AddressRange.apart_iff (hproper' e he) (Mapping.startsBy_iff.1 h.1)).2 h.2
  · exact Mapping.firstOverlap?_of_apart hproper' hsorted

/-- Entries make the same map in any order. -/
theorem build_of_perm (hproper : ∀ e ∈ entries, e.range.start < e.range.stop)
    (hbuild : build entries = .ok m) (hperm : others.Perm entries) : build others = .ok m := by
  rw [build_eq_ok_iff] at hbuild ⊢
  have hstops := Mapping.pairwise_stop_le (Mapping.pairwise_startsBy entries) hbuild.1
  rw [Mapping.mergeSort_eq_of_perm hproper hstops hperm]
  exact hbuild

theorem region?_ofOrdered (entries : List Mapping) (id : RegionId) :
    (ofOrdered entries).region? id = entries[id.index]?.map fun e =>
      { id, range := e.range, access := e.access,
        object := e.owner?.map fun name => ⟨(owners entries).idxOf name⟩ } := by
  rw [region?, ofOrdered, List.getElem?_toArray, Mapping.toRegions, List.getElem?_map,
    List.getElem?_zipIdx, Option.map_map, Nat.zero_add]
  rfl

theorem mem_objects_ofOrdered {o : MappedObject} : o ∈ (ofOrdered entries).objects ↔
    ∃ name ∈ owners entries, namedObject entries name = o := by
  rw [ofOrdered, List.mem_toArray, Mapping.toObjects, List.mem_map]

theorem objectOf?_ofOrdered (entries : List Mapping) (id : RegionId) :
    (ofOrdered entries).objectOf? id =
      (entries[id.index]?.bind Mapping.owner?).map (namedObject entries) := by
  show ((ofOrdered entries).region? id).bind (fun r => r.object.bind _) = _
  rw [region?_ofOrdered]
  cases hentry : entries[id.index]? with
  | none => rfl
  | some e =>
    cases howner : e.owner? with
    | none => simp [howner]
    | some name =>
      have hname := Mapping.mem_owners_of_owner? hentry howner
      simp [howner, object?_idxOf hname]

/-! ### What a map tells -/

/-- The regions are the entries in the order of their addresses, the objects are the owners in the
order of their lowest regions, and the look-ups between them agree. -/
structure Describes (m : MemoryMap) (entries : List Mapping) : Prop where
  /-- Each entry is a region once, with its permissions and its owner. -/
  regions_perm :
    (m.regions.toList.map fun r =>
      (r.range, r.access, (m.objectOf? r.id).map MappedObject.pathname)).Perm
    (entries.map fun e => (e.range, e.access, e.owner?))
  regions_lt : m.regions.toList.Pairwise fun r s =>
    r.range.start < s.range.start ∧ r.range.stop ≤ s.range.start
  region_id : ∀ id r, m.region? id = some r → r.id = id
  object_id : ∀ id o, m.object? id = some o → o.id = id
  /-- The pathnames of the objects are those of the entries that have one. -/
  exists_object_iff : ∀ name, (∃ o ∈ m.objects, o.pathname = name) ↔
    name ≠ "" ∧ ∃ e ∈ entries, e.pathname = name
  pathnames_nodup : (m.objects.toList.map MappedObject.pathname).Nodup
  /-- The lowest region of the one object lies before all regions of a later one. -/
  objects_before : m.objects.toList.Pairwise fun o p =>
    ∃ i ∈ o.regions, ∀ j ∈ p.regions, i.index < j.index
  /-- The regions of an object are the entries with its pathname. -/
  mem_regions_iff : ∀ o ∈ m.objects, ∀ id, id ∈ o.regions ↔
    ∃ r e, m.region? id = some r ∧ e ∈ entries ∧ e.range = r.range ∧ e.pathname = o.pathname
  object_regions_lt : ∀ o ∈ m.objects, o.regions.Pairwise fun i j => i.index < j.index
  /-- The base is the least start of an entry with the pathname. -/
  base : ∀ o ∈ m.objects,
    (∃ e ∈ entries, e.pathname = o.pathname ∧ e.range.start = o.base) ∧
    ∀ e ∈ entries, e.pathname = o.pathname → o.base ≤ e.range.start
  region_object_iff : ∀ id r, m.region? id = some r →
    ∀ k, r.object = some k ↔ ∃ o, m.object? k = some o ∧ id ∈ o.regions
  objectOf?_iff : ∀ id o, m.objectOf? id = some o ↔ o ∈ m.objects ∧ id ∈ o.regions
  findObject?_iff : ∀ name o, m.findObject? name = some o ↔ o ∈ m.objects ∧ o.pathname = name

/-- What a map tells of entries it tells of them in any order. -/
theorem Describes.of_perm (h : m.Describes entries) (hperm : entries.Perm others) :
    m.Describes others :=
  { h with
    regions_perm := h.regions_perm.trans (hperm.map _)
    exists_object_iff := by simpa only [hperm.mem_iff] using h.exists_object_iff
    mem_regions_iff := by simpa only [hperm.mem_iff] using h.mem_regions_iff
    base := by simpa only [hperm.mem_iff] using h.base }

section Ordered

variable (hproper : ∀ e ∈ entries, e.range.start < e.range.stop)
  (hstops : entries.Pairwise fun d e => d.range.stop.toNat ≤ e.range.start.toNat)

include hproper hstops

theorem pairwise_start_lt :
    entries.Pairwise fun d e => d.range.start.toNat < e.range.start.toNat := by
  refine hstops.imp_of_mem ?_
  intro d e hd _ hle
  exact Nat.lt_of_lt_of_le (Address.lt_iff_toNat_lt.1 (hproper d hd)) hle

/-- Entries with one range are one entry. -/
theorem eq_of_range_eq {d e : Mapping} {n : Nat} (hd : entries[n]? = some d) (he : e ∈ entries)
    (hrange : e.range = d.range) : e = d := by
  obtain ⟨hn, rfl⟩ := List.getElem?_eq_some_iff.1 hd
  obtain ⟨k, hk, rfl⟩ := List.getElem_of_mem he
  have hlt := List.pairwise_iff_getElem.1 (pairwise_start_lt hproper hstops)
  rcases Nat.lt_trichotomy k n with hkn | rfl | hkn
  · have := hlt k n hk hn hkn
    rw [hrange] at this
    exact absurd this (Nat.lt_irrefl _)
  · rfl
  · have := hlt n k hn hk hkn
    rw [hrange] at this
    exact absurd this (Nat.lt_irrefl _)

theorem mem_regions_ofOrdered {o : MappedObject} (ho : o ∈ (ofOrdered entries).objects)
    (id : RegionId) : id ∈ o.regions ↔ ∃ r e, (ofOrdered entries).region? id = some r ∧
      e ∈ entries ∧ e.range = r.range ∧ e.pathname = o.pathname := by
  obtain ⟨name, hname, rfl⟩ := mem_objects_ofOrdered.1 ho
  rw [Mapping.mem_regions_namedObject]
  constructor
  · intro h
    obtain ⟨e, hentry, howner⟩ := h
    refine ⟨_, e, by rw [region?_ofOrdered, hentry, Option.map_some],
      List.mem_of_getElem? hentry, rfl, (Mapping.owner?_eq_some_iff.1 howner).2⟩
  · intro h
    obtain ⟨r, e, hregion, he, hrange, hpathname⟩ := h
    rw [region?_ofOrdered, Option.map_eq_some_iff] at hregion
    obtain ⟨d, hentry, rfl⟩ := hregion
    obtain rfl := eq_of_range_eq hproper hstops hentry he hrange
    obtain ⟨d, -, howner⟩ := Mapping.mem_owners_iff.1 hname
    exact ⟨e, hentry,
      Mapping.owner?_eq_some_iff.2 ⟨(Mapping.owner?_eq_some_iff.1 howner).1, hpathname⟩⟩

end Ordered

theorem regions_eq_ofOrdered (entries : List Mapping) :
    ((ofOrdered entries).regions.toList.map fun r => (r.range, r.access,
      ((ofOrdered entries).objectOf? r.id).map MappedObject.pathname)) =
    entries.map fun e => (e.range, e.access, e.owner?) := by
  refine List.ext_getElem? ?_
  intro n
  have hregion := region?_ofOrdered entries ⟨n⟩
  rw [region?, ← Array.getElem?_toList] at hregion
  rw [List.getElem?_map, List.getElem?_map, hregion]
  cases hentry : entries[n]? with
  | none => rfl
  | some e =>
    simp only [hentry, Option.map_some, objectOf?_ofOrdered, Option.bind_some, Option.map_map]
    cases e.owner? with
    | none => rfl
    | some name => rfl

theorem map_range_toRegions (entries : List Mapping) :
    (Mapping.toRegions entries).map Region.range = entries.map Mapping.range := by
  rw [Mapping.toRegions, List.map_map]
  conv_rhs => rw [← List.zipIdx_map_fst 0 entries, List.map_map]
  rfl

theorem exists_object_ofOrdered (name : String) :
    (∃ o ∈ (ofOrdered entries).objects, o.pathname = name) ↔
      name ≠ "" ∧ ∃ e ∈ entries, e.pathname = name := by
  have hobjects : (∃ o ∈ (ofOrdered entries).objects, o.pathname = name) ↔
      name ∈ owners entries := by
    simp only [mem_objects_ofOrdered]
    constructor
    · rintro ⟨_, ⟨other, hother, rfl⟩, rfl⟩
      exact hother
    · intro hname
      exact ⟨_, ⟨name, hname, rfl⟩, rfl⟩
  rw [hobjects, Mapping.mem_owners_iff]
  simp only [Mapping.owner?_eq_some_iff, ← exists_and_left, and_left_comm]

theorem objects_before_ofOrdered (entries : List Mapping) :
    (ofOrdered entries).objects.toList.Pairwise fun o p =>
      ∃ i ∈ o.regions, ∀ j ∈ p.regions, i.index < j.index := by
  rw [ofOrdered, Mapping.toObjects, List.pairwise_map]
  refine (Mapping.owners_before entries).imp ?_
  intro a b h
  obtain ⟨n, d, hd, howner, hfirst⟩ := h
  refine ⟨⟨n⟩, Mapping.mem_regions_namedObject.2 ⟨d, hd, howner⟩, ?_⟩
  intro j hj
  obtain ⟨e, he, howner'⟩ := Mapping.mem_regions_namedObject.1 hj
  exact hfirst j.index e he howner'

theorem objectOf?_ofOrdered_eq_some_iff {id : RegionId} {o : MappedObject} :
    (ofOrdered entries).objectOf? id = some o ↔
      o ∈ (ofOrdered entries).objects ∧ id ∈ o.regions := by
  rw [objectOf?_ofOrdered, mem_objects_ofOrdered, Option.map_eq_some_iff]
  simp only [Option.bind_eq_some_iff]
  constructor
  · rintro ⟨name, ⟨e, hentry, howner⟩, rfl⟩
    exact ⟨⟨name, Mapping.mem_owners_of_owner? hentry howner, rfl⟩,
      Mapping.mem_regions_namedObject.2 ⟨e, hentry, howner⟩⟩
  · rintro ⟨⟨name, -, rfl⟩, hid⟩
    exact ⟨name, Mapping.mem_regions_namedObject.1 hid, rfl⟩

theorem region_object_ofOrdered {id : RegionId} {r : Region} {k : ObjectId}
    (hm : (ofOrdered entries).Built) (hr : (ofOrdered entries).region? id = some r) :
    r.object = some k ↔ ∃ o, (ofOrdered entries).object? k = some o ∧ id ∈ o.regions := by
  rw [region?_ofOrdered, Option.map_eq_some_iff] at hr
  obtain ⟨e, hentry, rfl⟩ := hr
  rw [Option.map_eq_some_iff]
  constructor
  · rintro ⟨name, howner, rfl⟩
    exact ⟨_, object?_idxOf (Mapping.mem_owners_of_owner? hentry howner),
      Mapping.mem_regions_namedObject.2 ⟨e, hentry, howner⟩⟩
  · rintro ⟨o, ho, hid⟩
    have hk := hm.object?_id ho
    obtain ⟨name, -, rfl⟩ := mem_objects_ofOrdered.1 (Array.mem_of_getElem? ho)
    obtain ⟨d, hd, howner⟩ := Mapping.mem_regions_namedObject.1 hid
    rw [hentry, Option.some.injEq] at hd
    exact ⟨name, by rw [hd, howner], hk⟩

theorem findObject?_eq_some_iff (hm : m.Built) {name : String} {o : MappedObject} :
    m.findObject? name = some o ↔ o ∈ m.objects ∧ o.pathname = name := by
  constructor
  · intro h
    obtain ⟨hfound, hname⟩ := hm.findObject?_eq_some h
    exact ⟨Array.mem_of_getElem? hfound, hname⟩
  · rintro ⟨ho, rfl⟩
    obtain ⟨k, hk, rfl⟩ := Array.getElem_of_mem ho
    have hfound : m.object? ⟨k⟩ = some m.objects[k] := Array.getElem?_eq_getElem hk
    exact hm.findObject?_pathname hfound

/-- The map of entries in order describes them. -/
theorem describes_ofOrdered (hproper : ∀ e ∈ entries, e.range.start < e.range.stop)
    (hstops : entries.Pairwise fun d e => d.range.stop.toNat ≤ e.range.start.toNat)
    (hm : (ofOrdered entries).Built) : (ofOrdered entries).Describes entries where
  regions_perm := by rw [regions_eq_ofOrdered]
  regions_lt := by
    have hranges : ((Mapping.toRegions entries).map Region.range).Pairwise
        fun r s => r.start < s.start ∧ r.stop ≤ s.start := by
      rw [map_range_toRegions, List.pairwise_map]
      refine ((pairwise_start_lt hproper hstops).and hstops).imp ?_
      intro d e h
      exact ⟨Address.lt_iff_toNat_lt.2 h.1, Address.le_iff_toNat_le.2 h.2⟩
    exact List.pairwise_map.1 hranges
  region_id id r := hm.region?_id
  object_id id o := hm.object?_id
  exists_object_iff := exists_object_ofOrdered
  pathnames_nodup := by
    rw [ofOrdered, Mapping.map_pathname_toObjects]
    exact Mapping.nodup_owners entries
  objects_before := objects_before_ofOrdered entries
  mem_regions_iff o := mem_regions_ofOrdered hproper hstops
  object_regions_lt := by
    intro o ho
    obtain ⟨name, -, rfl⟩ := mem_objects_ofOrdered.1 ho
    exact List.pairwise_map.2 (Mapping.pairwise_ownedBy entries name)
  base := by
    intro o ho
    obtain ⟨name, hname, rfl⟩ := mem_objects_ofOrdered.1 ho
    have hsorted : entries.Pairwise fun d e => d.startsBy e :=
      (pairwise_start_lt hproper hstops).imp fun h => Mapping.startsBy_iff.2 (Nat.le_of_lt h)
    have hnonempty : name ≠ "" := by
      obtain ⟨e, -, howner⟩ := Mapping.mem_owners_iff.1 hname
      exact (Mapping.owner?_eq_some_iff.1 howner).1
    have howner : ∀ e : Mapping, e.owner? = some name ↔ e.pathname = name := by
      intro e
      rw [Mapping.owner?_eq_some_iff]
      exact and_iff_right hnonempty
    have hbase := Mapping.base_namedObject hsorted hname
    simp only [howner, ← Address.le_iff_toNat_le] at hbase
    exact hbase
  region_object_iff id r hr k := region_object_ofOrdered hm hr
  objectOf?_iff id o := objectOf?_ofOrdered_eq_some_iff
  findObject?_iff name o := findObject?_eq_some_iff hm

/-- **A map is made exactly of entries that are apart, and describes them.**  It does not depend on
the order in which the entries come. -/
theorem build_describes (hproper : ∀ e ∈ entries, e.range.start < e.range.stop) :
    ((∃ m, build entries = .ok m) ↔ entries.Pairwise fun d e => d.range.Apart e.range) ∧
    ∀ m, build entries = .ok m →
      m.Describes entries ∧ ∀ others, others.Perm entries → build others = .ok m := by
  refine ⟨exists_build_iff hproper, ?_⟩
  intro m hbuild
  refine ⟨?_, fun others hperm => build_of_perm hproper hbuild hperm⟩
  have hm : m.Built := ⟨entries, hbuild⟩
  obtain ⟨hnone, rfl⟩ := build_eq_ok_iff.1 hbuild
  have hstops := Mapping.pairwise_stop_le (Mapping.pairwise_startsBy entries) hnone
  refine (describes_ofOrdered ?_ hstops hm).of_perm (List.mergeSort_perm ..)
  intro e he
  exact hproper e (List.mem_mergeSort.1 he)

/-- The regions of a library with memory of nobody between them, below a program, in no order. -/
def fourEntries : List Mapping :=
  [⟨⟨.ofNat 0x3000, .ofNat 0x4000⟩, .none, "/lib/a"⟩,
    ⟨⟨.ofNat 0x8000, .ofNat 0x9000⟩, .none, "/bin/b"⟩,
    ⟨⟨.ofNat 0x1000, .ofNat 0x2000⟩, .none, "/lib/a"⟩,
    ⟨⟨.ofNat 0x2000, .ofNat 0x3000⟩, .none, ""⟩]

theorem build_describes_fourEntries :
    (∀ e ∈ fourEntries, e.range.start < e.range.stop) ∧
    ∃ m, build fourEntries = .ok m ∧ m.Describes fourEntries ∧
      build fourEntries.reverse = .ok m ∧
      fourEntries.Pairwise fun d e => d.range.Apart e.range := by
  have hproper : ∀ e ∈ fourEntries, e.range.start < e.range.stop := by decide
  obtain ⟨hiff, hmap⟩ := build_describes hproper
  have hmade : (build fourEntries).isOk = true := by cbv
  cases hbuild : build fourEntries with
  | error cause =>
    rw [hbuild] at hmade
    cases hmade
  | ok m =>
    obtain ⟨hdescribes, hother⟩ := hmap m hbuild
    exact ⟨hproper, m, rfl, hdescribes, hother _ (List.reverse_perm _), hiff.1 ⟨m, hbuild⟩⟩

/-- The library is the first object, and its base is that of its lower region. -/
example : (build fourEntries).toOption.map (fun m =>
    m.objects.toList.map fun o => (o.pathname, o.regions, o.base)) =
      some [("/lib/a", [⟨0⟩, ⟨2⟩], .ofNat 0x1000), ("/bin/b", [⟨3⟩], .ofNat 0x8000)] := by
  cbv

end MemoryMap

end PointerChains
