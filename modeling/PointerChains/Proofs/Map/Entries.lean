import Mathlib.Data.List.Nodup
import PointerChains.Map.Basic

/-!
# Maps entry by entry

A map is made of its entries one after the other, in address order: each is held against the one in
front of it, and its owner is looked up among those that were seen before.  What comes of it is said
here of all entries at once.  The regions are the entries at their positions, the owners are
numbered in the order in which they first come, and to each belong the entries that it owns.

* `Mapping.firstOverlap?` — the entry that is refused;
* `Mapping.owners`, `Mapping.namedObject` — who owns entries, and what an owner owns;
* `MemoryMap.ofOrdered` — the map of entries that are in order;
* `MemoryMap.Draft.Of`, `MemoryMap.Draft.Of.add` — what the entries so far make, and one more entry;
* `MemoryMap.build_eq` — **making a map entry by entry is making it of all entries at once.**
-/

namespace PointerChains

namespace Mapping

variable {entries : List Mapping} {e : Mapping} {n : Nat} {name : String}

/-! ### Overlaps -/

/-- The range of the first entry that starts before the entry in front of it ends. -/
def firstOverlap? : List Mapping → Option AddressRange
  | d :: e :: rest =>
    if e.range.start < d.range.stop then some e.range else firstOverlap? (e :: rest)
  | _ => none

theorem firstOverlap?_eq_none_iff {entries : List Mapping} :
    firstOverlap? entries = none ↔
      ∀ n d e, entries[n]? = some d → entries[n + 1]? = some e →
        ¬e.range.start < d.range.stop := by
  fun_induction firstOverlap? entries with
  | case1 d e rest h =>
    simp only [reduceCtorEq, false_iff]
    exact fun hall => hall 0 d e rfl rfl h
  | case2 d e rest h ih =>
    rw [ih]
    constructor
    · intro hall n x y hx hy
      cases n with
      | zero =>
        cases hx; cases hy
        exact h
      | succ n => exact hall n x y hx hy
    · exact fun hall n x y hx hy => hall (n + 1) x y hx hy
  | case3 entries h =>
    simp only [true_iff]
    intro n d e hd he
    exfalso
    match entries, h with
    | [], _ => simp at hd
    | [_], _ => simp at he
    | d :: e :: rest, h => exact h d e rest rfl

/-! ### Owners -/

/-- The pathnames of the owners, each once, in the order of their first entries. -/
def owners (entries : List Mapping) : List String :=
  (entries.filterMap owner?).eraseDups

/-- The entries with their positions that belong to one owner. -/
def ownedBy (entries : List Mapping) (pathname : String) : List (Mapping × Nat) :=
  entries.zipIdx.filter fun e => e.1.owner? == some pathname

/-- The object with a name. -/
def namedObject (entries : List Mapping) (name : String) : MappedObject :=
  let owned := ownedBy entries name
  { id := ⟨(owners entries).idxOf name⟩, pathname := name, regions := owned.map fun e => ⟨e.2⟩,
    base := (owned.head?.map fun e => e.1.range.start).getD .null }

/-- The regions for entries in address order. -/
def toRegions (entries : List Mapping) : List Region :=
  entries.zipIdx.map fun (e, n) =>
    { id := ⟨n⟩, range := e.range, access := e.access,
      object := e.owner?.map fun name => ⟨(owners entries).idxOf name⟩ }

/-- The objects for entries in address order. -/
def toObjects (entries : List Mapping) : List MappedObject :=
  (owners entries).map (namedObject entries)

theorem nodup_eraseDups (names : List String) : names.eraseDups.Nodup := by
  cases names with
  | nil => exact List.nodup_nil
  | cons name names =>
    rw [List.eraseDups_cons, List.nodup_cons]
    refine ⟨?_, nodup_eraseDups _⟩
    simp
termination_by names.length
decreasing_by exact Nat.lt_succ_of_le (List.length_filter_le ..)

theorem owner?_eq_some_iff : e.owner? = some name ↔ name ≠ "" ∧ e.pathname = name := by
  rw [owner?]
  by_cases h : e.pathname = ""
  · rw [if_pos h, h]
    simp [eq_comm]
  · rw [if_neg h, Option.some.injEq]
    constructor
    · rintro rfl
      exact ⟨h, rfl⟩
    · exact And.right

theorem mem_owners_iff : name ∈ owners entries ↔ ∃ e ∈ entries, e.owner? = some name := by
  rw [owners, List.mem_eraseDups, List.mem_filterMap]

/-- A further entry adds its owner, unless it owns an entry before. -/
theorem owners_concat (entries : List Mapping) (e : Mapping) : owners (entries ++ [e]) =
    owners entries ++ e.owner?.toList.filter fun name => name ∉ owners entries := by
  rw [owners, List.filterMap_append, List.eraseDups_append, ← owners]
  congr 1
  cases howner : e.owner? with
  | none => simp [howner]
  | some name =>
    have hnew : [e].filterMap owner? = [name] := by simp [howner]
    rw [hnew, List.removeAll]
    by_cases hmem : name ∈ owners entries
    · have hmem' : (entries.filterMap owner?).elem name = true := by
        simpa using List.mem_eraseDups.1 hmem
      simp only [List.filter_cons, List.filter_nil, hmem', Option.toList_some, hmem]
      rfl
    · have hmem' : (entries.filterMap owner?).elem name = false := by
        simpa using fun h => hmem (List.mem_eraseDups.2 h)
      simp only [List.filter_cons, List.filter_nil, hmem', Option.toList_some, hmem]
      rfl

theorem nodup_owners (entries : List Mapping) : (owners entries).Nodup := nodup_eraseDups _

theorem mem_ownedBy_iff : (e, n) ∈ ownedBy entries name ↔
    entries[n]? = some e ∧ e.owner? = some name := by
  rw [ownedBy, List.mem_filter, List.mem_zipIdx_iff_getElem?, beq_iff_eq]

theorem ownedBy_ne_nil (h : name ∈ owners entries) : ownedBy entries name ≠ [] := by
  obtain ⟨e, he, howner⟩ := mem_owners_iff.1 h
  obtain ⟨n, hn⟩ := List.getElem?_of_mem he
  exact List.ne_nil_of_mem (mem_ownedBy_iff.2 ⟨hn, howner⟩)

theorem ownedBy_eq_nil (h : name ∉ owners entries) : ownedBy entries name = [] := by
  rw [List.eq_nil_iff_forall_not_mem]
  rintro ⟨e, n⟩ hmem
  obtain ⟨hn, howner⟩ := mem_ownedBy_iff.1 hmem
  exact h (mem_owners_iff.2 ⟨e, List.mem_of_getElem? hn, howner⟩)

/-! ### One more entry -/

theorem ownedBy_concat (entries : List Mapping) (e : Mapping) (name : String) :
    ownedBy (entries ++ [e]) name =
      ownedBy entries name ++ if e.owner? = some name then [(e, entries.length)] else [] := by
  rw [ownedBy, List.zipIdx_append, List.filter_append, ← ownedBy]
  congr 1
  by_cases howner : e.owner? = some name
  · simp [howner]
  · simp [howner]

/-- An owner that was seen before keeps its number and its base. -/
theorem namedObject_concat (h : name ∈ owners entries) (e : Mapping) :
    namedObject (entries ++ [e]) name = { namedObject entries name with
      regions := (namedObject entries name).regions ++
        if e.owner? = some name then [⟨entries.length⟩] else [] } := by
  have hid : (owners (entries ++ [e])).idxOf name = (owners entries).idxOf name := by
    rw [owners_concat, List.idxOf_append_of_mem h]
  have hbase : (ownedBy entries name ++
      if e.owner? = some name then [(e, entries.length)] else []).head? =
        (ownedBy entries name).head? :=
    List.head?_append_of_ne_nil _ (ownedBy_ne_nil h)
  simp only [namedObject, hid, ownedBy_concat, hbase, List.map_append]
  by_cases howner : e.owner? = some name
  · simp only [if_pos howner, List.map_cons, List.map_nil]
  · simp only [if_neg howner, List.map_nil]

/-- A new owner is numbered behind the others, and based at its first entry. -/
theorem namedObject_new (h : name ∉ owners entries) (howner : e.owner? = some name) :
    namedObject (entries ++ [e]) name =
      { id := ⟨(owners entries).length⟩, pathname := name, regions := [⟨entries.length⟩],
        base := e.range.start } := by
  have hid : (owners (entries ++ [e])).idxOf name = (owners entries).length := by
    simp [owners_concat, howner, h, List.idxOf_append_of_notMem]
  simp [namedObject, hid, ownedBy_concat, ownedBy_eq_nil h, howner]

theorem toRegions_concat (entries : List Mapping) (e : Mapping) : toRegions (entries ++ [e]) =
    toRegions entries ++
      [{ id := ⟨entries.length⟩, range := e.range, access := e.access,
         object := e.owner?.map fun name => ⟨(owners (entries ++ [e])).idxOf name⟩ }] := by
  rw [toRegions, List.zipIdx_append, List.map_append, toRegions]
  congr 1
  · refine List.map_congr_left ?_
    rintro ⟨d, n⟩ hmem
    cases howner : d.owner? with
    | none => simp only [howner, Option.map_none]
    | some name =>
      have hseen : name ∈ owners entries :=
        mem_owners_iff.2 ⟨d, List.mem_of_getElem? (List.mem_zipIdx_iff_getElem?.1 hmem), howner⟩
      simp only [howner, Option.map_some, owners_concat, List.idxOf_append_of_mem hseen]
  · simp

/-- An entry of an owner that was seen before is one more region of its object. -/
theorem toObjects_concat_of_mem (h : name ∈ owners entries) (howner : e.owner? = some name) :
    toObjects (entries ++ [e]) = (toObjects entries).modify ((owners entries).idxOf name)
      fun o => { o with regions := o.regions ++ [⟨entries.length⟩] } := by
  have howners : owners (entries ++ [e]) = owners entries := by
    simp [owners_concat, howner, h]
  refine List.ext_getElem? ?_
  intro i
  rw [List.getElem?_modify, toObjects, howners, List.getElem?_map, toObjects, List.getElem?_map]
  cases hi : (owners entries)[i]? with
  | none => simp
  | some other =>
    have hother : other ∈ owners entries := List.mem_of_getElem? hi
    obtain ⟨hlt, heq⟩ := List.getElem?_eq_some_iff.1 hi
    have hposition := (nodup_owners entries).idxOf_getElem i hlt
    rw [heq] at hposition
    simp only [Option.map_some, namedObject_concat hother, howner, Option.some.injEq]
    by_cases hsame : name = other
    · subst hsame
      simp [hposition]
    · have hne : (owners entries).idxOf name ≠ i := by
        rw [← hposition]
        exact fun hidx => hsame ((List.idxOf_inj h).1 hidx)
      simp [hsame, hne]

/-- An entry of a new owner makes an object. -/
theorem toObjects_concat_new (h : name ∉ owners entries) (howner : e.owner? = some name) :
    toObjects (entries ++ [e]) = toObjects entries ++
      [{ id := ⟨(owners entries).length⟩, pathname := name, regions := [⟨entries.length⟩],
         base := e.range.start }] := by
  have howners : owners (entries ++ [e]) = owners entries ++ [name] := by
    simp [owners_concat, howner, h]
  rw [toObjects, howners, List.map_append, List.map_singleton, namedObject_new h howner, toObjects]
  congr 1
  refine List.map_congr_left ?_
  intro other hother
  have hne : name ≠ other := fun heq => h (heq ▸ hother)
  simp [namedObject_concat hother, howner, hne]

theorem toObjects_concat_none (howner : e.owner? = none) :
    toObjects (entries ++ [e]) = toObjects entries := by
  have howners : owners (entries ++ [e]) = owners entries := by
    simp [owners_concat, howner]
  rw [toObjects, howners, toObjects]
  refine List.map_congr_left ?_
  intro other hother
  simp [namedObject_concat hother, howner]

end Mapping

/-! ### Drafts -/

namespace MemoryMap

open Mapping (owners namedObject firstOverlap? toRegions toObjects)

variable {entries : List Mapping} {e : Mapping} {name : String}

/-- The map of entries that are in order. -/
def ofOrdered (entries : List Mapping) : MemoryMap where
  regions := (toRegions entries).toArray
  objects := (toObjects entries).toArray

theorem byPathname_ofOrdered (entries : List Mapping) : (ofOrdered entries).byPathname =
    (owners entries).map fun name => (name, ⟨(owners entries).idxOf name⟩) := by
  show ((toObjects entries).toArray.toList.map fun o => (o.pathname, o.id)) = _
  rw [toObjects, List.map_map]
  rfl

/-- The index tells of each owner its number. -/
theorem lookup_ofOrdered (entries : List Mapping) (name : String) :
    (ofOrdered entries).byPathname.lookup name =
      if name ∈ owners entries then some ⟨(owners entries).idxOf name⟩ else none := by
  have hlookup : ∀ names : List String,
      (names.map fun name => (name, (⟨(owners entries).idxOf name⟩ : ObjectId))).lookup name =
        if name ∈ names then some ⟨(owners entries).idxOf name⟩ else none := by
    intro names
    induction names with
    | nil => rfl
    | cons other names ih =>
      rw [List.map_cons, List.lookup_cons, ih]
      by_cases hname : name = other
      · subst hname
        simp
      · simp [hname, beq_eq_false_iff_ne.2 hname]
  rw [byPathname_ofOrdered]
  exact hlookup (owners entries)

theorem object?_idxOf {name : String} (h : name ∈ owners entries) :
    (ofOrdered entries).object? ⟨(owners entries).idxOf name⟩ =
      some (namedObject entries name) := by
  rw [object?, ofOrdered, List.getElem?_toArray, toObjects, List.getElem?_map,
    List.getElem?_idxOf h, Option.map_some]

/-- A pathname finds the object of its owner. -/
theorem findObject?_ofOrdered (entries : List Mapping) (name : String) :
    (ofOrdered entries).findObject? name =
      if name ∈ owners entries then some (namedObject entries name) else none := by
  show ((ofOrdered entries).byPathname.lookup name).bind (ofOrdered entries).object? = _
  rw [lookup_ofOrdered]
  by_cases hname : name ∈ owners entries
  · rw [if_pos hname, if_pos hname]
    exact object?_idxOf hname
  · rw [if_neg hname, if_neg hname]
    rfl

theorem size_objects_ofOrdered (entries : List Mapping) :
    (ofOrdered entries).objects.size = (owners entries).length := by
  simp [ofOrdered, toObjects]

namespace Draft

variable {d : Draft}

/-- The entries so far make what they make at once. -/
structure Of (d : Draft) (entries : List Mapping) : Prop where
  regions_eq : d.regions = (ofOrdered entries).regions
  objects_eq : d.objects = (ofOrdered entries).objects
  byPathname_eq : d.byPathname = (ofOrdered entries).byPathname
  lastStop_eq : d.lastStop = entries.getLast?.map fun e => e.range.stop

theorem of_nil : Of {} [] := ⟨rfl, rfl, rfl, rfl⟩

/-- What is changed at the end of an array might as well be changed before it is put there. -/
theorem modify_push_size {α : Type} (xs : Array α) (a : α) (f : α → α) :
    (xs.push a).modify xs.size f = xs.push (f a) := by
  refine Array.ext_getElem? ?_
  intro i
  rw [Array.getElem?_modify, Array.getElem?_push, Array.getElem?_push]
  by_cases hi : i = xs.size
  · simp [hi]
  · simp [hi, Ne.symm hi]

/-- An owner that was seen before has its number in the index. -/
theorem Of.own_of_mem (h : d.Of entries) (hseen : name ∈ owners entries)
    (howner : e.owner? = some name) : d.own name e.range.start ⟨entries.length⟩ =
      (⟨(owners (entries ++ [e])).idxOf name⟩, { d with
        objects := (ofOrdered (entries ++ [e])).objects
        byPathname := (ofOrdered (entries ++ [e])).byPathname }) := by
  have howners : owners (entries ++ [e]) = owners entries := by
    simp [Mapping.owners_concat, howner, hseen]
  have hlookup := lookup_ofOrdered entries name
  rw [if_pos hseen, ← h.byPathname_eq] at hlookup
  have hobjects : (ofOrdered (entries ++ [e])).objects =
      d.objects.modify ((owners entries).idxOf name)
        fun o => { o with regions := o.regions ++ [⟨entries.length⟩] } := by
    rw [h.objects_eq, ofOrdered, ofOrdered, Mapping.toObjects_concat_of_mem hseen howner,
      List.modify_toArray]
  have hindex : (ofOrdered (entries ++ [e])).byPathname = d.byPathname := by
    rw [byPathname_ofOrdered, howners, ← byPathname_ofOrdered, h.byPathname_eq]
  rw [hobjects, hindex, howners, own, intern, hlookup]

/-- A new owner gets the next number, which goes into the index. -/
theorem Of.own_new (h : d.Of entries) (hnew : name ∉ owners entries)
    (howner : e.owner? = some name) : d.own name e.range.start ⟨entries.length⟩ =
      (⟨(owners (entries ++ [e])).idxOf name⟩, { d with
        objects := (ofOrdered (entries ++ [e])).objects
        byPathname := (ofOrdered (entries ++ [e])).byPathname }) := by
  have howners : owners (entries ++ [e]) = owners entries ++ [name] := by
    simp [Mapping.owners_concat, howner, hnew]
  have hid : (owners (entries ++ [e])).idxOf name = d.objects.size := by
    rw [howners, h.objects_eq, size_objects_ofOrdered]
    simp [List.idxOf_append_of_notMem hnew]
  have hlookup := lookup_ofOrdered entries name
  rw [if_neg hnew, ← h.byPathname_eq] at hlookup
  have hobjects : (ofOrdered (entries ++ [e])).objects = d.objects.push
      { id := ⟨d.objects.size⟩, pathname := name, regions := [⟨entries.length⟩],
        base := e.range.start } := by
    rw [h.objects_eq, size_objects_ofOrdered, ofOrdered, ofOrdered,
      Mapping.toObjects_concat_new hnew howner, List.push_toArray]
  have hindex : (ofOrdered (entries ++ [e])).byPathname =
      d.byPathname ++ [(name, ⟨d.objects.size⟩)] := by
    rw [byPathname_ofOrdered, ← hid, h.byPathname_eq, byPathname_ofOrdered, howners,
      List.map_append, List.map_singleton]
    congr 1
    refine List.map_congr_left ?_
    intro other hother
    rw [List.idxOf_append_of_mem hother]
  rw [hobjects, hindex, hid, own, intern, hlookup]
  simp only [modify_push_size]
  rfl

/-- One more entry, which starts where the last one ends or behind. -/
theorem Of.add (h : d.Of entries) (hstart : d.lastStop.any (e.range.start < ·) = false) :
    ∃ next, d.add e = .ok next ∧ next.Of (entries ++ [e]) := by
  have hsize : d.regions.size = entries.length := by
    rw [h.regions_eq]
    simp [ofOrdered, toRegions]
  have hregions : (ofOrdered (entries ++ [e])).regions = d.regions.push
      { id := ⟨entries.length⟩, range := e.range, access := e.access,
        object := e.owner?.map fun name => ⟨(owners (entries ++ [e])).idxOf name⟩ } := by
    rw [h.regions_eq, ofOrdered, ofOrdered, Mapping.toRegions_concat, List.push_toArray]
  have hlast : (some e.range.stop) = (entries ++ [e]).getLast?.map fun e => e.range.stop := by
    rw [List.getLast?_concat, Option.map_some]
  rw [Draft.add, hstart, hsize]
  cases howner : e.owner? with
  | none =>
    rw [howner] at hregions
    refine ⟨_, rfl, hregions.symm, ?_, ?_, hlast⟩
    · rw [ofOrdered, Mapping.toObjects_concat_none howner]
      exact h.objects_eq
    · have howners : owners (entries ++ [e]) = owners entries := by
        simp [Mapping.owners_concat, howner]
      rw [byPathname_ofOrdered, howners, ← byPathname_ofOrdered]
      exact h.byPathname_eq
  | some name =>
    rw [howner] at hregions
    have hown : d.own name e.range.start ⟨entries.length⟩ = _ :=
      if hseen : name ∈ owners entries then h.own_of_mem hseen howner else h.own_new hseen howner
    simp only [hown]
    exact ⟨_, rfl, hregions.symm, rfl, rfl, hlast⟩

end Draft

/-- The entries behind others are added up to the first that overlaps the one in front of it. -/
theorem foldlM_add {d : Draft} (h : d.Of entries) (rest : List Mapping) :
    (∀ range, firstOverlap? (entries.getLast?.toList ++ rest) = some range →
      rest.foldlM Draft.add d = .error (.invalidOption (.overlappingRegion range))) ∧
    (firstOverlap? (entries.getLast?.toList ++ rest) = none →
      ∃ all, rest.foldlM Draft.add d = .ok all ∧ all.Of (entries ++ rest)) := by
  induction rest generalizing entries d with
  | nil =>
    constructor
    · intro range hoverlap
      cases hlast : entries.getLast? with
      | none => rw [hlast] at hoverlap; cases hoverlap
      | some last => rw [hlast] at hoverlap; cases hoverlap
    · intro _
      rw [List.append_nil]
      exact ⟨d, rfl, h⟩
  | cons e rest ih =>
    have hnext : d.lastStop.any (e.range.start < ·) = false →
        (∀ range, firstOverlap? (e :: rest) = some range →
          (e :: rest).foldlM Draft.add d = .error (.invalidOption (.overlappingRegion range))) ∧
        (firstOverlap? (e :: rest) = none →
          ∃ all, (e :: rest).foldlM Draft.add d = .ok all ∧ all.Of (entries ++ e :: rest)) := by
      intro hstart
      obtain ⟨next, hadd, hof⟩ := h.add hstart
      have hrest := ih hof
      rw [List.getLast?_concat, List.append_assoc] at hrest
      rw [List.foldlM_cons, hadd]
      exact hrest
    cases hlast : entries.getLast? with
    | none =>
      refine hnext ?_
      rw [h.lastStop_eq, hlast]
      rfl
    | some last =>
      have hstop : d.lastStop = some last.range.stop := by
        rw [h.lastStop_eq, hlast, Option.map_some]
      show (∀ range, firstOverlap? (last :: e :: rest) = some range → _) ∧
        (firstOverlap? (last :: e :: rest) = none → _)
      rw [firstOverlap?]
      by_cases hlt : e.range.start < last.range.stop
      · rw [if_pos hlt]
        constructor
        · intro range hrange
          cases hrange
          rw [List.foldlM_cons, Draft.add, hstop, Option.any_some, if_pos (decide_eq_true hlt)]
          rfl
        · intro hnone
          cases hnone
      · rw [if_neg hlt]
        refine hnext ?_
        rw [hstop, Option.any_some, decide_eq_false hlt]

/-- **Making a map entry by entry is making it of all entries at once**, unless one overlaps the one
in front of it. -/
theorem build_eq (entries : List Mapping) : build entries =
    match firstOverlap? (entries.mergeSort Mapping.startsBy) with
    | some range => .error (.invalidOption (.overlappingRegion range))
    | none => .ok (ofOrdered (entries.mergeSort Mapping.startsBy)) := by
  obtain ⟨hfails, hmakes⟩ := foldlM_add Draft.of_nil (entries.mergeSort Mapping.startsBy)
  rw [build]
  cases hoverlap : firstOverlap? (entries.mergeSort Mapping.startsBy) with
  | some range =>
    rw [hfails range hoverlap]
    rfl
  | none =>
    obtain ⟨all, hall, hof⟩ := hmakes hoverlap
    rw [hall]
    show Except.ok (MemoryMap.mk all.regions all.objects all.byPathname) = _
    rw [hof.regions_eq, hof.objects_eq, hof.byPathname_eq]
    rfl

end MemoryMap

end PointerChains
