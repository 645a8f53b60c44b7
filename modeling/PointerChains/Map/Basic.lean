import PointerChains.Access
import PointerChains.Error

/-!
# Memory maps

A memory map lists the regions of a process in address order, with the objects (executables and
libraries) that own some of them.

* `Region`, `MappedObject`, `MemoryMap` with its look-ups;
* `Mapping` — one entry of a map in the making;
* `MemoryMap.Draft` — what the entries so far make;
* `MemoryMap.build` — sorts the entries, refuses overlaps and numbers regions and objects.
-/

namespace PointerChains

/-- One contiguous piece of mapped memory. -/
structure Region where
  id : RegionId
  range : AddressRange
  access : Access
  /-- The object that owns the region. -/
  object : Option ObjectId
  deriving DecidableEq, Repr, Inhabited

/-- The number of bytes in a region. -/
def Region.size (r : Region) : Nat := r.range.size

/-- Something that owns regions, such as an executable or a library. -/
structure MappedObject where
  id : ObjectId
  pathname : String
  /-- The regions of the object, in address order. -/
  regions : List RegionId
  /-- The start of the lowest region. -/
  base : Address
  deriving DecidableEq, Repr, Inhabited

/-- The regions of a process in address order, and the objects in the order of their lowest
regions. -/
structure MemoryMap where
  regions : Array Region
  objects : Array MappedObject
  /-- The references of the objects by their pathnames. -/
  byPathname : List (String × ObjectId) := objects.toList.map fun o => (o.pathname, o.id)
  deriving DecidableEq, Repr, Inhabited

namespace MemoryMap

/-- The region with a given reference. -/
def region? (m : MemoryMap) (id : RegionId) : Option Region := m.regions[id.index]?

/-- The object with a given reference. -/
def object? (m : MemoryMap) (id : ObjectId) : Option MappedObject := m.objects[id.index]?

/-- The region that holds an address. -/
def findRegion? (m : MemoryMap) (a : Address) : Option Region :=
  AddressRange.find? Region.range m.regions a

/-- The object with a given pathname. -/
def findObject? (m : MemoryMap) (pathname : String) : Option MappedObject := do
  let object ← m.byPathname.lookup pathname
  m.object? object

/-- The object that owns a region. -/
def objectOf? (m : MemoryMap) (id : RegionId) : Option MappedObject := do
  let region ← m.region? id
  let object ← region.object
  m.object? object

end MemoryMap

/-! ### Building a map -/

/-- An entry of a map in the making. -/
structure Mapping where
  range : AddressRange
  access : Access
  /-- The pathname; memory with an empty one has no owner. -/
  pathname : String
  deriving DecidableEq, Repr, Inhabited

namespace Mapping

/-- The pathname of the owner, if there is one. -/
def owner? (e : Mapping) : Option String :=
  if e.pathname = "" then none else some e.pathname

/-- Whether an entry starts no later than another. -/
def startsBy (d e : Mapping) : Bool := d.range.start ≤ e.range.start

end Mapping

namespace MemoryMap

/-- What the entries so far make of a map. -/
structure Draft where
  regions : Array Region := #[]
  objects : Array MappedObject := #[]
  byPathname : List (String × ObjectId) := []
  /-- Where the last region ends. -/
  lastStop : Option Address := none

namespace Draft

/-- The object with a pathname.  A new one is based at the region that it is first seen with. -/
def intern (d : Draft) (pathname : String) (start : Address) : ObjectId × Draft :=
  match d.byPathname.lookup pathname with
  | some object => (object, d)
  | none =>
    let object : ObjectId := ⟨d.objects.size⟩
    (object, { d with
      objects := d.objects.push { id := object, pathname, regions := [], base := start }
      byPathname := d.byPathname ++ [(pathname, object)] })

/-- The object with a pathname, which owns one more region. -/
def own (d : Draft) (pathname : String) (start : Address) (region : RegionId) :
    ObjectId × Draft :=
  let (object, d) := d.intern pathname start
  (object, { d with
    objects := d.objects.modify object.index fun o => { o with regions := o.regions ++ [region] } })

/-- One more region, behind all others.  It must not start before the last one ends. -/
def add (d : Draft) (e : Mapping) : Except Error Draft :=
  if d.lastStop.any (e.range.start < ·) then
    .error (.invalidOption (.overlappingRegion e.range))
  else
    let id : RegionId := ⟨d.regions.size⟩
    let (object, d) :=
      match e.owner? with
      | none => (none, d)
      | some pathname =>
        let (object, d) := d.own pathname e.range.start id
        (some object, d)
    .ok { d with
      regions := d.regions.push { id, range := e.range, access := e.access, object }
      lastStop := some e.range.stop }

end Draft

/-- The map with the given entries, which may be in any order, but must not overlap. -/
def build (entries : List Mapping) : Except Error MemoryMap := do
  let d ← (entries.mergeSort Mapping.startsBy).foldlM Draft.add {}
  return { regions := d.regions, objects := d.objects, byPathname := d.byPathname }

end MemoryMap

end PointerChains
