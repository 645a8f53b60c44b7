import PointerChains.IndexSet
import PointerChains.Options.Basic

/-!
# Selecting regions

The options admit some regions of a map and leave out others.

* `isBlacklisted` — objects whose memory hangs or fails when it is read;
* `Options.rejectsObject`, `Options.omitRange?`, `Options.includes` — the parts of the decision;
* `Options.select` — the admitted regions in map order;
* `AreaSet` — a selection with the stamp of its making, and `AreaSet.update`.
-/

namespace PointerChains

/-- How the pathnames begin of objects whose memory hangs or fails when it is read. -/
def blacklist : List String :=
  ["/dev/", "/memfd:", "/run/", "[vvar]", "[vvar_vclock]", "[vsyscall]"]

/-- Whether a pathname begins like one of the blacklist. -/
def isBlacklisted (pathname : String) : Bool :=
  blacklist.any fun start => start.toList.isPrefixOf pathname.toList

namespace Options

/-- Whether an object's regions are left out: it is not among the exclusive objects, or it is
omitted, or it is blacklisted. -/
def rejectsObject (o : Options) (m : MemoryMap) (object : ObjectId) : Bool :=
  (o.exclusiveObjects.any fun ids => !ids.contains object) ||
  (o.omitObjects.any fun ids => ids.contains object) ||
  ((m.object? object).any fun found => isBlacklisted found.pathname)

/-- Whether a region has the permissions that are asked for. -/
def admitsAccess (o : Options) (r : Region) : Bool :=
  o.access.isEmpty || r.access.contains o.access

/-- Whether a region is omitted by reference. -/
def omitsRegion (o : Options) (r : Region) : Bool :=
  o.omitRegions.any fun ids => ids.contains r.id

/-- The first omitted range that covers a region. -/
def omitRange? (o : Options) (r : Region) : Option AddressRange :=
  o.omitRanges.bind fun ranges => ranges.find? fun range => range.covers r.range

/-- Whether some exclusive setting is there. -/
def isExclusive (o : Options) : Bool :=
  o.exclusiveObjects.isSome || o.exclusiveRegions.isSome || o.exclusiveRanges.isSome

/-- Whether an exclusive setting names the object or the region, or covers the region. -/
def matchesExclusive (o : Options) (r : Region) : Bool :=
  (o.exclusiveObjects.any fun ids => r.object.any fun object => ids.contains object) ||
  (o.exclusiveRegions.any fun ids => ids.contains r.id) ||
  (o.exclusiveRanges.any fun ranges => ranges.any fun range => range.covers r.range)

/-- Whether the exclusive settings admit a region. -/
def includes (o : Options) (r : Region) : Bool :=
  !o.isExclusive || o.matchesExclusive r

/-- The admitted ones of a list of regions in map order.  Objects found to be left out are kept in
`rejected`.  While regions lie inside the range that an omitted one lies in, `covering`, they are
passed over without another look. -/
def selectFrom (o : Options) (m : MemoryMap) (rejected : IndexSet)
    (covering : Option AddressRange) : List Region → List RegionId
  | [] => []
  | r :: rest =>
    if covering.any fun range => range.covers r.range then selectFrom o m rejected covering rest
    else if !o.admitsAccess r then selectFrom o m rejected none rest
    else if r.object.any fun object => rejected.contains object.index then
      selectFrom o m rejected none rest
    else
      match r.object.filter (o.rejectsObject m) with
      | some object => selectFrom o m (rejected.insert object.index) none rest
      | none =>
        if o.omitsRegion r then selectFrom o m rejected none rest
        else
          match o.omitRange? r with
          | some range => selectFrom o m rejected (some range) rest
          | none =>
            if o.includes r then r.id :: selectFrom o m rejected none rest
            else selectFrom o m rejected none rest

/-- The regions of a map that the options admit, of which there must be one at least.  No map has so
many objects that there is no set with room for all of them. -/
def select (o : Options) (m : MemoryMap) : Except Error (List RegionId) :=
  let rejected := (IndexSet.withCapacity? m.objects.size).getD {}
  match o.selectFrom m rejected none m.regions.toList with
  | [] => .error .emptyAreaSet
  | ids => .ok ids

end Options

/-- The regions selected for scanning. -/
structure AreaSet where
  /-- The selected regions, in map order. -/
  regions : List RegionId := []
  /-- The stamp of the selection; no two selections share one. -/
  generation : Nat := 0
  deriving DecidableEq, Repr, Inhabited

namespace AreaSet

/-- Whether no region is selected. -/
def isEmpty (s : AreaSet) : Bool := s.regions.isEmpty

/-- Recomputes the selection, under a fresh stamp.  If it cannot be made, the earlier one stays. -/
def update (s : AreaSet) (o : Options) (stamp : Nat) : Except Error Unit × AreaSet :=
  match o.getMap >>= o.select with
  | .error cause => (.error cause, s)
  | .ok regions => (.ok (), { regions, generation := stamp })

end AreaSet

end PointerChains
