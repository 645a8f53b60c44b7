import PointerChains.Error
import PointerChains.PointerWidth

/-!
# Visitors and plans

A sweep leads a visitor through regions.  The plan says through which, and in which steps.

* `Visit`, `Reply`, `Visitor` — what a visitor sees and answers;
* `Area` — a region with its addresses;
* `Plan` — what a worker sweeps, and how.
-/

namespace PointerChains

/-- What a visitor gets to see. -/
structure Visit where
  address : Address
  region : RegionId
  /-- The distance of the address from the start of its region. -/
  offset : Nat
  /-- The number of buffered bytes. -/
  remaining : Nat
  /-- The buffered bytes from the address on. -/
  bytes : List UInt8
  deriving DecidableEq, Repr, Inhabited

/-- What a visitor answers. -/
inductive Reply where
  /-- Go on by so many bytes, and cancel the pass if asked to. -/
  | advance (count : Nat) (cancel : Bool := false)
  | fail (cause : Error)
  | crash
  deriving DecidableEq, Repr

/-- A visitor answers each visit by what it sees. -/
abbrev Visitor := Visit → Reply

/-- A region to be swept. -/
structure Area where
  region : RegionId
  range : AddressRange
  deriving DecidableEq, Repr, Inhabited

namespace Area

/-- The number of bytes in the area. -/
def size (a : Area) : Nat := a.range.size

/-- The number of the first address. -/
def start (a : Area) : Nat := a.range.start.toNat

/-- The address at an offset in the area. -/
def address (a : Area) (offset : Nat) : Address := a.range.start.advance offset

end Area

/-- What a worker does in a pass. -/
structure Plan where
  /-- The regions to sweep, in order. -/
  areas : List Area
  visitor : Visitor
  alignment : Nat
  width : PointerWidth
  /-- The number of bytes that the window can hold. -/
  bufferSize : Nat

end PointerChains
