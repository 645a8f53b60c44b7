import PointerChains.Memory.Reader

/-!
# Captured memory

A snapshot holds chunks of memory in the order of their starts.  Reads stop at the end of a chunk,
and memory outside of all chunks cannot be read.

* `Chunk.read`, `Chunk.room`, `Chunk.overwrite` — the bytes of a chunk from an address on;
* `Snapshot.insert` — adds a chunk, in place of one with the same start;
* `Snapshot.reader` — the snapshot as a reader;
* `Snapshot.write?`, `Snapshot.storePointer` — change captured bytes;
* `Chunk.length_read` — a read ends early only at the end of the chunk.
-/

namespace PointerChains

/-- Memory that was captured in one piece. -/
structure Chunk where
  start : Address
  bytes : Array UInt8
  deriving DecidableEq, Repr, Inhabited

namespace Chunk

/-- How far an address at or above the start lies into the chunk. -/
def offset (c : Chunk) (a : Address) : Nat := a.toNat - c.start.toNat

/-- The number of captured bytes from an address on. -/
def room (c : Chunk) (a : Address) : Nat := c.bytes.size - c.offset a

/-- The captured bytes from an address on, `length` at most. -/
def read (c : Chunk) (a : Address) (length : Nat) : List UInt8 :=
  (c.bytes.extract (c.offset a) (c.offset a + length)).toList

/-- The chunk with the bytes from an address on replaced, as far as the chunk goes. -/
def overwrite (c : Chunk) (a : Address) (bytes : List UInt8) : Chunk :=
  let before := c.bytes.extract 0 (c.offset a)
  let after := c.bytes.extract (c.offset a + bytes.length) c.bytes.size
  { c with bytes := before ++ (bytes.take (c.room a)).toArray ++ after }

theorem read_eq (c : Chunk) (a : Address) (length : Nat) :
    c.read a length = (c.bytes.toList.drop (c.offset a)).take length := by
  simp [read, List.extract_eq_take_drop]

@[simp] theorem length_read (c : Chunk) (a : Address) (length : Nat) :
    (c.read a length).length = min length (c.room a) := by
  simp [read_eq, room]

end Chunk

/-- Captured memory, in chunks with increasing starts. -/
structure Snapshot where
  chunks : List Chunk
  deriving DecidableEq, Repr, Inhabited

namespace Snapshot

/-- No memory. -/
def empty : Snapshot := ⟨[]⟩

/-- Puts a chunk into its place, or in place of the chunk with the same start. -/
def insertChunk (c : Chunk) : List Chunk → List Chunk
  | [] => [c]
  | d :: rest =>
    if c.start < d.start then c :: d :: rest
    else if c.start = d.start then c :: rest
    else d :: insertChunk c rest

/-- The snapshot with one more chunk. -/
def insert (s : Snapshot) (start : Address) (bytes : Array UInt8) : Snapshot :=
  ⟨insertChunk ⟨start, bytes⟩ s.chunks⟩

/-- The last chunk that starts at or before an address. -/
def chunkBefore? (s : Snapshot) (a : Address) : Option Chunk :=
  (s.chunks.takeWhile (·.start ≤ a)).getLast?

/-- The chunk that holds an address. -/
def find? (s : Snapshot) (a : Address) : Option Chunk :=
  (s.chunkBefore? a).filter fun c => 0 < c.room a

/-- The reason why memory outside of all chunks cannot be read. -/
def uncaptured (a : Address) : String := s!"address {a.text} is not captured"

/-- The snapshot as a reader. -/
def reader (s : Snapshot) : Reader := fun a length =>
  match s.find? a with
  | none => .error (uncaptured a)
  | some c => .ok (c.read a length)

/-- The snapshot with the bytes from an address on replaced, as far as its chunk goes; `none` if no
chunk holds the address. -/
def write? (s : Snapshot) (a : Address) (bytes : List UInt8) : Option Snapshot :=
  (s.find? a).map fun c => s.insert c.start (c.overwrite a bytes).bytes

/-- What became of a pointer that was to be stored. -/
inductive Stored where
  /-- No chunk holds the address. -/
  | uncaptured
  /-- The chunk goes on for `room` bytes only, which are too few. -/
  | short (room : Nat)
  /-- The pointer is stored, in a chunk that goes on for `room` bytes. -/
  | stored (room : Nat)
  deriving DecidableEq, Repr

/-- Stores a pointer over captured bytes, if there is room for it. -/
def storePointer (s : Snapshot) (w : PointerWidth) (a pointer : Address) : Stored × Snapshot :=
  match s.find? a with
  | none => (.uncaptured, s)
  | some c =>
    if c.room a < w.size then (.short (c.room a), s)
    else (.stored (c.room a), (s.write? a (w.encode pointer)).getD s)

end Snapshot

end PointerChains
