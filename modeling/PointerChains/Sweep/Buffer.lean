import PointerChains.Sweep.Plan

/-!
# The read buffer

Memory is read through a buffer that slides over a region.  When less than a pointer is left in it
and the region goes on, what is left is moved to the front and the buffer is filled up behind it, so
that a pointer across its border is seen whole.

* `Request` — a read of memory;
* `Buffer` — what is buffered of a region, and where the next visit is;
* `Buffer.freshRequest`, `Buffer.tailRequest` — the two reads into it.
-/

namespace PointerChains

/-- A read of memory. -/
structure Request where
  address : Address
  length : Nat
  deriving DecidableEq, Repr, Inhabited

/-- What is buffered of a region. -/
structure Buffer (a : Area) where
  /-- The offset of the first buffered byte. -/
  base : Nat
  /-- The position of the next visit from the base on, which may lie behind the buffered bytes. -/
  pos : Nat
  bytes : List UInt8
  inside : base + bytes.length ≤ a.size

namespace Buffer

variable {a : Area}

/-- The empty buffer, with the first visit at an offset. -/
def startAt (a : Area) (offset : Nat) : Buffer a := ⟨0, offset, [], Nat.zero_le _⟩

/-- The offset of the next visit. -/
def offset (b : Buffer a) : Nat := b.base + b.pos

/-- What is buffered from the next visit on. -/
def left (b : Buffer a) : List UInt8 := b.bytes.drop b.pos

/-- The read into a buffer of which nothing is left. -/
def freshRequest (b : Buffer a) (p : Plan) : Request :=
  ⟨a.address b.offset, min p.bufferSize (a.size - b.offset)⟩

/-- The read behind what is left, once it was moved to the front. -/
def tailRequest (b : Buffer a) (p : Plan) : Request :=
  ⟨a.address (b.offset + b.left.length),
    min (p.bufferSize - b.left.length) (a.size - b.offset - b.left.length)⟩

/-- What the visitor sees. -/
def visit (b : Buffer a) : Visit :=
  { address := a.address b.offset, region := a.region, offset := b.offset,
    remaining := b.left.length, bytes := b.left }

/-- The buffer with the next visit at a later offset. -/
def moveTo (b : Buffer a) (offset : Nat) : Buffer a := { b with pos := offset - b.base }

theorem le_offset_moveTo (b : Buffer a) (offset : Nat) : offset ≤ (b.moveTo offset).offset := by
  show offset ≤ b.base + (offset - b.base)
  omega

/-- While something is left, the next visit is inside the region. -/
theorem offset_lt (b : Buffer a) (h : ¬ b.bytes.length ≤ b.pos) : b.offset < a.size := by
  have hinside := b.inside
  show b.base + b.pos < a.size
  omega

end Buffer

/-- A buffer whose next visit is at an offset inside the region. -/
abbrev ReadyBuffer (a : Area) (offset : Nat) : Type :=
  { b : Buffer a // b.offset = offset ∧ offset < a.size }

namespace Buffer

variable {a : Area} {p : Plan}

/-- The buffer filled afresh from the next visit on. -/
def refilled (b : Buffer a) (bytes : List UInt8)
    (hlength : bytes.length = (b.freshRequest p).length) (hend : ¬ a.size ≤ b.offset) :
    ReadyBuffer a b.offset where
  val :=
    { base := b.offset, pos := 0, bytes
      inside := by
        have hle : bytes.length ≤ a.size - b.offset :=
          Nat.le_trans (Nat.le_of_eq hlength) (Nat.min_le_right ..)
        omega }
  property := ⟨Nat.add_zero b.offset, Nat.lt_of_not_le hend⟩

/-- The buffer filled up behind what is left. -/
def filledUp (b : Buffer a) (bytes : List UInt8)
    (hlength : bytes.length = (b.tailRequest p).length) (hleft : ¬ b.bytes.length ≤ b.pos) :
    ReadyBuffer a b.offset where
  val :=
    { base := b.offset, pos := 0, bytes := b.left ++ bytes
      inside := by
        have hle : bytes.length ≤ a.size - b.offset - b.left.length :=
          Nat.le_trans (Nat.le_of_eq hlength) (Nat.min_le_right ..)
        have hstop : b.offset + b.left.length ≤ a.size := by
          have hinside := b.inside
          simp only [offset, left, List.length_drop]
          omega
        rw [List.length_append]
        omega }
  property := ⟨Nat.add_zero b.offset, b.offset_lt hleft⟩

end Buffer

end PointerChains
