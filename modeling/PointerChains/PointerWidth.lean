import PointerChains.Address.Basic

/-!
# Pointers in memory

A pointer is stored in four or eight bytes, the least significant first.

* `littleEndian`, `ofLittleEndian` — the bytes of a number, and the number of a list of bytes;
* `PointerWidth` with `decode` and `encode`.
-/

namespace PointerChains

/-- The `count` low bytes of a number, least significant first. -/
def littleEndian : (count n : Nat) → List UInt8
  | 0, _ => []
  | count + 1, n => UInt8.ofNat n :: littleEndian count (n / 256)

/-- The number whose bytes are given, least significant first. -/
def ofLittleEndian : List UInt8 → Nat
  | [] => 0
  | b :: bs => b.toNat + 256 * ofLittleEndian bs

@[simp] theorem length_littleEndian (count n : Nat) : (littleEndian count n).length = count := by
  induction count generalizing n with
  | zero => rfl
  | succ count ih => simp [littleEndian, ih]

/-- How wide the pointers of a process are. -/
inductive PointerWidth where
  | four
  | eight
  deriving DecidableEq, Hashable, Inhabited, Repr

namespace PointerWidth

/-- The number of bytes in a pointer. -/
def size : PointerWidth → Nat
  | .four => 4
  | .eight => 8

theorem size_pos (w : PointerWidth) : 0 < w.size := by
  cases w <;> decide

/-- The pointer that the first bytes of a buffer hold. -/
def decode (w : PointerWidth) (bytes : List UInt8) : Address :=
  .ofNat (ofLittleEndian (bytes.take w.size))

/-- The bytes of a pointer; a narrow pointer keeps the low half of the address only. -/
def encode (w : PointerWidth) (a : Address) : List UInt8 :=
  littleEndian w.size a.toNat

/-- A buffer with a pointer written over its first bytes. -/
def store (w : PointerWidth) (a : Address) (buffer : List UInt8) : List UInt8 :=
  w.encode a ++ buffer.drop w.size

end PointerWidth

end PointerChains
