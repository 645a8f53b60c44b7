import PointerChains.Error
import PointerChains.PointerWidth

/-!
# Reading memory

A reader answers with the bytes from an address on: at most as many as asked for, fewer at the end
of readable memory, or the reason why there are none.

* `Reader.fill` — one read into a buffer;
* `Reader.exactly` — a read that has to be complete;
* `Reader.pointer` — a read of a pointer.
-/

namespace PointerChains

/-- A session that can read the memory of a process. -/
abbrev Reader := Address → Nat → Except String (List UInt8)

namespace Reader

/-- Reads over the start of a buffer.  The answer is the number of bytes read and the buffer, which
is left as it was behind them. -/
def fill (read : Reader) (a : Address) (buffer : List UInt8) : Except String (Nat × List UInt8) :=
  (read a buffer.length).map fun bytes => (bytes.length, bytes ++ buffer.drop bytes.length)

/-- Reads exactly `length` bytes. -/
def exactly (read : Reader) (a : Address) (length : Nat) : Except Error (List UInt8) :=
  match read a length with
  | .error source => .error (.read a length source)
  | .ok bytes =>
    if bytes.length = length then .ok bytes else .error (.shortRead a bytes.length length)

/-- Reads exactly `length` bytes, with the proof that there are so many. -/
def whole (read : Reader) (a : Address) (length : Nat) :
    Except Error { bytes : List UInt8 // bytes.length = length } :=
  match read a length with
  | .error source => .error (.read a length source)
  | .ok bytes =>
    if h : bytes.length = length then .ok ⟨bytes, h⟩
    else .error (.shortRead a bytes.length length)

theorem exactly_eq_map (read : Reader) (a : Address) (length : Nat) :
    read.exactly a length = (read.whole a length).map Subtype.val := by
  unfold exactly whole
  cases read a length with
  | error source => rfl
  | ok bytes =>
    by_cases h : bytes.length = length
    · simp only [if_pos h, dif_pos h]
      rfl
    · simp only [if_neg h, dif_neg h]
      rfl

/-- Reads a pointer. -/
def pointer (read : Reader) (w : PointerWidth) (a : Address) : Except Error Address :=
  w.decode <$> read.exactly a w.size

theorem exactly_eq_ok_iff {read : Reader} {a : Address} {length : Nat} {bytes : List UInt8} :
    read.exactly a length = .ok bytes ↔ read a length = .ok bytes ∧ bytes.length = length := by
  unfold exactly
  cases read a length with
  | error source => simp
  | ok bs =>
    by_cases h : bs.length = length
    · simp only [h, if_true, Except.ok.injEq]
      exact ⟨fun heq => ⟨heq, heq ▸ h⟩, fun heq => heq.1⟩
    · simp only [h, if_false, reduceCtorEq, Except.ok.injEq, false_iff]
      exact fun heq => h (heq.1 ▸ heq.2)

end Reader

end PointerChains
