import PointerChains.Memory.Reader

/-!
# Memory images

What a scan should find is stated against an image, which says what each address holds.  A reader
may fail wherever it likes outside of the ranges in which it is known to serve the image.

* `Image`, `Image.read` — the bytes at the addresses, and those of a piece of memory;
* `Image.read_add`, `Image.drop_read` — pieces are put together and cut;
* `Reader.Serves` — every read inside a range is answered from the image, and `Image.reader`;
* `Reader.Tells` — a read inside a range may fail, but what it brings is the image.
-/

namespace PointerChains

/-- What memory holds, by the number of the address. -/
abbrev Image := Nat → UInt8

namespace Image

/-- The bytes of a piece of memory. -/
def read (image : Image) (start length : Nat) : List UInt8 :=
  (List.range' start length).map image

@[simp] theorem length_read (image : Image) (start length : Nat) :
    (image.read start length).length = length := by
  rw [read, List.length_map, List.length_range']

@[simp] theorem read_zero (image : Image) (start : Nat) : image.read start 0 = [] := rfl

theorem read_add (image : Image) (start m n : Nat) :
    image.read start (m + n) = image.read start m ++ image.read (start + m) n := by
  rw [read, read, read, ← List.map_append, List.range'_append_1]

theorem drop_read (image : Image) (start length n : Nat) :
    (image.read start length).drop n = image.read (start + n) (length - n) := by
  rw [read, read, ← List.map_drop, List.drop_range', Nat.mul_one]

theorem take_read (image : Image) (start : Nat) {length n : Nat} (h : n ≤ length) :
    (image.read start length).take n = image.read start n := by
  rw [read, read, ← List.map_take, List.take_range'_of_length_ge h]

end Image

/-- Every read of something inside the range is answered with the bytes of the image. -/
def Reader.Serves (read : Reader) (image : Image) (r : AddressRange) : Prop :=
  ∀ (a : Address) (length : Nat), 0 < length → r.start.toNat ≤ a.toNat →
    a.toNat + length ≤ r.stop.toNat → read a length = .ok (image.read a.toNat length)

theorem Reader.Serves.exactly_eq {read : Reader} {image : Image} {r : AddressRange}
    (h : read.Serves image r) (a : Address) (length : Nat) (hpos : 0 < length)
    (hle : r.start.toNat ≤ a.toNat) (hstop : a.toNat + length ≤ r.stop.toNat) :
    read.exactly a length = .ok (image.read a.toNat length) :=
  Reader.exactly_eq_ok_iff.2 ⟨h a length hpos hle hstop, image.length_read a.toNat length⟩

/-- Every complete read of something inside the range brings the bytes of the image. -/
def Reader.Tells (read : Reader) (image : Image) (r : AddressRange) : Prop :=
  ∀ (a : Address) (length : Nat) (bytes : List UInt8), 0 < length → r.start.toNat ≤ a.toNat →
    a.toNat + length ≤ r.stop.toNat → read.exactly a length = .ok bytes →
      bytes = image.read a.toNat length

theorem Reader.Serves.tells {read : Reader} {image : Image} {r : AddressRange}
    (h : read.Serves image r) : read.Tells image r := by
  intro a length bytes hpos hle hstop hbytes
  rw [h.exactly_eq a length hpos hle hstop, Except.ok.injEq] at hbytes
  exact hbytes.symm

/-- The reader that answers everything from the image. -/
def Image.reader (image : Image) : Reader := fun a length => .ok (image.read a.toNat length)

theorem Image.serves_reader (image : Image) (r : AddressRange) : image.reader.Serves image r :=
  fun _ _ _ _ _ => rfl

end PointerChains
