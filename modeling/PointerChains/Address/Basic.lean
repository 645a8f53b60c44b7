/-!
# Addresses

An address is a 64-bit word.  Offsets and sizes are words too where they are stored, and natural
numbers where they are computed with.

* `Address` with its order, `Address.toNat` and `Address.ofNat`;
* `Address.add?`, `Address.sub?` — the sum and difference that must fit in a word;
* `Address.addSat`, `Address.subSat` — the same, kept inside the word at its ends;
* `Address.offsetFrom?` — the distance to an address at or below;
* sums and distances are described through `toNat`.
-/

-- Powers of numbers are the core library's, also where another library brings powers of its own.
attribute [default_instance high] instPowNat

namespace PointerChains

/-- The place of a byte in the memory of a process. -/
structure Address where
  value : UInt64
  deriving DecidableEq, Hashable, Inhabited, Repr

namespace Address

/-- The address that no pointer leads to. -/
def null : Address := ⟨0⟩

/-- Whether the address is the null address. -/
def isNull (a : Address) : Bool := a.value == 0

/-- The address as a natural number. -/
def toNat (a : Address) : Nat := a.value.toNat

/-- The address with the given number, modulo the size of a word. -/
def ofNat (n : Nat) : Address := ⟨UInt64.ofNat n⟩

instance : LE Address := ⟨fun a b => a.value ≤ b.value⟩

instance : LT Address := ⟨fun a b => a.value < b.value⟩

instance (a b : Address) : Decidable (a ≤ b) := inferInstanceAs (Decidable (a.value ≤ b.value))

instance (a b : Address) : Decidable (a < b) := inferInstanceAs (Decidable (a.value < b.value))

instance : Ord Address := ⟨fun a b => compare a.value b.value⟩

theorem toNat_lt (a : Address) : a.toNat < 2 ^ 64 := a.value.toNat_lt

theorem le_iff_toNat_le {a b : Address} : a ≤ b ↔ a.toNat ≤ b.toNat := UInt64.le_iff_toNat_le

theorem lt_iff_toNat_lt {a b : Address} : a < b ↔ a.toNat < b.toNat := UInt64.lt_iff_toNat_lt

theorem ne_of_lt {a b : Address} (h : a < b) : a ≠ b := by
  rintro rfl
  exact Nat.lt_irrefl _ (lt_iff_toNat_lt.1 h)

theorem toNat_injective {a b : Address} (h : a.toNat = b.toNat) : a = b := by
  cases a; cases b
  exact congrArg Address.mk (UInt64.toNat.inj h)

@[simp] theorem ofNat_toNat (a : Address) : ofNat a.toNat = a := by
  cases a; simp [ofNat, toNat]

theorem toNat_ofNat {n : Nat} (h : n < 2 ^ 64) : (ofNat n).toNat = n :=
  UInt64.toNat_ofNat_of_lt' h

/-! ### Sums and differences -/

/-- The address that lies `offset` above, if there is one. -/
def add? (a : Address) (offset : UInt64) : Option Address :=
  if a.toNat + offset.toNat < 2 ^ 64 then some ⟨a.value + offset⟩ else none

/-- The address that lies `offset` below, if there is one. -/
def sub? (a : Address) (offset : UInt64) : Option Address :=
  if offset ≤ a.value then some ⟨a.value - offset⟩ else none

/-- The address that lies `offset` above, or else the last address. -/
def addSat (a : Address) (offset : UInt64) : Address :=
  (a.add? offset).getD ⟨UInt64.ofNat (2 ^ 64 - 1)⟩

/-- The address that lies `offset` below, or else the null address. -/
def subSat (a : Address) (offset : UInt64) : Address :=
  (a.sub? offset).getD null

/-- How far the address lies above `base`; `none` when it lies below. -/
def offsetFrom? (a base : Address) : Option UInt64 :=
  if base ≤ a then some (a.value - base.value) else none

theorem add?_eq_some_iff {a b : Address} {offset : UInt64} :
    a.add? offset = some b ↔ b.toNat = a.toNat + offset.toNat := by
  unfold add?
  constructor
  · intro h
    split at h
    · simp only [Option.some.injEq] at h
      subst h
      simp only [toNat, UInt64.toNat_add]
      exact Nat.mod_eq_of_lt (by assumption)
    · cases h
  · intro h
    have hb := b.toNat_lt
    rw [if_pos (by omega)]
    refine congrArg some (toNat_injective ?_)
    simp only [toNat, UInt64.toNat_add] at h hb ⊢
    rw [h, Nat.mod_eq_of_lt (by omega)]

theorem toNat_addSat (a : Address) (offset : UInt64) :
    (a.addSat offset).toNat = min (a.toNat + offset.toNat) (2 ^ 64 - 1) := by
  unfold addSat add?
  split
  · rename_i h
    simp only [Option.getD_some, toNat, UInt64.toNat_add] at h ⊢
    rw [Nat.mod_eq_of_lt h, Nat.min_eq_left (by omega)]
  · rename_i h
    rw [Nat.min_eq_right (by omega)]
    rfl

theorem offsetFrom?_eq_some_iff {a base : Address} {offset : UInt64} :
    a.offsetFrom? base = some offset ↔ base.toNat + offset.toNat = a.toNat := by
  unfold offsetFrom?
  constructor
  · intro h
    split at h
    · rename_i hle
      simp only [Option.some.injEq] at h
      subst h
      have := le_iff_toNat_le.1 hle
      simp only [toNat, UInt64.toNat_sub_of_le _ _ hle] at *
      omega
    · cases h
  · intro h
    have hle : base ≤ a := le_iff_toNat_le.2 (by omega)
    rw [if_pos hle]
    refine congrArg some (UInt64.toNat.inj ?_)
    rw [UInt64.toNat_sub_of_le _ _ hle]
    simp only [toNat] at h
    omega

theorem exists_offsetFrom?_iff {a base : Address} :
    (∃ offset, a.offsetFrom? base = some offset) ↔ base ≤ a := by
  rw [offsetFrom?]
  by_cases hle : base ≤ a
  · simp [hle]
  · simp [hle]

/-- The address `n` bytes above, for a caller who knows that it exists. -/
def advance (a : Address) (n : Nat) : Address :=
  ofNat (a.toNat + n)

theorem toNat_advance {a : Address} {n : Nat} (h : a.toNat + n < 2 ^ 64) :
    (a.advance n).toNat = a.toNat + n :=
  toNat_ofNat h

end Address

end PointerChains
