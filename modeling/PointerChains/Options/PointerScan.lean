import PointerChains.Options.Basic

/-!
# Pointer scan options

What a pointer scan looks for: the target, the alignment of pointers, how far a pointer may lie
before the node it leads to, how many levels to search, and offsets that are known in advance.

* `PointerScanOptions` with its setters, each with the options that it leaves;
* `PointerScanOptions.params` — the required settings together.
-/

namespace PointerChains

/-- Whether a number is a power of two. -/
def isPowerOfTwo (n : Nat) : Bool := n == 1 <<< n.log2

theorem isPowerOfTwo_iff {n : Nat} : isPowerOfTwo n ↔ ∃ k, n = 2 ^ k := by
  simp only [isPowerOfTwo, beq_iff_eq, Nat.one_shiftLeft]
  exact ⟨fun h => ⟨_, h⟩, fun ⟨k, h⟩ => by rw [h, Nat.log2_two_pow]⟩

theorem pos_of_isPowerOfTwo {n : Nat} (h : isPowerOfTwo n) : 0 < n := by
  obtain ⟨k, hk⟩ := isPowerOfTwo_iff.1 h
  rw [hk]
  exact Nat.two_pow_pos k

/-- The settings of a pointer scan. -/
structure PointerScanOptions where
  /-- The address that chains lead to. -/
  target : Option Address := none
  /-- The alignment of pointers. -/
  alignment : Option Nat := none
  /-- The largest distance from a pointer's value to the node it leads to. -/
  maxObjSize : Option UInt64 := none
  /-- The number of levels, the target's own among them. -/
  maxDepth : Option Nat := none
  /-- Whether only the nearest nodes count. -/
  smartScan : Bool := false
  /-- The distances required at the levels, by depth. -/
  presets : List (Option UInt64) := []
  /-- The regions that count as static, in increasing order; they are recorded only. -/
  staticAreas : Option (List RegionId) := none
  deriving DecidableEq, Repr, Inhabited

/-- The required settings of a pointer scan. -/
structure PointerScanParams where
  target : Address
  alignment : Nat
  maxObjSize : UInt64
  maxDepth : Nat
  smartScan : Bool
  presets : List (Option UInt64)
  deriving DecidableEq, Repr, Inhabited

namespace PointerScanOptions

/-- Sets the alignment, which must be a power of two. -/
def setAlignment (o : PointerScanOptions) (alignment : Nat) :
    Except Error Unit × PointerScanOptions :=
  if isPowerOfTwo alignment then (.ok (), { o with alignment := some alignment })
  else (.error (.invalidOption (.alignment alignment)), o)

/-- The first preset offset above a size. -/
def presetAbove? (o : PointerScanOptions) (size : UInt64) : Option UInt64 :=
  (o.presets.filterMap id).find? fun offset => size < offset

/-- Sets the largest distance, which must be positive and cover all preset offsets. -/
def setMaxObjSize (o : PointerScanOptions) (size : UInt64) :
    Except Error Unit × PointerScanOptions :=
  if size = 0 then (.error (.invalidOption .zeroObjSize), o)
  else match o.presetAbove? size with
    | some offset => (.error (.invalidOption (.objSizeBelowPreset offset)), o)
    | none => (.ok (), { o with maxObjSize := some size })

/-- Sets the number of levels, which must leave room for a pointer. -/
def setMaxDepth (o : PointerScanOptions) (depth : Nat) : Except Error Unit × PointerScanOptions :=
  if depth < 2 then (.error (.invalidOption (.maxDepth depth)), o)
  else (.ok (), { o with maxDepth := some depth })

/-- The largest number of presets, each of which takes 16 bytes. -/
def largestPresetCount : Nat := largestBuffer / 16

/-- The presets with the entry at `depth` replaced.  Entries up to it are made where missing; there
is no list if they are too many. -/
def placePreset? (presets : List (Option UInt64)) (depth : Nat) (offset : Option UInt64) :
    Option (List (Option UInt64)) :=
  if depth < presets.length ∨ depth < largestPresetCount then
    some ((presets ++ List.replicate (depth + 1 - presets.length) none).set depth offset)
  else none

/-- Puts an offset at a depth, or breaks down. -/
def putPreset (o : PointerScanOptions) (depth : Nat) (offset : Option UInt64) :
    Option (Except Error Unit) × PointerScanOptions :=
  match placePreset? o.presets depth offset with
  | some presets => (some (.ok ()), { o with presets })
  | none => (none, o)

/-- Sets or removes the offset required at a depth.  It must be within the largest distance, and
the target has none.  The call breaks down if there is no list with room for the depth. -/
def setPreset (o : PointerScanOptions) (depth : Nat) (offset : Option UInt64) :
    Option (Except Error Unit) × PointerScanOptions :=
  if depth = 0 then (some (.error (.invalidOption .presetForTarget)), o)
  else match offset, o.maxObjSize with
    | some offset, some size =>
      if size < offset then (some (.error (.invalidOption (.presetAboveObjSize offset size))), o)
      else o.putPreset depth (some offset)
    | offset, _ => o.putPreset depth offset

/-- Records the regions that count as static, in increasing order and each once. -/
def setStaticAreas (o : PointerScanOptions) (areas : Option (List RegionId)) :
    PointerScanOptions :=
  { o with staticAreas := areas.map fun ids =>
      (ids.mergeSort fun a b => a.index ≤ b.index).eraseDups }

/-- The required settings together. -/
def params (o : PointerScanOptions) : Except Error PointerScanParams := do
  let target ← Options.require .target o.target
  let alignment ← Options.require .alignment o.alignment
  let maxObjSize ← Options.require .maxObjSize o.maxObjSize
  let maxDepth ← Options.require .maxDepth o.maxDepth
  return { target, alignment, maxObjSize, maxDepth, smartScan := o.smartScan, presets := o.presets }

end PointerScanOptions

/-- The offset required at a depth, if there is one. -/
def PointerScanParams.preset? (p : PointerScanParams) (depth : Nat) : Option UInt64 :=
  p.presets[depth]?.join

end PointerChains
