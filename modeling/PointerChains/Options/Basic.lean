import PointerChains.Map.Basic
import PointerChains.Options.Ranges
import PointerChains.PointerWidth

/-!
# Options

What every scan needs to know: the memory map, which of its regions to scan, how memory is read,
and where results are kept.

* `Options` with its defaults;
* `Options.getMap`, `Options.getOutput`, `Options.getInput` — what a request cannot do without;
* `Options.setBufferSize`, `Options.changeRanges` — the settings that can be refused, with the
  options afterwards.
-/

namespace PointerChains

/-- The settings shared by all scans.  A set of references is a list, in which order and
repetition do not matter. -/
structure Options where
  omitRegions : Option (List RegionId) := none
  omitObjects : Option (List ObjectId) := none
  /-- Regions to scan, among others that an exclusive setting admits. -/
  exclusiveRegions : Option (List RegionId) := none
  /-- Objects whose regions are to be scanned, among others that an exclusive setting admits. -/
  exclusiveObjects : Option (List ObjectId) := none
  omitRanges : Option (List AddressRange) := none
  /-- Ranges to scan, among others that an exclusive setting admits. -/
  exclusiveRanges : Option (List AddressRange) := none
  /-- The permissions that a scanned region must have. -/
  access : Access := .none
  map : Option MemoryMap := none
  width : PointerWidth := .eight
  bufferSize : Nat := 0x1000
  /-- The name of the file that results are saved to. -/
  output : Option String := none
  /-- The name of the file that results are loaded from. -/
  input : Option String := none
  deriving DecidableEq, Repr, Inhabited

/-- Whether a buffer has room for two pointers. -/
def PointerWidth.fitsTwice (w : PointerWidth) (size : Nat) : Bool := 2 * w.size ≤ size

namespace Options

/-- The value of a setting that has to be there. -/
def require {α : Type} (setting : Setting) : Option α → Except Error α
  | some a => .ok a
  | none => .error (.missingOption setting)

/-- The memory map, which has to be there. -/
def getMap (o : Options) : Except Error MemoryMap := require .map o.map

/-- The name of the output file, which has to be there. -/
def getOutput (o : Options) : Except Error String := require .outputPath o.output

/-- The name of the input file, which has to be there. -/
def getInput (o : Options) : Except Error String := require .inputPath o.input

/-- Sets the size of the read buffers, which must hold two pointers. -/
def setBufferSize (o : Options) (size : Nat) : Except Error Unit × Options :=
  if o.width.fitsTwice size then (.ok (), { o with bufferSize := size })
  else (.error (.invalidOption (.bufferSize size)), o)

/-- The options with the ranges of a setting replaced. -/
def withRanges (o : Options) (ranges : Option (List AddressRange)) : RangeSetting → Options
  | .omitted => { o with omitRanges := ranges }
  | .exclusive => { o with exclusiveRanges := ranges }

/-- Sets the ranges of a setting, or removes them. -/
def changeRanges (o : Options) (setting : RangeSetting) (ranges : Option (List AddressRange)) :
    Except Error Unit × Options :=
  match ranges with
  | none => (.ok (), o.withRanges none setting)
  | some ranges =>
    match Ranges.normalize setting ranges with
    | .error cause => (.error cause, o)
    | .ok ranges => (.ok (), o.withRanges (some ranges) setting)

end Options

end PointerChains
