import PointerChains.Address.Range
import PointerChains.Reference

/-!
# Errors

Each request that cannot be met names its cause.  The wording is kept apart from the causes, in
one function.

* `Setting`, `Refusal` — a setting that is missing, and why a value for one is refused;
* `NodeFault`, `Corruption` — what is wrong with a node for a tree, or with stored chains;
* `Error`, with `Error.kind` for its class and `Error.message` for its wording.
-/

namespace PointerChains

open Text.Hex (numeral)

/-- An offset as errors show it. -/
private def offsetText (n : Nat) : String := numeral .lower n

/-! ### Settings and values -/

/-- A setting that a request cannot do without. -/
inductive Setting where
  | map
  | outputPath
  | inputPath
  | target
  | alignment
  | maxObjSize
  | maxDepth
  deriving DecidableEq, Repr

/-- The name of a setting. -/
def Setting.name : Setting → String
  | .map => "map"
  | .outputPath => "output_path"
  | .inputPath => "input_path"
  | .target => "target"
  | .alignment => "alignment"
  | .maxObjSize => "max_obj_size"
  | .maxDepth => "max_depth"

/-- A setting that is a list of ranges. -/
inductive RangeSetting where
  | omitted
  | exclusive
  deriving DecidableEq, Repr

/-- The name of a list of ranges. -/
def RangeSetting.name : RangeSetting → String
  | .omitted => "omit_ranges"
  | .exclusive => "exclusive_ranges"

/-- What is wrong with a line of a map listing. -/
inductive LineFault where
  | missingRange
  | missingPermissions
  | truncated
  | badRange
  deriving DecidableEq, Repr

/-- The wording of a line fault. -/
def LineFault.message : LineFault → String
  | .missingRange => "missing range"
  | .missingPermissions => "missing permissions"
  | .truncated => "truncated line"
  | .badRange => "bad range"

/-- Why a value is refused. -/
inductive Refusal where
  | address (fault : Address.Fault)
  | invertedRange (start stop : Address)
  /-- A region of a map starts before the region in front of it ends. -/
  | overlappingRegion (range : AddressRange)
  /-- A line of a map listing, counted from one, is malformed. -/
  | mapLine (line : Nat) (fault : LineFault)
  | emptyRange (setting : RangeSetting) (range : AddressRange)
  | overlappingRanges (setting : RangeSetting) (first second : AddressRange)
  | bufferSize (size : Nat)
  | alignment (alignment : Nat)
  | zeroObjSize
  | objSizeBelowPreset (offset : UInt64)
  /-- A tree would have no level for pointers. -/
  | maxDepth (depth : Nat)
  | presetForTarget
  | presetAboveObjSize (offset maxObjSize : UInt64)
  deriving DecidableEq, Repr

/-- What the refused value was meant for. -/
def Refusal.subject : Refusal → String
  | .address _ => "address"
  | .invertedRange .. => "address range"
  | .overlappingRegion _ | .mapLine .. => "memory map"
  | .emptyRange setting _ | .overlappingRanges setting .. => setting.name
  | .bufferSize _ => "buffer_size"
  | .alignment _ => "alignment"
  | .zeroObjSize | .objSizeBelowPreset _ => "max_obj_size"
  | .maxDepth _ => "max_depth"
  | .presetForTarget | .presetAboveObjSize .. => "preset_offsets"

/-- The wording of a refusal. -/
def Refusal.reason : Refusal → String
  | .address fault => fault.message
  | .invertedRange start stop => s!"{start.text} is not below {stop.text}"
  | .overlappingRegion range => s!"region {range.text} overlaps previous region"
  | .mapLine line fault => s!"line {line}: {fault.message}"
  | .emptyRange _ range => s!"empty range {range.text}"
  | .overlappingRanges _ first second => s!"{first.text} overlaps {second.text}"
  | .bufferSize size => s!"{size} bytes cannot hold two pointers"
  | .alignment n => s!"{n} is not a power of two"
  | .zeroObjSize => "must not be zero"
  | .objSizeBelowPreset offset => s!"smaller than preset offset {offsetText offset.toNat}"
  | .maxDepth depth => s!"{depth} leaves no room for a pointer"
  | .presetForTarget => "depth 0 is the target itself"
  | .presetAboveObjSize offset size =>
    s!"{offsetText offset.toNat} exceeds max_obj_size {offsetText size.toNat}"

/-! ### Nodes and stored chains -/

/-- Why a tree has no place for a node, or a node leads nowhere. -/
inductive NodeFault where
  | depthOutside (depth levels : Nat)
  | secondRoot
  | missingParent (parent : NodeRef)
  | misplacedParent (parent : Option NodeRef) (depth : Nat)
  | unbuildableLevel (depth levels : Nat)
  /-- A node lies before the object that owns it. -/
  | belowObject (address : Address) (pathname : String)
  /-- A node points behind its parent. -/
  | pointsPast (address parent : Address)
  deriving DecidableEq, Repr

/-- A parent as faults show it. -/
private def parentText : Option NodeRef → String
  | none => "None"
  | some parent => "Some(NodeRef \x7b depth: " ++ toString parent.depth ++ ", index: " ++
      toString parent.index ++ " \x7d)"

/-- The wording of a node fault. -/
def NodeFault.message : NodeFault → String
  | .depthOutside depth levels => s!"depth {depth} is outside of a tree with {levels} levels"
  | .secondRoot => "tree already has a root"
  | .missingParent parent => s!"missing parent {parent.text}"
  | .misplacedParent parent depth =>
    s!"parent {parentText parent} cannot have a child at depth {depth}"
  | .unbuildableLevel depth levels =>
    s!"cannot build level {depth} of a tree with {levels} levels"
  | .belowObject address pathname => s!"{address.text} is below {pathname}"
  | .pointsPast address parent => s!"{address.text} points past {parent.text}"

/-- What is wrong with stored chains. -/
inductive Corruption where
  | truncatedHeader
  | unexpectedEnd
  /-- A pathname is empty or holds the character that ends one. -/
  | unstorablePathname
  /-- The pathname table starts behind the end of the file. -/
  | pathnamesOutOfBounds
  | unterminatedPathname
  | tableEndedEarly
  | pathnameEncoding
  /-- The pathname table has more entries than its count. -/
  | unterminatedTable
  /-- The chains do not start where the pathname table ends. -/
  | chainsMisplaced
  | pathnameIndex
  /-- An offset is followed by neither of the two delimiters. -/
  | delimiter
  | missingEndMarker
  | chainWithoutOffsets
  /-- A reason found by a visitor of a sweep. -/
  | reported (reason : String)
  deriving DecidableEq, Repr

/-- The wording of a corruption. -/
def Corruption.message : Corruption → String
  | .truncatedHeader => "truncated header"
  | .unexpectedEnd => "unexpected end of file"
  | .unstorablePathname => "pathname cannot be stored"
  | .pathnamesOutOfBounds => "pathnames offset out of bounds"
  | .unterminatedPathname => "unterminated pathname"
  | .tableEndedEarly => "pathname table ended early"
  | .pathnameEncoding => "pathname is not valid utf-8"
  | .unterminatedTable => "pathname table is not terminated"
  | .chainsMisplaced => "chains offset does not follow pathname table"
  | .pathnameIndex => "pathname index out of bounds"
  | .delimiter => "bad offset delimiter"
  | .missingEndMarker => "missing end of file marker"
  | .chainWithoutOffsets => "chain without offsets"
  | .reported reason => reason

/-! ### Errors -/

/-- The class of an error. -/
inductive ErrorKind where
  /-- Configuration that is missing or malformed. -/
  | configuration
  /-- Something is in use, has stopped or was stopped. -/
  | concurrency
  /-- Memory or a file could not be read or written. -/
  | io
  /-- The data cannot satisfy a well-formed request. -/
  | data
  /-- There is no memory for it. -/
  | resource
  deriving DecidableEq, Repr

/-- Why a request could not be met. -/
inductive Error where
  | missingOption (setting : Setting)
  | invalidOption (refusal : Refusal)
  | noSessions
  | unknownRegion (region : RegionId)
  | invalidNode (fault : NodeFault)
  | inUse (name : String)
  | poolNotSetUp
  /-- A worker could not be started, for a reason of the system. -/
  | spawn (source : String)
  | workerLost (worker : Nat)
  | cancelled
  | zeroAdvance
  | read (address : Address) (length : Nat) (source : String)
  | shortRead (address : Address) (count length : Nat)
  | file
  | emptyAreaSet
  | targetNotMapped (target : Address)
  | badMagic (bytes : List UInt8)
  | unsupportedVersion (version : UInt8)
  | unsupportedScanKind (tag : UInt8)
  | corrupt (corruption : Corruption)
  | unresolvedChain (chain : Nat)
  | emptyChain (chain : Nat)
  | offsetOverflow (offset : Nat)
  | addressAdd (address : Address) (offset : UInt64)
  | allocation
  deriving DecidableEq, Repr

namespace Error

/-- The class of an error. -/
def kind : Error → ErrorKind
  | missingOption _ | invalidOption _ | noSessions | unknownRegion _ | invalidNode _ =>
    .configuration
  | inUse _ | poolNotSetUp | spawn _ | workerLost _ | cancelled | zeroAdvance => .concurrency
  | read .. | shortRead .. | file => .io
  | emptyAreaSet | targetNotMapped _ | badMagic _ | unsupportedVersion _ | unsupportedScanKind _
  | corrupt _ | unresolvedChain _ | emptyChain _ | offsetOverflow _ | addressAdd .. => .data
  | allocation => .resource

/-- A byte as two digits. -/
private def byteText (b : UInt8) : String :=
  String.ofList [Text.Hex.digit .lower (b.toNat / 16), Text.Hex.digit .lower (b.toNat % 16)]

/-- The wording of an error. -/
def message : Error → String
  | missingOption setting => "missing required option `" ++ setting.name ++ "`"
  | invalidOption refusal => "invalid option `" ++ refusal.subject ++ "`: " ++ refusal.reason
  | noSessions => "at least one read session is required"
  | unknownRegion region => s!"region {region.text} is not part of the memory map"
  | invalidNode fault => s!"invalid tree node: {fault.message}"
  | inUse name => s!"{name} is in use"
  | poolNotSetUp => "worker pool has not been set up"
  | spawn _ => "failed to spawn worker thread"
  | workerLost worker => s!"worker {worker} terminated unexpectedly"
  | cancelled => "scan was cancelled"
  | zeroAdvance => "BUG: scan callback attempted to advance by 0 bytes"
  | read address length _ => s!"failed to read {length} bytes at {address.text}"
  | shortRead address count length =>
    s!"short read at {address.text}: got {count} of {length} bytes"
  | file => "file error"
  | emptyAreaSet => "no memory regions satisfy the current constraints"
  | targetNotMapped target => s!"target address {target.text} is not mapped"
  | badMagic bytes =>
    "bad magic in file header: [" ++ String.intercalate ", " (bytes.map byteText) ++ "]"
  | unsupportedVersion version => s!"unsupported file format version: {version.toNat}"
  | unsupportedScanKind tag => s!"unsupported scan kind: {tag.toNat}"
  | corrupt corruption => s!"corrupt scan file: {corruption.message}"
  | unresolvedChain chain =>
    s!"chain {chain} was loaded without resolving its object and cannot be verified"
  | emptyChain chain => s!"chain {chain} has no offsets"
  | offsetOverflow offset => s!"offset {offsetText offset} does not fit in 32 bits"
  | addressAdd address offset =>
    "address add operation `" ++ address.text ++ " + " ++ offsetText offset.toNat ++
      "` overflowed"
  | allocation => "failed to allocate memory"

end Error

/-! ### Memory -/

/-- The largest number of bytes that one buffer may have.  There is no memory for a larger one, no
matter how much is left. -/
def largestBuffer : Nat := 2 ^ 63 - 1

/-- The memory that an operation finds: which of the pieces that it asks for, counted from zero, are
granted. -/
abbrev Memory := Nat → Bool

/-- Memory that is never short. -/
def Memory.ample : Memory := fun _ => true

/-- What is left of the memory once so many pieces were asked for. -/
def Memory.after (memory : Memory) (count : Nat) : Memory := fun n => memory (count + n)

/-! ### Checked construction -/

/-- The address that lies `offset` above, which must exist. -/
def Address.add (a : Address) (offset : UInt64) : Except Error Address :=
  match a.add? offset with
  | some b => .ok b
  | none => .error (.addressAdd a offset)

/-- The range from `start` up to `stop`, which must not be empty. -/
def AddressRange.make (start stop : Address) : Except Error AddressRange :=
  if start < stop then .ok ⟨start, stop⟩ else .error (.invalidOption (.invertedRange start stop))

/-- Reads an address, as a value of that kind of setting. -/
def Address.read (s : String) : Except Error Address :=
  (Address.parse s).mapError fun fault => .invalidOption (.address fault)

end PointerChains
