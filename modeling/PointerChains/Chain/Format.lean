import PointerChains.Chain.Basic
import PointerChains.Map.Basic
import PointerChains.PointerWidth

/-!
# The file format of chains

A file holds, in this order and with all words in 32 bits, the least significant byte first:

* the magic bytes, the version and the kind of scan;
* the number of pathnames, where they start, the number of chains, and where they start;
* the pathnames, each ended by a zero byte, and one more zero byte;
* for each chain the position of its pathname, and its offsets, each followed by a zero byte, or by
  the byte `0xFF` if it is the last;
* the end marker.

`Format.encode` writes a table of chains, and `Format.decode` reads a file, with or without a map
to look the objects up in.  `Format.write` tells what gets to the output if the table cannot be
stored.  `Format.readStored` reads what a file holds without a map, and `StoredChains.toTable` makes
a table of it.  `Format.readHeaders` reads the first two items only.
-/

namespace PointerChains

/-- The kind of scan that a file comes from. -/
inductive ScanKind where
  | pointerScan
  deriving DecidableEq, Repr

/-- The first two items of a file. -/
structure Headers where
  version : UInt8
  kind : ScanKind
  pathnamesCount : Nat
  pathnamesOffset : Nat
  chainsCount : Nat
  chainsOffset : Nat
  deriving DecidableEq, Repr

/-- What a file holds, with objects by name. -/
structure StoredChains where
  /-- The pathname table as stored. -/
  pathnames : List String
  /-- The chains: the pathname that each starts at, and its offsets. -/
  chains : List (String × List UInt64)
  deriving DecidableEq, Repr

namespace Format

/-- The bytes that a file starts with. -/
def magic : List UInt8 := [0x53, 0x43, 0x13, 0x37]

/-- The version of the format. -/
def version : UInt8 := 1

/-- The tag of a kind of scan. -/
def kindTag : ScanKind → UInt8
  | .pointerScan => 1

/-- The number of bytes in the headers. -/
def headerSize : Nat := 22

/-- Follows an offset that is not the last. -/
def nextMark : UInt8 := 0x00

/-- Follows the last offset. -/
def lastMark : UInt8 := 0xFF

/-- Ends a file. -/
def endMark : UInt8 := 0xBB

/-! ### Writing -/

/-- The bytes of a pathname. -/
def pathnameBytes (pathname : String) : List UInt8 := pathname.toUTF8.data.toList

/-- Whether a pathname can be told from the ends of pathnames and of the table. -/
def isStorable (pathname : String) : Bool :=
  !(pathnameBytes pathname).isEmpty && !(pathnameBytes pathname).contains 0

/-- Finds the first chain that cannot be stored, and why. -/
def checkChains (n : Nat) : List Chain → Except Error Unit
  | [] => .ok ()
  | c :: rest =>
    if c.offsets.isEmpty then .error (.emptyChain n)
    else
      match c.offsets.find? fun offset => 2 ^ 32 ≤ offset.toNat with
      | some offset => .error (.offsetOverflow offset.toNat)
      | none => checkChains (n + 1) rest

/-- A number as a stored word. -/
def word (n : Nat) : Except Error (List UInt8) :=
  if n < 2 ^ 32 then .ok (littleEndian 4 n) else .error (.offsetOverflow n)

/-- The pathname table with its end. -/
def pathnameTable (pathnames : List String) : List UInt8 :=
  pathnames.flatMap (fun pathname => pathnameBytes pathname ++ [0]) ++ [0]

/-- The offsets of a chain with their marks. -/
def offsetBytes : List UInt64 → List UInt8
  | [] => []
  | [last] => littleEndian 4 last.toNat ++ [lastMark]
  | offset :: rest => littleEndian 4 offset.toNat ++ nextMark :: offsetBytes rest

/-- The stored form of chains. -/
def chainBytes : List Chain → Except Error (List UInt8)
  | [] => .ok []
  | c :: rest => do
    let index ← word c.pathname
    let others ← chainBytes rest
    return index ++ offsetBytes c.offsets ++ others

/-- The stored form of a table of chains. -/
def encode (t : ChainTable) : Except Error (List UInt8) := do
  unless t.pathnames.all isStorable do throw (.corrupt .unstorablePathname)
  checkChains 0 t.chains.toList
  let table := pathnameTable t.pathnames.toList
  let pathnamesCount ← word t.pathnames.size
  let pathnamesOffset ← word headerSize
  let chainsCount ← word t.chains.size
  let chainsOffset ← word (headerSize + table.length)
  let chains ← chainBytes t.chains.toList
  return magic ++ [version, kindTag .pointerScan] ++ pathnamesCount ++ pathnamesOffset ++
    chainsCount ++ chainsOffset ++ table ++ chains ++ [endMark]

/-- The parts of a file in the order in which they are written. -/
def parts (t : ChainTable) : List (Except Error (List UInt8)) :=
  let table := pathnameTable t.pathnames.toList
  [.ok (magic ++ [version, kindTag .pointerScan]), word t.pathnames.size, word headerSize,
    word t.chains.size, word (headerSize + table.length), .ok table] ++
    t.chains.toList.flatMap (fun c => [word c.pathname, .ok (offsetBytes c.offsets)]) ++
    [.ok [endMark]]

/-- What is written of parts up to the first that cannot be made, and why that one cannot. -/
def writeParts : List (Except Error (List UInt8)) → List UInt8 × Except Error Unit
  | [] => ([], .ok ())
  | .error cause :: _ => ([], .error cause)
  | .ok bytes :: rest =>
    let (written, result) := writeParts rest
    (bytes ++ written, result)

/-- Writes a table of chains to an output, where what was written before an error stays. -/
def write (t : ChainTable) : List UInt8 × Except Error Unit :=
  if t.pathnames.all isStorable then
    match checkChains 0 t.chains.toList with
    | .error cause => ([], .error cause)
    | .ok () => writeParts (parts t)
  else ([], .error (.corrupt .unstorablePathname))

/-- Writes a table of chains into a buffer, and tells how many bytes of it are left. -/
def encodeInto (t : ChainTable) (room : Nat) : Except Error Nat := do
  let bytes ← encode t
  if bytes.length ≤ room then return room - bytes.length else throw .file

/-! ### Reading -/

/-- Takes a word off the front. -/
def readWord : List UInt8 → Except Error (Nat × List UInt8)
  | a :: b :: c :: d :: rest => .ok (ofLittleEndian [a, b, c, d], rest)
  | _ => .error (.corrupt .unexpectedEnd)

/-- The kind of scan with a tag. -/
def readKind (tag : UInt8) : Except Error ScanKind :=
  if tag = kindTag .pointerScan then .ok .pointerScan else .error (.unsupportedScanKind tag)

/-- Reads the headers at the front of a file. -/
def readHeaders : List UInt8 → Except Error Headers
  | a :: b :: c :: d :: found :: tag :: rest => do
    unless [a, b, c, d] = magic do throw (.badMagic [a, b, c, d])
    unless found = version do throw (.unsupportedVersion found)
    let kind ← readKind tag
    let (pathnamesCount, rest) ← readWord rest
    let (pathnamesOffset, rest) ← readWord rest
    let (chainsCount, rest) ← readWord rest
    let (chainsOffset, _) ← readWord rest
    return { version := found, kind, pathnamesCount, pathnamesOffset, chainsCount, chainsOffset }
  | _ => .error (.corrupt .truncatedHeader)

/-- Takes so many pathnames off the front. -/
def readPathnames : Nat → List UInt8 → Except Error (List String × List UInt8)
  | 0, bytes => .ok ([], bytes)
  | count + 1, bytes =>
    match bytes.dropWhile (· != 0) with
    | [] => .error (.corrupt .unterminatedPathname)
    | _ :: rest =>
      match bytes.takeWhile (· != 0) with
      | [] => .error (.corrupt .tableEndedEarly)
      | entry =>
        match String.fromUTF8? ⟨entry.toArray⟩ with
        | none => .error (.corrupt .pathnameEncoding)
        | some pathname => do
          let (pathnames, rest) ← readPathnames count rest
          return (pathname :: pathnames, rest)

/-- Takes the offsets of a chain off the front. -/
def readOffsets : List UInt8 → Except Error (List UInt64 × List UInt8)
  | a :: b :: c :: d :: mark :: rest =>
    let offset := UInt64.ofNat (ofLittleEndian [a, b, c, d])
    if mark = nextMark then do
      let (offsets, rest) ← readOffsets rest
      return (offset :: offsets, rest)
    else if mark = lastMark then .ok ([offset], rest)
    else .error (.corrupt .delimiter)
  | _ => .error (.corrupt .unexpectedEnd)

/-- Takes so many chains off the front. -/
def readChains (pathnames : List String) :
    Nat → List UInt8 → Except Error (List (String × List UInt64) × List UInt8)
  | 0, bytes => .ok ([], bytes)
  | count + 1, bytes => do
    let (index, bytes) ← readWord bytes
    match pathnames[index]? with
    | none => throw (.corrupt .pathnameIndex)
    | some pathname =>
      let (offsets, bytes) ← readOffsets bytes
      let (chains, bytes) ← readChains pathnames count bytes
      return ((pathname, offsets) :: chains, bytes)

/-- The bytes from a position on, which must be within the file. -/
def bytesFrom (bytes : List UInt8) (position : Nat) : Except Error (List UInt8) :=
  if position ≤ bytes.length then .ok (bytes.drop position)
  else .error (.corrupt .pathnamesOutOfBounds)

/-- Takes the end of the pathname table off the front. -/
def readTableEnd : List UInt8 → Except Error (List UInt8)
  | 0 :: rest => .ok rest
  | _ => .error (.corrupt .unterminatedTable)

/-- Checks the end marker; what follows it does not matter. -/
def readEnd : List UInt8 → Except Error Unit
  | [] => .error (.corrupt .unexpectedEnd)
  | mark :: _ => if mark = endMark then .ok () else .error (.corrupt .missingEndMarker)

/-- Reads a file, without a map. -/
def readStored (bytes : List UInt8) : Except Error StoredChains := do
  let headers ← readHeaders bytes
  let table ← bytesFrom bytes headers.pathnamesOffset
  let (pathnames, rest) ← readPathnames headers.pathnamesCount table
  let rest ← readTableEnd rest
  unless bytes.length - rest.length = headers.chainsOffset do throw (.corrupt .chainsMisplaced)
  let (chains, rest) ← readChains pathnames headers.chainsCount rest
  readEnd rest
  return { pathnames, chains }

end Format

namespace StoredChains

/-- The table with one more of the stored chains.  With a map, its object is looked up by its
pathname, and without one the chain is left out. -/
def pushChain (m : Option MemoryMap) (t : ChainTable) (chain : String × List UInt64) :
    ChainTable :=
  match m with
  | none => t.push chain.1 none chain.2
  | some m =>
    match m.findObject? chain.1 with
    | some object => t.push chain.1 (some object.id) chain.2
    | none => t

/-- The stored chains as a table.  All stored pathnames are kept, each once. -/
def toTable (s : StoredChains) (m : Option MemoryMap) : ChainTable :=
  s.chains.foldl (pushChain m) (s.pathnames.foldl (fun t pathname => (t.intern pathname).2) .empty)

end StoredChains

namespace Format

/-- Takes so many chains off the front, each of which is pushed or left out before the next one is
read. -/
def loadChains (pathnames : List String) (m : Option MemoryMap) :
    Nat → ChainTable → List UInt8 → Except Error (ChainTable × List UInt8)
  | 0, t, bytes => .ok (t, bytes)
  | count + 1, t, bytes => do
    let (index, bytes) ← readWord bytes
    match pathnames[index]? with
    | none => throw (.corrupt .pathnameIndex)
    | some pathname =>
      let (offsets, bytes) ← readOffsets bytes
      loadChains pathnames m count (StoredChains.pushChain m t (pathname, offsets)) bytes

/-- Reads a file, and looks the objects up if there is a map.  All stored pathnames are kept, each
once. -/
def decode (bytes : List UInt8) (m : Option MemoryMap) : Except Error ChainTable := do
  let headers ← readHeaders bytes
  let table ← bytesFrom bytes headers.pathnamesOffset
  let (pathnames, rest) ← readPathnames headers.pathnamesCount table
  let rest ← readTableEnd rest
  unless bytes.length - rest.length = headers.chainsOffset do throw (.corrupt .chainsMisplaced)
  let interned := pathnames.foldl (fun t pathname => (t.intern pathname).2) .empty
  let (t, rest) ← loadChains pathnames m headers.chainsCount interned rest
  readEnd rest
  return t

end Format

end PointerChains
