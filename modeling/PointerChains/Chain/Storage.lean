import PointerChains.Chain.Format
import PointerChains.Options.Basic

/-!
# Saving and loading chains

Chains are kept in files, by the names that the options give.

* `FileStore` — files by name;
* `FileStore.save`, `FileStore.load`, `FileStore.loadHeaders`.
-/

namespace PointerChains

/-- Files by name. -/
structure FileStore where
  /-- The files, each name once. -/
  files : List (String × List UInt8) := []
  /-- The names under which there can be no file. -/
  unreachable : List String := []
  deriving DecidableEq, Repr, Inhabited

namespace FileStore

/-- The content of a file. -/
def content? (s : FileStore) (name : String) : Option (List UInt8) := s.files.lookup name

/-- The store with a file replaced or added; under an unreachable name nothing is kept. -/
def put (s : FileStore) (name : String) (bytes : List UInt8) : FileStore :=
  if s.unreachable.contains name then s
  else { s with files := (name, bytes) :: s.files.filter fun file => file.1 != name }

/-- Creates an empty file, in place of one with the same name. -/
def create (s : FileStore) (name : String) : Except Error FileStore :=
  if s.unreachable.contains name then .error .file else .ok (s.put name [])

/-- Reads a file. -/
def read (s : FileStore) (name : String) : Except Error (List UInt8) :=
  match s.content? name with
  | some bytes => .ok bytes
  | none => .error .file

/-- Saves chains to the output file.  The file is created before the chains are looked at, so what
it held is gone when they cannot be stored. -/
def save (s : FileStore) (t : ChainTable) (o : Options) : Except Error Unit × FileStore :=
  match o.getOutput with
  | .error cause => (.error cause, s)
  | .ok name =>
    match s.create name with
    | .error cause => (.error cause, s)
    | .ok created =>
      let (written, result) := Format.write t
      (result, created.put name written)

/-- Loads chains from the input file.  Unless the load is shallow, the objects are looked up in the
map, which has to be there, and chains whose object is not mapped are left out. -/
def load (s : FileStore) (o : Options) (shallow : Bool) : Except Error ChainTable := do
  let name ← o.getInput
  let m ← if shallow then pure none else some <$> o.getMap
  let bytes ← s.read name
  Format.decode bytes m

/-- Reads the headers of the input file. -/
def loadHeaders (s : FileStore) (o : Options) : Except Error Headers := do
  let name ← o.getInput
  let bytes ← s.read name
  Format.readHeaders (bytes.take Format.headerSize)

end FileStore

end PointerChains
