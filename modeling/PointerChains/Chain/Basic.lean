import PointerChains.Error
import PointerChains.Text.Quoted

/-!
# Chains

A chain leads from an object to the target.  It starts at the base of the object plus its first
offset; each further offset is added to the pointer found there; the last sum is the target.

* `Chain`, and `ChainTable` with a shared table of pathnames;
* `ChainTable.intern`, `ChainTable.push`, `ChainTable.retainFrom` — the changes;
* `ChainTable.display` — the shown form, such as `"game" + 0x100 -> 0x10`.
-/

namespace PointerChains

/-- A path from an object to the target. -/
structure Chain where
  /-- The position of the object's pathname in the table. -/
  pathname : Nat
  /-- The object, if it is known in the current map. -/
  object : Option ObjectId
  offsets : List UInt64
  deriving DecidableEq, Repr, Inhabited

/-- Chains, and the pathnames of the objects that they start at, each once. -/
structure ChainTable where
  pathnames : Array String := #[]
  chains : Array Chain := #[]
  deriving DecidableEq, Repr, Inhabited

namespace ChainTable

/-- No chains. -/
def empty : ChainTable := {}

/-- The number of chains. -/
def size (t : ChainTable) : Nat := t.chains.size

/-- Whether there are no chains. -/
def isEmpty (t : ChainTable) : Bool := t.chains.isEmpty

/-- The position of a pathname, which is added at the end if it is new. -/
def intern (t : ChainTable) (pathname : String) : Nat × ChainTable :=
  match t.pathnames.idxOf? pathname with
  | some index => (index, t)
  | none => (t.pathnames.size, { t with pathnames := t.pathnames.push pathname })

/-- The table with one more chain, from the object with a pathname. -/
def push (t : ChainTable) (pathname : String) (object : Option ObjectId)
    (offsets : List UInt64) : ChainTable :=
  let (index, t) := t.intern pathname
  { t with chains := t.chains.push { pathname := index, object, offsets } }

/-- The chains that pass a test, which is asked for one after the other and may remember what it was
asked for. -/
def keepFrom {σ : Type} (test : σ → Chain → Bool × σ) : σ → List Chain → List Chain
  | _, [] => []
  | state, c :: rest =>
    match test state c with
    | (true, state) => c :: keepFrom test state rest
    | (false, state) => keepFrom test state rest

/-- The table with the chains that pass such a test.  The pathnames stay. -/
def retainFrom {σ : Type} (t : ChainTable) (state : σ) (test : σ → Chain → Bool × σ) : ChainTable :=
  { t with chains := (keepFrom test state t.chains.toList).toArray }

/-- The table with the chains that pass a test that remembers nothing. -/
def retain (t : ChainTable) (p : Chain → Bool) : ChainTable :=
  t.retainFrom () fun _ c => (p c, ())

/-- The pathname that a chain starts at. -/
def pathname? (t : ChainTable) (c : Chain) : Option String := t.pathnames[c.pathname]?

/-- An offset as it is shown. -/
def offsetText (offset : UInt64) : String := Text.Hex.numeral .upper offset.toNat

/-- The shown form of offsets: the first is added, and the others are led to. -/
def offsetsText : List UInt64 → String
  | [] => ""
  | first :: rest =>
    rest.foldl (fun shown offset => shown ++ " -> " ++ offsetText offset)
      (" + " ++ offsetText first)

/-- The shown form of a chain; a pathname that is not in the table is shown as a question mark. -/
def display (t : ChainTable) (c : Chain) : String :=
  ((t.pathname? c).map Text.quote).getD "?" ++ offsetsText c.offsets

end ChainTable

end PointerChains
