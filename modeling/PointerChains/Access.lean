/-!
# Access permissions

* `Access` — a set of the four permissions read, write, execute and shared, kept as a mask;
* `Access.contains`, `Access.union`, `Access.isEmpty` — the set operations;
* `Access.text` — the shown form, such as `rw-p`.
-/

namespace PointerChains

/-- The permissions of a region.  Bit 0 is read, bit 1 write, bit 2 execute and bit 3 shared. -/
structure Access where
  /-- The permissions as a mask. -/
  bits : UInt8
  deriving DecidableEq, Hashable, Inhabited, Repr

namespace Access

/-- No permission. -/
def none : Access := ⟨0⟩

/-- The permission to read. -/
def read : Access := ⟨1⟩

/-- The permission to write. -/
def write : Access := ⟨2⟩

/-- The permission to execute. -/
def exec : Access := ⟨4⟩

/-- The mark of memory shared between processes. -/
def shared : Access := ⟨8⟩

/-- The permissions of a mask, whose bits above the four are ignored. -/
def ofBits (bits : UInt8) : Access := ⟨bits &&& 0xF⟩

/-- Whether there is no permission. -/
def isEmpty (a : Access) : Bool := a.bits == 0

/-- Whether every permission of `b` is one of `a`. -/
def contains (a b : Access) : Bool := a.bits &&& b.bits == b.bits

/-- The permissions of either. -/
def union (a b : Access) : Access := ⟨a.bits ||| b.bits⟩

instance : Union Access := ⟨union⟩

/-- The shown form: a letter per permission, a dash where one is missing, and a `p` in the place
of the last for memory that is private. -/
def text (a : Access) : String :=
  String.ofList [mark read 'r' '-', mark write 'w' '-', mark exec 'x' '-', mark shared 's' 'p']
where
  /-- The letter that stands for a permission, or for its absence. -/
  mark (permission : Access) (present absent : Char) : Char :=
    if a.contains permission then present else absent

instance : ToString Access := ⟨text⟩

/-- The permission that a letter of a listing stands for; any other character stands for none. -/
def ofLetter : Char → Access
  | 'r' => read
  | 'w' => write
  | 'x' => exec
  | 's' => shared
  | _ => none

/-- The permissions that the letters of a listing stand for together. -/
def ofLetters (cs : List Char) : Access :=
  cs.foldl (fun a c => a ∪ ofLetter c) none

end Access

end PointerChains
