import PointerChains.Map.Basic
import PointerChains.Text.Blank

/-!
# Map listings

A listing has a line per region: the range, the permissions, three fields that do not matter here
(offset, device and inode), and the pathname, which may hold blanks.

* `Mapping.ofLine` — reads a line;
* `MemoryMap.ofListing` — reads a listing; blank lines are skipped, and a bad line refuses it all.
-/

namespace PointerChains

open Text (word? trim isBlank)

namespace Mapping

/-- Takes a word off a line, or reports the line. -/
def nextWord (line : Nat) (fault : LineFault) (cs : List Char) :
    Except Error (List Char × List Char) :=
  match word? cs with
  | some split => .ok split
  | none => .error (.invalidOption (.mapLine line fault))

/-- The two addresses of a range field, parted by the first dash. -/
def readRange (line : Nat) (field : List Char) : Except Error AddressRange :=
  match field.dropWhile (· != '-') with
  | [] => .error (.invalidOption (.mapLine line .badRange))
  | _ :: stop => do
    let start ← Address.read (String.ofList (field.takeWhile (· != '-')))
    let stop ← Address.read (String.ofList stop)
    AddressRange.make start stop

/-- The entry on the line with the given number. -/
def ofLine (line : Nat) (cs : List Char) : Except Error Mapping := do
  let (range, cs) ← nextWord line .missingRange cs
  let (permissions, cs) ← nextWord line .missingPermissions cs
  let (_, cs) ← nextWord line .truncated cs
  let (_, cs) ← nextWord line .truncated cs
  let (_, cs) ← nextWord line .truncated cs
  let range ← readRange line range
  return { range, access := .ofLetters permissions, pathname := String.ofList (trim cs) }

/-- The entries on the lines that are not blank, whose numbers start at `line`. -/
def ofLines (line : Nat) : List (List Char) → Except Error (List Mapping)
  | [] => .ok []
  | cs :: rest =>
    if cs.all isBlank then ofLines (line + 1) rest
    else do
      let e ← ofLine line cs
      let es ← ofLines (line + 1) rest
      return e :: es

end Mapping

/-- Reads a listing.  Lines are counted from one. -/
def MemoryMap.ofListing (text : String) : Except Error MemoryMap := do
  MemoryMap.build (← Mapping.ofLines 1 (Text.lines text.toList))

end PointerChains
