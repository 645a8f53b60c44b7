import PointerChains.Access
import PointerChains.Chain.Basic
import PointerChains.PointerWidth

/-!
# Interchange

Addresses, references, ranges and chains are exchanged with other programs as plain values:
numbers, texts, lists and records.

* `Value` — a plain value;
* `Interchange` — the types that have a plain form, with `encode` and `decode`;
* the forms of the types: words and references are numbers, `Access` is a number below 256,
  `PointerWidth` is a text, and ranges and chains are records.  A record may be given as the list
  of its fields, fields that are not known are ignored, and a missing object is none.
-/

namespace PointerChains

/-- A plain value. -/
inductive Value where
  | null
  | bool (b : Bool)
  | int (n : Int)
  /-- A number that is no integer. -/
  | fraction
  | text (s : String)
  | list (items : List Value)
  | record (fields : List (String × Value))
  deriving Inhabited

/-- The types that have a plain form. -/
class Interchange (α : Type) where
  encode : α → Value
  decode : Value → Option α

namespace Value

/-- A number from zero up to a limit. -/
def numberBelow (limit : Nat) : Value → Option Nat
  | .int (.ofNat n) => if n < limit then some n else none
  | _ => none

/-- A number that fits in a word. -/
def word : Value → Option Nat := numberBelow (2 ^ 64)

/-- The fields of a record with the given names, `null` standing for those that are missing and may
be.  A list stands for the record with its items as the fields. -/
def fields (names : List (String × Bool)) : Value → Option (List Value)
  | .record given => names.mapM fun (name, optional) =>
      match given.lookup name with
      | some v => some v
      | none => if optional then some .null else none
  | .list items => if items.length = names.length then some items else none
  | _ => none

/-- A value that may be missing. -/
def optional {α : Type} (decode : Value → Option α) : Value → Option (Option α)
  | .null => some none
  | v => (decode v).map some

/-- A list of values. -/
def listOf {α : Type} (decode : Value → Option α) : Value → Option (List α)
  | .list items => items.mapM decode
  | _ => none

/-- A tag, which may be given as a record with the tag as its one name. -/
def tag : Value → Option String
  | .text s => some s
  | .record [(name, .null)] => some name
  | _ => none

end Value

instance : Interchange Address where
  encode a := .int a.toNat
  decode v := v.word.map Address.ofNat

instance : Interchange RegionId where
  encode r := .int r.index
  decode v := v.word.map RegionId.mk

instance : Interchange ObjectId where
  encode o := .int o.index
  decode v := v.word.map ObjectId.mk

instance : Interchange Access where
  encode a := .int a.bits.toNat
  decode v := (v.numberBelow 256).map fun n => ⟨UInt8.ofNat n⟩

instance : Interchange PointerWidth where
  encode
    | .four => .text "Four"
    | .eight => .text "Eight"
  decode v :=
    match v.tag with
    | some "Four" => some .four
    | some "Eight" => some .eight
    | _ => none

instance : Interchange AddressRange where
  encode r := .record [("start", Interchange.encode r.start), ("end", Interchange.encode r.stop)]
  decode v := do
    match ← v.fields [("start", false), ("end", false)] with
    | [start, stop] => return ⟨← Interchange.decode start, ← Interchange.decode stop⟩
    | _ => none

instance : Interchange Chain where
  encode c := .record [
    ("pathname", .int c.pathname),
    ("object", (c.object.map Interchange.encode).getD .null),
    ("offsets", .list (c.offsets.map fun offset => .int offset.toNat))]
  decode v := do
    match ← v.fields [("pathname", false), ("object", true), ("offsets", false)] with
    | [pathname, object, offsets] =>
      let pathname ← pathname.word
      let object ← object.optional Interchange.decode
      let offsets ← offsets.listOf Value.word
      return { pathname, object, offsets := offsets.map UInt64.ofNat }
    | _ => none

end PointerChains
