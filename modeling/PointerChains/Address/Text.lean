import PointerChains.Address.Basic
import PointerChains.Text.Blank
import PointerChains.Text.Hex

/-!
# The written form of addresses

An address is shown as `0x` and upper-case digits.  The reader is more liberal: it takes blank
margins, either case, any number of leading zeros, no `0x` at all, and a plus sign.

* `Address.text` — the shown form;
* `Address.parse` — the reader, with the three reasons why a text is no address.
-/

namespace PointerChains.Address

/-- The shown form of an address. -/
def text (a : Address) : String :=
  Text.Hex.numeral .upper a.toNat

instance : ToString Address := ⟨text⟩

/-- Why a text is no address. -/
inductive Fault where
  /-- Nothing is left once the margins and the `0x` are taken away. -/
  | empty
  /-- A character is no digit, and the digits before it still fit. -/
  | invalidDigit
  /-- The digits up to some place make up a number beyond the last address. -/
  | tooLarge
  deriving DecidableEq, Repr

/-- The wording of a fault. -/
def Fault.message : Fault → String
  | .empty => "cannot parse integer from empty string"
  | .invalidDigit => "invalid digit found in string"
  | .tooLarge => "number too large to fit in target type"

/-- The number behind `acc` and further digits, read from left to right: the first character that
is no digit, or the first digit that leaves the word, decides on the fault. -/
def readDigits (acc : Nat) : List Char → Except Fault Nat
  | [] => .ok acc
  | c :: cs =>
    match Text.Hex.digitValue? c with
    | none => .error .invalidDigit
    | some d =>
      if acc * 16 + d < 2 ^ 64 then readDigits (acc * 16 + d) cs else .error .tooLarge

/-- The number of an unsigned numeral, which has a digit at least. -/
def readNumeral : List Char → Except Fault Nat
  | [] => .error .invalidDigit
  | cs => readDigits 0 cs

/-- The characters after one leading `0x` or `0X`. -/
def dropMarker : List Char → List Char
  | '0' :: 'x' :: cs => cs
  | '0' :: 'X' :: cs => cs
  | cs => cs

/-- Reads an address.  A plus sign may stand before the digits, but not alone. -/
def parse (s : String) : Except Fault Address :=
  match dropMarker (Text.trim s.toList) with
  | [] => .error .empty
  | '+' :: cs => ofNat <$> readNumeral cs
  | cs => ofNat <$> readDigits 0 cs

end PointerChains.Address
