/-!
# Hexadecimal numerals

Addresses and offsets are written in base sixteen, without leading zeros, behind `0x`.

* `digit`, `digits` — one digit, and the digits of a number, most significant first;
* `digitValue?` — reads a digit of either case;
* `value` — the number that a list of digit values stands for;
* `digitValue?_digit`, `value_digitValues` — reading undoes writing.
-/

namespace PointerChains.Text.Hex

/-- Which letters stand for the digits above nine. -/
inductive Letters where
  | upper
  | lower
  deriving DecidableEq, Repr

/-- The code point of the letter for ten. -/
def Letters.base : Letters → Nat
  | .upper => 0x41
  | .lower => 0x61

/-- The digit for a value below sixteen. -/
def digit (letters : Letters) (n : Nat) : Char :=
  if n < 10 then Char.ofNat (0x30 + n) else Char.ofNat (letters.base + (n - 10))

/-- The value of a digit of either case. -/
def digitValue? (c : Char) : Option Nat :=
  if '0' ≤ c ∧ c ≤ '9' then some (c.toNat - 0x30)
  else if 'A' ≤ c ∧ c ≤ 'F' then some (c.toNat - 0x41 + 10)
  else if 'a' ≤ c ∧ c ≤ 'f' then some (c.toNat - 0x61 + 10)
  else none

/-- The digit values of a number, most significant first; zero has one digit. -/
def digitValues (n : Nat) : List Nat :=
  if n < 16 then [n] else digitValues (n / 16) ++ [n % 16]

/-- The number that a list of digit values stands for. -/
def value (ds : List Nat) : Nat :=
  ds.foldl (fun acc d => acc * 16 + d) 0

/-- The digits of a number. -/
def digits (letters : Letters) (n : Nat) : List Char :=
  (digitValues n).map (digit letters)

/-- The numeral of a number, with its `0x`. -/
def numeral (letters : Letters) (n : Nat) : String :=
  "0x" ++ String.ofList (digits letters n)

/-! ### Reading undoes writing -/

theorem digitValue?_digit (letters : Letters) {n : Nat} (h : n < 16) :
    digitValue? (digit letters n) = some n := by
  have : ∀ m : Fin 16, ∀ l : Letters, digitValue? (digit l m) = some m.val := by
    intro m l
    cases l <;> revert m <;> decide
  exact this ⟨n, h⟩ letters

theorem digitValues_lt (n : Nat) : ∀ d ∈ digitValues n, d < 16 := by
  fun_induction digitValues n with
  | case1 n h => simpa using h
  | case2 n h ih =>
    intro d hd
    rcases List.mem_append.1 hd with hd | hd
    · exact ih d hd
    · simp only [List.mem_singleton] at hd
      omega

theorem digitValues_ne_nil (n : Nat) : digitValues n ≠ [] := by
  fun_induction digitValues n <;> simp

theorem value_append_singleton (ds : List Nat) (d : Nat) :
    value (ds ++ [d]) = value ds * 16 + d := by
  simp [value]

theorem value_digitValues (n : Nat) : value (digitValues n) = n := by
  fun_induction digitValues n with
  | case1 n h => simp [value]
  | case2 n h ih =>
    rw [value_append_singleton, ih]
    omega

end PointerChains.Text.Hex
