import PointerChains.Address.Text
import PointerChains.Proofs.Text.Words

/-!
# Numerals of addresses

A numeral is read from left to right, and only the number behind the digits so far is kept.  That
number never falls, so a reader that stops as soon as it leaves the word refuses nothing that fits.

* `Text.Hex.Denotes` — digits of either case, with any number of leading zeros, for a number;
* `Address.readDigits_eq_ok_iff` — the reader accepts exactly the digits of numbers that fit;
* `Address.IsWritten` — a numeral of an address, with or without its marker;
* `Address.IsWritten.parse`, `Address.IsWritten.isWord` — it is read back, and is a single word.
-/

namespace PointerChains

namespace Text.Hex

variable {c : Char} {cs : List Char} {d n : Nat}

/-- The characters are digits, one at least, that stand for `n`. -/
def Denotes (cs : List Char) (n : Nat) : Prop :=
  cs ≠ [] ∧ ∃ ds, cs.map digitValue? = ds.map some ∧ value ds = n

theorem toNat_of_digitValue? (h : digitValue? c = some d) :
    (0x30 ≤ c.toNat ∧ c.toNat ≤ 0x39) ∨ (0x41 ≤ c.toNat ∧ c.toNat ≤ 0x46) ∨
      (0x61 ≤ c.toNat ∧ c.toNat ≤ 0x66) := by
  unfold digitValue? at h
  split at h
  · exact .inl ‹_›
  · split at h
    · exact .inr (.inl ‹_›)
    · split at h
      · exact .inr (.inr ‹_›)
      · cases h

theorem isBlank_of_digitValue? (h : digitValue? c = some d) : isBlank c = false := by
  have hrange := toNat_of_digitValue? h
  -- every interval of blanks ends below the digits or starts above them
  have hapart : ∀ i ∈ blankIntervals, i.2 < 0x30 ∨ 0x66 < i.1 := by decide
  rw [isBlank, List.any_eq_false]
  intro i hi
  have hi := hapart i hi
  simp only [Bool.and_eq_true, decide_eq_true_eq]
  omega

theorem Denotes.exists_digitValue? (h : Denotes cs n) : ∀ c ∈ cs, ∃ d, digitValue? c = some d := by
  obtain ⟨-, ds, hmap, -⟩ := h
  intro c hc
  have hmem : digitValue? c ∈ ds.map some := hmap ▸ List.mem_map_of_mem hc
  obtain ⟨d, -, hd⟩ := List.mem_map.1 hmem
  exact ⟨d, hd.symm⟩

/-- The digits behind a first one are those of the other characters. -/
theorem exists_digits_cons_iff {P : List Nat → Prop} (h : digitValue? c = some d) :
    (∃ ds, (c :: cs).map digitValue? = ds.map some ∧ P ds) ↔
      ∃ ds, cs.map digitValue? = ds.map some ∧ P (d :: ds) := by
  constructor
  · rintro ⟨_ | ⟨e, ds⟩, hds, hP⟩
    · cases hds
    · simp only [List.map_cons, h, List.cons.injEq, Option.some.injEq] at hds
      obtain ⟨rfl, hds⟩ := hds
      exact ⟨ds, hds, hP⟩
  · rintro ⟨ds, hds, hP⟩
    exact ⟨d :: ds, by simp [h, hds], hP⟩

/-- Further digits never make a number smaller. -/
theorem le_foldl_digits (ds : List Nat) (acc : Nat) :
    acc ≤ ds.foldl (fun acc d => acc * 16 + d) acc := by
  induction ds generalizing acc with
  | nil => exact Nat.le_refl acc
  | cons d ds ih =>
    calc acc ≤ acc * 16 + d := by omega
      _ ≤ ds.foldl (fun acc d => acc * 16 + d) (acc * 16 + d) := ih _

end Text.Hex

namespace Address

open Text (IsWord trim)
open Text.Hex (Denotes digitValue?)

variable {a : Address} {cs : List Char} {acc n : Nat}

/-- The reader accepts exactly the digits that leave the number inside a word. -/
theorem readDigits_eq_ok_iff (hacc : acc < 2 ^ 64) :
    readDigits acc cs = .ok n ↔
      n < 2 ^ 64 ∧ ∃ ds : List Nat, cs.map digitValue? = ds.map some ∧
        ds.foldl (fun acc d => acc * 16 + d) acc = n := by
  induction cs generalizing acc with
  | nil =>
    constructor
    · intro h
      cases h
      exact ⟨hacc, [], rfl, rfl⟩
    · rintro ⟨-, ds, hds, rfl⟩
      cases ds with
      | nil => rfl
      | cons d ds => cases hds
  | cons c cs ih =>
    cases hd : digitValue? c with
    | none =>
      simp only [readDigits, hd]
      constructor
      · intro h
        cases h
      · rintro ⟨-, ds, hds, -⟩
        cases ds <;> simp [hd] at hds
    | some d =>
      rw [Text.Hex.exists_digits_cons_iff hd]
      simp only [readDigits, hd]
      split
      · exact ih ‹_›
      · constructor
        · intro h
          cases h
        · -- the number has left the word, and does not come back
          rintro ⟨hn, ds, -, rfl⟩
          have hle := Text.Hex.le_foldl_digits ds (acc * 16 + d)
          rw [List.foldl_cons] at hn
          omega

/-- The characters are a numeral of the address, behind a marker or behind none. -/
def IsWritten (a : Address) (cs : List Char) : Prop :=
  ∃ marker ∈ [[], ['0', 'x'], ['0', 'X']], ∃ digits, cs = marker ++ digits ∧ Denotes digits a.toNat

namespace IsWritten

theorem isWord (h : a.IsWritten cs) : IsWord cs := by
  obtain ⟨marker, hmarker, digits, rfl, hdigits⟩ := h
  refine ⟨by simp [hdigits.1], ?_⟩
  intro c hc
  rcases List.mem_append.1 hc with hc | hc
  · have hmarkers : ∀ marker ∈ [[], ['0', 'x'], ['0', 'X']], marker.all (!Text.isBlank ·) := by
      decide
    simpa using List.all_eq_true.1 (hmarkers marker hmarker) c hc
  · obtain ⟨d, hd⟩ := hdigits.exists_digitValue? c hc
    exact Text.Hex.isBlank_of_digitValue? hd

theorem dash_not_mem (h : a.IsWritten cs) : '-' ∉ cs := by
  obtain ⟨marker, hmarker, digits, rfl, hdigits⟩ := h
  rw [List.mem_append, not_or]
  constructor
  · revert marker
    decide
  · intro hmem
    obtain ⟨d, hd⟩ := hdigits.exists_digitValue? '-' hmem
    cases hd

theorem dropMarker (h : a.IsWritten cs) :
    ∃ c digits, Address.dropMarker cs = c :: digits ∧ c ≠ '+' ∧ Denotes (c :: digits) a.toNat := by
  obtain ⟨marker, hmarker, _ | ⟨c, digits⟩, rfl, hdigits⟩ := h
  · exact absurd rfl hdigits.1
  have hdigit := hdigits.exists_digitValue?
  refine ⟨c, digits, ?_, ?_, hdigits⟩
  · simp only [List.mem_cons, List.not_mem_nil, or_false] at hmarker
    rcases hmarker with rfl | rfl | rfl
    · -- the letters of a marker are no digits
      rw [List.nil_append, Address.dropMarker.eq_def]
      split
      · rename_i heq
        obtain ⟨d, hd⟩ := hdigit 'x' (by simp [heq])
        cases hd
      · rename_i heq
        obtain ⟨d, hd⟩ := hdigit 'X' (by simp [heq])
        cases hd
      · rfl
    · rfl
    · rfl
  · rintro rfl
    obtain ⟨d, hd⟩ := hdigit '+' (by simp)
    cases hd

/-- A numeral of an address is read as that address. -/
theorem parse (h : a.IsWritten cs) : Address.parse (String.ofList cs) = .ok a := by
  have htrim : trim cs = cs := Text.trim_of_isWord h.isWord
  obtain ⟨c, digits, hdrop, hplus, -, ds, hds, hvalue⟩ := h.dropMarker
  have hread : readDigits 0 (c :: digits) = .ok a.toNat :=
    (readDigits_eq_ok_iff (by decide)).2 ⟨a.toNat_lt, ds, hds, hvalue⟩
  rw [Address.parse, String.toList_ofList, htrim, hdrop]
  split
  · cases ‹c :: digits = []›
  · rename_i heq
    exact absurd (List.cons.inj heq).1 hplus
  · rw [hread]
    exact congrArg Except.ok a.ofNat_toNat

end IsWritten

end Address

end PointerChains
