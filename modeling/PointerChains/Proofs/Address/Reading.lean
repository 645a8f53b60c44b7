import PointerChains.Proofs.Address.Numerals

/-!
# Texts that are addresses

A text is read in three steps: its margins go, one marker goes, and what is left is read from left
to right behind an optional plus sign.  The number so far never falls, so the reader stops at the
first place where something is wrong for good: at a character that is no digit, or at a digit that
takes the number out of the word.

* `Address.Bare` — what is left of a text, and `Address.exists_bare`, `Address.Bare.eq`: there is
  one such rest;
* `Address.Signed` — a property of the digits behind an optional plus sign;
* `Address.readNumeral_eq_ok_iff`, `Address.readNumeral_eq_tooLarge_iff` — what the reader does with
  digits;
* `Address.isWritten_text` — the shown form is a numeral of the address;
* `Address.parse_spec` — **what is read, and why other texts are refused**, and that an address is
  read back from its shown form.
-/

namespace PointerChains

namespace Text

/-- A text is what is left between its margins, with the margins around it. -/
theorem exists_margins (cs : List Char) :
    ∃ left right, cs = left ++ trim cs ++ right ∧ IsBlanks left ∧ IsBlanks right ∧
      IsTrimmed (trim cs) := by
  have hstart : cs = cs.takeWhile isBlank ++ trimStart cs :=
    List.takeWhile_append_dropWhile.symm
  have hend : trimStart cs = trim cs ++ ((trimStart cs).reverse.takeWhile isBlank).reverse := by
    rw [trim, trimEnd, ← List.reverse_append, List.takeWhile_append_dropWhile, List.reverse_reverse]
  refine ⟨cs.takeWhile isBlank, ((trimStart cs).reverse.takeWhile isBlank).reverse,
    ?_, ?_, ?_, ?_, ?_⟩
  · rw [List.append_assoc, ← hend]
    exact hstart
  · exact fun c hc => List.mem_takeWhile_imp hc
  · exact fun c hc => List.mem_takeWhile_imp (List.mem_reverse.1 hc)
  · -- what is left at the start is left without its end too
    intro c hc
    have hhead := List.head?_dropWhile_not isBlank cs
    have hfirst : (cs.dropWhile isBlank).head? = some c := by
      rw [← trimStart, hend, List.head?_append, Option.mem_def.1 hc, Option.some_or]
    rw [hfirst] at hhead
    simpa using hhead
  · intro c hc
    have hhead := List.head?_dropWhile_not isBlank (trimStart cs).reverse
    rw [trim, trimEnd, List.getLast?_reverse, Option.mem_def] at hc
    rw [hc] at hhead
    simpa using hhead

namespace Hex

theorem denotes_digits (letters : Letters) (n : Nat) : Denotes (digits letters n) n := by
  refine ⟨by simp [digits, digitValues_ne_nil], digitValues n, ?_, value_digitValues n⟩
  rw [digits, List.map_map]
  refine List.map_congr_left ?_
  intro d hd
  exact digitValue?_digit letters (digitValues_lt n d hd)

/-- Digits do not open with a plus sign. -/
theorem not_denotes_plus (cs : List Char) (n : Nat) : ¬Denotes ('+' :: cs) n := by
  intro h
  obtain ⟨d, hd⟩ := h.exists_digitValue? '+' (List.mem_cons_self ..)
  cases hd

end Hex

end Text

namespace Address

open Text (IsBlanks IsTrimmed trim)
open Text.Hex (Denotes digitValue?)

variable {s : String} {a : Address} {cs core : List Char} {acc n : Nat}

/-! ### What is left of a text -/

/-- The characters that are left of a text without its blank margins and without one marker. -/
def Bare (s : String) (cs : List Char) : Prop :=
  ∃ left core right, s.toList = left ++ core ++ right ∧ IsBlanks left ∧ IsTrimmed core ∧
    IsBlanks right ∧ ∃ marker ∈ [[], ['0', 'x'], ['0', 'X']], core = marker ++ cs ∧
      (marker = [] → ¬['0', 'x'] <+: cs ∧ ¬['0', 'X'] <+: cs)

theorem dropMarker_eq_iff : dropMarker core = cs ↔
    ∃ marker ∈ [[], ['0', 'x'], ['0', 'X']], core = marker ++ cs ∧
      (marker = [] → ¬['0', 'x'] <+: cs ∧ ¬['0', 'X'] <+: cs) := by
  constructor
  · rintro rfl
    rw [dropMarker.eq_def]
    split
    · exact ⟨['0', 'x'], by simp, rfl, by simp⟩
    · exact ⟨['0', 'X'], by simp, rfl, by simp⟩
    · rename_i hlower hupper
      refine ⟨[], by simp, rfl, fun _ => ⟨?_, ?_⟩⟩
      · rintro ⟨rest, hrest⟩
        exact hlower rest hrest.symm
      · rintro ⟨rest, hrest⟩
        exact hupper rest hrest.symm
  · rintro ⟨marker, hmarker, rfl, hnone⟩
    simp only [List.mem_cons, List.not_mem_nil, or_false] at hmarker
    rcases hmarker with rfl | rfl | rfl
    · obtain ⟨hlower, hupper⟩ := hnone rfl
      rw [List.nil_append, dropMarker.eq_def]
      split
      · exact absurd ⟨_, rfl⟩ hlower
      · exact absurd ⟨_, rfl⟩ hupper
      · rfl
    · rfl
    · rfl

theorem Bare.eq (h : Bare s cs) : dropMarker (trim s.toList) = cs := by
  obtain ⟨left, core, right, hs, hleft, hcore, hright, hmarker⟩ := h
  rw [hs, Text.trim_margins hleft hcore hright]
  exact dropMarker_eq_iff.2 hmarker

/-- Something is left of every text, be it nothing at all. -/
theorem exists_bare (s : String) : ∃ cs, Bare s cs := by
  obtain ⟨left, right, hs, hleft, hright, hcore⟩ := Text.exists_margins s.toList
  exact ⟨_, left, trim s.toList, right, hs, hleft, hcore, hright, dropMarker_eq_iff.1 rfl⟩

/-! ### Signs -/

/-- The characters behind an optional plus sign have a property. -/
def Signed (P : List Char → Prop) (cs : List Char) : Prop :=
  ∃ sign ∈ [[], ['+']], ∃ digits, cs = sign ++ digits ∧ P digits

/-- The characters behind a plus sign, if there is one. -/
def unsigned : List Char → List Char
  | '+' :: cs => cs
  | cs => cs

/-- Where no plus sign can open what is behind the sign, there is one way to take a sign off. -/
theorem signed_iff {P : List Char → Prop} (hP : ∀ ds, ¬P ('+' :: ds)) :
    Signed P cs ↔ P (unsigned cs) := by
  constructor
  · rintro ⟨sign, hsign, digits, rfl, hdigits⟩
    simp only [List.mem_cons, List.not_mem_nil, or_false] at hsign
    rcases hsign with rfl | rfl
    · rw [List.nil_append, unsigned.eq_def]
      split
      · exact absurd hdigits (hP _)
      · exact hdigits
    · exact hdigits
  · intro h
    rw [unsigned.eq_def] at h
    split at h
    · exact ⟨['+'], by simp, _, rfl, h⟩
    · exact ⟨[], by simp, _, rfl, h⟩

/-! ### The digits of a number -/

/-- The characters start with digits of a number that fits into no word. -/
def Overflows (cs : List Char) : Prop :=
  ∃ digits rest n, cs = digits ++ rest ∧ Denotes digits n ∧ 2 ^ 64 ≤ n

/-- Without a digit the number stays in the word. -/
theorem ne_nil_of_large (hacc : acc < 2 ^ 64) {digits : List Char} {ds : List Nat}
    (hds : digits.map digitValue? = ds.map some)
    (hlarge : 2 ^ 64 ≤ ds.foldl (fun acc d => acc * 16 + d) acc) : digits ≠ [] := by
  rintro rfl
  cases ds with
  | nil => exact absurd hlarge (Nat.not_le.2 hacc)
  | cons d ds => cases hds

/-- The reader refuses a number as soon as the digits so far take it out of the word. -/
theorem readDigits_eq_tooLarge_iff (hacc : acc < 2 ^ 64) :
    readDigits acc cs = .error .tooLarge ↔
      ∃ digits rest, cs = digits ++ rest ∧ ∃ ds : List Nat, digits.map digitValue? = ds.map some ∧
        2 ^ 64 ≤ ds.foldl (fun acc d => acc * 16 + d) acc := by
  induction cs generalizing acc with
  | nil =>
    refine iff_of_false (by simp [readDigits]) ?_
    rintro ⟨digits, rest, heq, ds, hds, hlarge⟩
    exact ne_nil_of_large hacc hds hlarge (List.append_eq_nil_iff.1 heq.symm).1
  | cons c cs ih =>
    cases hd : digitValue? c with
    | none =>
      refine iff_of_false (by simp [readDigits, hd]) ?_
      rintro ⟨_ | ⟨c', digits⟩, rest, heq, ds, hds, hlarge⟩
      · exact ne_nil_of_large hacc hds hlarge rfl
      · cases heq
        cases ds <;> simp [hd] at hds
    | some d =>
      simp only [readDigits, hd]
      split
      · rw [ih ‹_›]
        constructor
        · rintro ⟨digits, rest, rfl, hlarge⟩
          exact ⟨c :: digits, rest, rfl, (Text.Hex.exists_digits_cons_iff hd).2 hlarge⟩
        · rintro ⟨_ | ⟨c', digits⟩, rest, heq, hlarge⟩
          · obtain ⟨ds, hds, hlarge⟩ := hlarge
            exact absurd rfl (ne_nil_of_large hacc hds hlarge)
          · cases heq
            exact ⟨digits, rest, rfl, (Text.Hex.exists_digits_cons_iff hd).1 hlarge⟩
      · refine iff_of_true rfl ⟨[c], cs, rfl, [d], by simp [hd], ?_⟩
        exact Nat.not_lt.1 ‹_›

theorem readDigits_ne_empty : readDigits acc cs ≠ .error .empty := by
  fun_induction readDigits acc cs with
  | case3 acc c cs d hd hlt ih => exact ih
  | _ => simp

theorem not_overflows_plus (ds : List Char) : ¬Overflows ('+' :: ds) := by
  rintro ⟨_ | ⟨c, digits⟩, rest, n, heq, hdigits, -⟩
  · exact hdigits.1 rfl
  · cases heq
    exact Text.Hex.not_denotes_plus digits n hdigits

theorem readNumeral_eq_ok_iff : readNumeral cs = .ok n ↔ Denotes cs n ∧ n < 2 ^ 64 := by
  cases cs with
  | nil => simp [readNumeral, Denotes]
  | cons c cs =>
    rw [readNumeral, readDigits_eq_ok_iff (by decide), and_comm]
    · exact and_congr_left' (and_iff_right (List.cons_ne_nil c cs)).symm
    · exact List.cons_ne_nil c cs

theorem readNumeral_eq_tooLarge_iff : readNumeral cs = .error .tooLarge ↔ Overflows cs := by
  have hread : readNumeral cs = .error .tooLarge ↔ readDigits 0 cs = .error .tooLarge := by
    cases cs with
    | nil => simp [readNumeral, readDigits]
    | cons c cs => rw [readNumeral]; exact List.cons_ne_nil c cs
  rw [hread, readDigits_eq_tooLarge_iff (by decide)]
  constructor
  · rintro ⟨digits, rest, rfl, ds, hds, hlarge⟩
    exact ⟨digits, rest, _, rfl, ⟨ne_nil_of_large (by decide) hds hlarge, ds, hds, rfl⟩, hlarge⟩
  · rintro ⟨digits, rest, _, rfl, ⟨-, ds, hds, rfl⟩, hlarge⟩
    exact ⟨digits, rest, rfl, ds, hds, hlarge⟩

theorem readNumeral_ne_empty : readNumeral cs ≠ .error .empty := by
  cases cs with
  | nil => simp [readNumeral]
  | cons c cs =>
    rw [readNumeral]
    · exact readDigits_ne_empty
    · exact List.cons_ne_nil c cs

/-- What is left of a text is read behind its sign, if anything is left. -/
theorem Bare.parse_eq (h : Bare s cs) : parse s =
    if cs = [] then .error .empty else ofNat <$> readNumeral (unsigned cs) := by
  rw [parse, h.eq]
  split
  · rw [if_pos rfl]
  · rw [if_neg (by simp)]
    rfl
  · rename_i hne hplus
    rw [if_neg (hne ·)]
    have hunsigned : unsigned cs = cs := by
      rw [unsigned.eq_def]
      split
      · exact absurd rfl (hplus _)
      · rfl
    rw [hunsigned, readNumeral]
    exact hne

theorem Bare.parse_eq_ok_iff (h : Bare s cs) :
    parse s = .ok a ↔ ∃ n < 2 ^ 64, Signed (Denotes · n) cs ∧ a = ofNat n := by
  have hsigned : ∀ n, Signed (Denotes · n) cs ↔ Denotes (unsigned cs) n := by
    intro n
    exact signed_iff fun ds => Text.Hex.not_denotes_plus ds n
  simp only [hsigned, h.parse_eq]
  split
  · rename_i hnil
    refine iff_of_false (by simp) ?_
    rintro ⟨n, -, ⟨hne, -⟩, -⟩
    exact hne (by rw [hnil]; rfl)
  · cases hread : readNumeral (unsigned cs) with
    | error fault =>
      refine iff_of_false (by simp) ?_
      rintro ⟨n, hn, hdigits, -⟩
      rw [readNumeral_eq_ok_iff.2 ⟨hdigits, hn⟩] at hread
      cases hread
    | ok n =>
      obtain ⟨hdigits, hn⟩ := readNumeral_eq_ok_iff.1 hread
      constructor
      · intro heq
        exact ⟨n, hn, hdigits, (Except.ok.inj heq).symm⟩
      · rintro ⟨m, hm, hdigits', rfl⟩
        have hread' := readNumeral_eq_ok_iff.2 ⟨hdigits', hm⟩
        rw [hread, Except.ok.injEq] at hread'
        exact congrArg (Except.ok <| ofNat ·) hread'

theorem Bare.parse_eq_empty_iff (h : Bare s cs) : parse s = .error .empty ↔ cs = [] := by
  rw [h.parse_eq]
  split
  · exact iff_of_true rfl ‹_›
  · refine iff_of_false ?_ ‹_›
    cases hread : readNumeral (unsigned cs) with
    | error fault =>
      rintro ⟨⟩
      exact readNumeral_ne_empty hread
    | ok n => nofun

theorem Bare.parse_eq_tooLarge_iff (h : Bare s cs) :
    parse s = .error .tooLarge ↔ Signed Overflows cs := by
  rw [signed_iff not_overflows_plus, ← readNumeral_eq_tooLarge_iff, h.parse_eq]
  split
  · rename_i hnil
    rw [hnil]
    exact iff_of_false nofun nofun
  · cases readNumeral (unsigned cs) with
    | error fault =>
      constructor
      · rintro ⟨⟩
        rfl
      · rintro ⟨⟩
        rfl
    | ok n => exact iff_of_false nofun nofun

/-- The shown form of an address is a numeral of it. -/
theorem isWritten_text (a : Address) : a.IsWritten a.text.toList := by
  refine ⟨['0', 'x'], by simp, Text.Hex.digits .upper a.toNat, ?_, Text.Hex.denotes_digits ..⟩
  rw [text, Text.Hex.numeral, String.toList_append, String.toList_ofList, String.toList_ofList]

/-- **What is read, and why other texts are refused.**  A text is an address exactly if digits of a
number inside the word are left of it, behind an optional plus sign, and then it is read as that
number.  Otherwise nothing is left of it, or it starts with digits of a number that fits into no
word, or else a character is no digit.  The shown form of an address is read as that address. -/
theorem parse_spec :
    (∀ s, ∃ cs, Bare s cs) ∧
    (∀ s cs, Bare s cs →
      (∀ a, parse s = .ok a ↔ ∃ n < 2 ^ 64, Signed (Denotes · n) cs ∧ a = ofNat n) ∧
      (parse s = .error .empty ↔ cs = []) ∧
      (parse s = .error .tooLarge ↔ Signed Overflows cs) ∧
      (parse s = .error .invalidDigit ↔
        cs ≠ [] ∧ ¬Signed Overflows cs ∧ ¬∃ n < 2 ^ 64, Signed (Denotes · n) cs)) ∧
    ∀ a : Address, parse a.text = .ok a := by
  refine ⟨exists_bare, ?_, ?_⟩
  · intro s cs h
    have hok : (∃ n < 2 ^ 64, Signed (Denotes · n) cs) ↔ ∃ a, parse s = .ok a := by
      simp only [h.parse_eq_ok_iff]
      constructor
      · rintro ⟨n, hn, hdigits⟩
        exact ⟨ofNat n, n, hn, hdigits, rfl⟩
      · rintro ⟨-, n, hn, hdigits, -⟩
        exact ⟨n, hn, hdigits⟩
    refine ⟨fun a => h.parse_eq_ok_iff, h.parse_eq_empty_iff, h.parse_eq_tooLarge_iff, ?_⟩
    rw [hok, ← h.parse_eq_tooLarge_iff, ne_eq, ← h.parse_eq_empty_iff]
    cases parse s with
    | ok a => simp
    | error fault => cases fault <;> simp
  · intro a
    have hread := (isWritten_text a).parse
    rwa [String.ofList_toList] at hread

theorem parse_spec_margins :
    (Bare " 0X+00fF\u3000" ['+', '0', '0', 'f', 'F'] ∧
      Bare "10000000000000000-" (['1'] ++ List.replicate 16 '0' ++ ['-'])) ∧
    parse " 0X+00fF\u3000" = .ok (.ofNat 0xFF) ∧
    parse "10000000000000000-" = .error .tooLarge ∧
    parse (ofNat 0xFF).text = .ok (.ofNat 0xFF) := by
  have hmargins : Bare " 0X+00fF\u3000" ['+', '0', '0', 'f', 'F'] :=
    ⟨[' '], ['0', 'X', '+', '0', '0', 'f', 'F'], ['\u3000'], rfl, by decide, by decide, by decide,
      ['0', 'X'], by decide, rfl, by decide⟩
  have hlong : Bare "10000000000000000-" (['1'] ++ List.replicate 16 '0' ++ ['-']) :=
    ⟨[], ['1'] ++ List.replicate 16 '0' ++ ['-'], [], rfl, by decide, by decide, by decide,
      [], by decide, rfl, by decide⟩
  obtain ⟨-, hread, htext⟩ := parse_spec
  refine ⟨⟨hmargins, hlong⟩, ?_, ?_, htext (ofNat 0xFF)⟩
  · exact ((hread _ _ hmargins).1 _).2 ⟨0xFF, by decide,
      ⟨['+'], by decide, _, rfl, by decide, [0, 0, 15, 15], rfl, rfl⟩, rfl⟩
  · exact (hread _ _ hlong).2.2.1.2 ⟨[], by decide, _, rfl, ['1'] ++ List.replicate 16 '0', ['-'],
      2 ^ 64, rfl, ⟨by decide, 1 :: List.replicate 16 0, rfl, by decide⟩, Nat.le_refl _⟩

/-- A character that is no digit is met before the number leaves the word. -/
example : parse "1000000000000000-0" = .error .invalidDigit := by cbv

end Address

end PointerChains
