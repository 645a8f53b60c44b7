import PointerChains.Map.Listing
import PointerChains.Proofs.Address.Numerals
import PointerChains.Proofs.Causes

/-!
# Lines of a listing

A line is read word by word, and what is left behind the fifth word is the pathname.  Blanks only
part the fields, so how many there are, and of which kind, is of no account.

* `Access.named`, `Access.ofLetters_eq_named` — the permissions of a field by its letters;
* `Listing.Padding`, `Listing.Gap`, `Listing.Word`, `Listing.Row` — a way to write an entry on a
  line, and `Listing.Row.text` with `Listing.Row.entry`;
* `Mapping.ofLine_row` — the entry is read back;
* `Listing.Malformed`, `Mapping.exists_ofLine_eq_error` — the faults for which a line is refused;
* `Mapping.ofLine_concat_blanks` — blanks at the end of a line do not matter.
-/

namespace PointerChains

open Text (IsBlanks IsTrimmed IsWord isBlank trim word? words)

/-! ### Permissions -/

namespace Access

/-- The permission if its letter is among the characters, and none otherwise. -/
def pick (cs : List Char) (c : Char) (p : Access) : Access := if c ∈ cs then p else none

/-- The permissions whose letters are among the characters. -/
def named (cs : List Char) : Access :=
  pick cs 'r' read ∪ pick cs 'w' write ∪ pick cs 'x' exec ∪ pick cs 's' shared

theorem union_assoc (a b c : Access) : a ∪ b ∪ c = a ∪ (b ∪ c) :=
  congrArg Access.mk (UInt8.or_assoc ..)

theorem union_comm (a b : Access) : a ∪ b = b ∪ a :=
  congrArg Access.mk (UInt8.or_comm ..)

theorem union_left_comm (a b c : Access) : a ∪ (b ∪ c) = b ∪ (a ∪ c) := by
  rw [← union_assoc, union_comm a b, union_assoc]

theorem union_self (a : Access) : a ∪ a = a :=
  congrArg Access.mk UInt8.or_self

theorem none_union (a : Access) : none ∪ a = a :=
  congrArg Access.mk UInt8.zero_or

theorem union_none (a : Access) : a ∪ none = a :=
  congrArg Access.mk UInt8.or_zero

theorem pick_append (cs ds : List Char) (c : Char) (p : Access) :
    pick (cs ++ ds) c p = pick cs c p ∪ pick ds c p := by
  by_cases hcs : c ∈ cs <;> by_cases hds : c ∈ ds <;>
    simp [pick, hcs, hds, union_self, none_union, union_none]

theorem named_append (cs ds : List Char) : named (cs ++ ds) = named cs ∪ named ds := by
  simp only [named, pick_append, union_assoc, union_left_comm]

theorem ofLetter_eq_named (c : Char) : ofLetter c = named [c] := by
  rw [ofLetter.eq_def]
  split
  · rfl
  · rfl
  · rfl
  · rfl
  · rename_i hr hw hx hs
    have hpick : ∀ {d : Char} {p : Access}, (c = d → False) → pick [c] d p = none := by
      intro d p h
      rw [pick, if_neg]
      exact fun hmem => h (List.mem_singleton.1 hmem).symm
    rw [named, hpick hr, hpick hw, hpick hx, hpick hs]
    rfl

/-- The letters of a field are read as the permissions that they name, in whatever order. -/
theorem ofLetters_eq_named (cs : List Char) : ofLetters cs = named cs := by
  have hfold : ∀ a : Access, cs.foldl (fun a c => a ∪ ofLetter c) a = a ∪ named cs := by
    induction cs with
    | nil => exact fun a => (union_none a).symm
    | cons c cs ih =>
      intro a
      have hcons : named (c :: cs) = named [c] ∪ named cs := named_append [c] cs
      rw [List.foldl_cons, ih, ofLetter_eq_named, hcons, union_assoc]
  rw [ofLetters, hfold, none_union]

end Access

/-! ### Ways to write an entry -/

namespace Listing

/-- White space on one line, or nothing. -/
structure Padding where
  text : List Char
  blank : IsBlanks text
  oneLine : '\n' ∉ text

/-- White space that parts two fields. -/
structure Gap extends Padding where
  nonempty : text ≠ []

/-- A field without white space. -/
structure Word where
  text : List Char
  isWord : IsWord text

/-- A way to write an entry on a line. -/
structure Row where
  range : AddressRange
  ordered : range.start < range.stop
  margin : Padding
  /-- The numerals of the two ends of the range. -/
  start : { cs : List Char // range.start.IsWritten cs }
  stop : { cs : List Char // range.stop.IsWritten cs }
  gap₁ : Gap
  permissions : Word
  gap₂ : Gap
  offset : Word
  gap₃ : Gap
  device : Word
  gap₄ : Gap
  inode : Word
  /-- What parts the inode from the pathname, if there is one. -/
  gap₅ : Padding
  pathname : List Char
  trimmed : IsTrimmed pathname
  oneLine : '\n' ∉ pathname
  parted : pathname ≠ [] → gap₅.text ≠ []
  tail : Padding

namespace Row

/-- The range field. -/
def field (r : Row) : List Char := r.start ++ '-' :: r.stop

/-- The line. -/
def text (r : Row) : List Char :=
  r.margin.text ++ (r.field ++ (r.gap₁.text ++ (r.permissions.text ++ (r.gap₂.text ++
    (r.offset.text ++ (r.gap₃.text ++ (r.device.text ++ (r.gap₄.text ++ (r.inode.text ++
      (r.gap₅.text ++ r.pathname ++ r.tail.text))))))))))

/-- What the line says. -/
def entry (r : Row) : Mapping :=
  { range := r.range, access := .named r.permissions.text,
    pathname := String.ofList r.pathname }

end Row

end Listing

namespace Mapping

open Listing

variable {n : Nat} {fault : LineFault} {field start stop pad cs : List Char}

/-! ### The range field -/

theorem keep_of_dash_not_mem (h : '-' ∉ cs) : ∀ c ∈ cs, (c != '-') = true := by
  intro c hc
  rw [bne_iff_ne]
  rintro rfl
  exact h hc

/-- A field with a dash is read in front of the first dash and behind it. -/
theorem readRange_dash (h : '-' ∉ start) :
    readRange n (start ++ '-' :: stop) =
      (do let a ← Address.read (String.ofList start)
          let b ← Address.read (String.ofList stop)
          AddressRange.make a b) := by
  have hkeep := keep_of_dash_not_mem h
  rw [readRange, List.dropWhile_append_of_pos hkeep, List.takeWhile_append_of_pos hkeep,
    List.dropWhile_cons_of_neg (by decide), List.takeWhile_cons_of_neg (by decide),
    List.append_nil]

theorem readRange_no_dash (h : '-' ∉ field) :
    readRange n field = .error (.invalidOption (.mapLine n .badRange)) := by
  rw [readRange, List.dropWhile_eq_nil_iff.2 (keep_of_dash_not_mem h)]

theorem readRange_row (r : Row) : readRange n r.field = .ok r.range := by
  have hread : ∀ {a : Address} {cs : List Char}, a.IsWritten cs →
      Address.read (String.ofList cs) = .ok a := by
    intro a cs h
    rw [Address.read, h.parse]
    rfl
  rw [Row.field, readRange_dash r.start.2.dash_not_mem, hread r.start.2, hread r.stop.2]
  show AddressRange.make r.range.start r.range.stop = .ok r.range
  rw [AddressRange.make, if_pos r.ordered]

/-! ### The words of a line -/

theorem nextWord_eq_ok_iff {split : List Char × List Char} :
    nextWord n fault cs = .ok split ↔ word? cs = some split := by
  rw [nextWord]
  cases word? cs <;> simp

/-- A word behind blanks, and in front of a blank or the end, is the next one. -/
theorem nextWord_padding (p : Padding) {word rest : List Char} (hword : IsWord word)
    (hrest : ∀ c ∈ rest.head?, isBlank c = true) :
    nextWord n fault (p.text ++ (word ++ rest)) = .ok (word, rest) :=
  nextWord_eq_ok_iff.2 (Text.word?_of_isWord p.blank hword hrest)

theorem words_of_nextWord {word rest : List Char} (h : nextWord n fault cs = .ok (word, rest)) :
    words cs = word :: words rest :=
  Text.words_of_word? (nextWord_eq_ok_iff.1 h)

/-- Blanks at the end stay behind the next word. -/
theorem nextWord_concat_blanks (h : IsBlanks pad) :
    nextWord n fault (cs ++ pad) =
      (fun split => (split.1, split.2 ++ pad)) <$> nextWord n fault cs := by
  rw [nextWord, nextWord, Text.word?_concat_blanks h]
  cases word? cs <;> rfl

end Mapping

/-! ### Reading a row -/

namespace Listing

theorem Gap.head?_append (g : Gap) (cs : List Char) :
    ∀ c ∈ (g.text ++ cs).head?, isBlank c = true := by
  rw [List.head?_append_of_ne_nil _ g.nonempty]
  exact fun c hc => g.blank c (List.mem_of_mem_head? hc)

theorem Row.field_isWord (r : Row) : IsWord r.field := by
  refine ⟨by simp [field], ?_⟩
  intro c hc
  rcases List.mem_append.1 hc with hc | hc
  · exact r.start.2.isWord.2 c hc
  · rcases List.mem_cons.1 hc with rfl | hc
    · rfl
    · exact r.stop.2.isWord.2 c hc

theorem Row.not_isBlanks (r : Row) : ¬IsBlanks r.text := by
  intro h
  have hdash := h '-' (by simp [text, field])
  cases hdash

/-- Only blanks stand next to the inode, also where there is no pathname. -/
theorem Row.head?_after_inode (r : Row) :
    ∀ c ∈ (r.gap₅.text ++ r.pathname ++ r.tail.text).head?, isBlank c = true := by
  by_cases hpathname : r.pathname = []
  · intro c hc
    rw [hpathname, List.append_nil] at hc
    rcases List.mem_append.1 (List.mem_of_mem_head? hc) with hc | hc
    · exact r.gap₅.blank c hc
    · exact r.tail.blank c hc
  · rw [List.append_assoc]
    exact Gap.head?_append ⟨r.gap₅, r.parted hpathname⟩ _

end Listing

namespace Mapping

open Listing

variable {n : Nat} {line pad : List Char} {e : Mapping}

/-- An entry is read from a line on which it is written. -/
theorem ofLine_row (n : Nat) (r : Row) : ofLine n r.text = .ok r.entry := by
  have hpathname : trim (r.gap₅.text ++ r.pathname ++ r.tail.text) = r.pathname :=
    Text.trim_margins r.gap₅.blank r.trimmed r.tail.blank
  rw [ofLine, Row.text, nextWord_padding r.margin r.field_isWord (r.gap₁.head?_append _)]
  show (nextWord n _ _ >>= _) = _
  rw [nextWord_padding r.gap₁.toPadding r.permissions.isWord (r.gap₂.head?_append _)]
  show (nextWord n _ _ >>= _) = _
  rw [nextWord_padding r.gap₂.toPadding r.offset.isWord (r.gap₃.head?_append _)]
  show (nextWord n _ _ >>= _) = _
  rw [nextWord_padding r.gap₃.toPadding r.device.isWord (r.gap₄.head?_append _)]
  show (nextWord n _ _ >>= _) = _
  rw [nextWord_padding r.gap₄.toPadding r.inode.isWord r.head?_after_inode]
  show (readRange n r.field >>= _) = _
  rw [readRange_row]
  show Except.ok _ = _
  rw [hpathname, Row.entry, Access.ofLetters_eq_named]

/-- Blanks at the end of a line do not matter. -/
theorem ofLine_concat_blanks (n : Nat) (h : IsBlanks pad) (line : List Char) :
    ofLine n (line ++ pad) = ofLine n line := by
  simp only [ofLine, nextWord_concat_blanks h, bind_map_left, Text.trim_concat_blanks h]

/-- A line that is read has five words, and the first is the range. -/
theorem ofLine_eq_ok (h : ofLine n line = .ok e) :
    ∃ range more, words line = range :: more ∧ 4 ≤ more.length ∧
      readRange n range = .ok e.range := by
  obtain ⟨⟨range, cs₁⟩, h₁, h⟩ := exists_of_bind_eq_ok h
  obtain ⟨⟨permissions, cs₂⟩, h₂, h⟩ := exists_of_bind_eq_ok h
  obtain ⟨⟨offset, cs₃⟩, h₃, h⟩ := exists_of_bind_eq_ok h
  obtain ⟨⟨device, cs₄⟩, h₄, h⟩ := exists_of_bind_eq_ok h
  obtain ⟨⟨inode, cs₅⟩, h₅, h⟩ := exists_of_bind_eq_ok h
  obtain ⟨ends, hends, h⟩ := exists_of_bind_eq_ok h
  cases h
  refine ⟨range, permissions :: offset :: device :: inode :: words cs₅, ?_, by simp, hends⟩
  rw [words_of_nextWord h₁, words_of_nextWord h₂, words_of_nextWord h₃, words_of_nextWord h₄,
    words_of_nextWord h₅]

end Mapping

/-! ### Lines that are refused -/

namespace Listing

/-- What a line that is not blank is refused for. -/
inductive Malformed (line : List Char) : Prop
  /-- There are fewer than five fields. -/
  | truncated (hblank : ¬IsBlanks line) (hwords : (words line).length < 5)
  /-- The first field has no dash. -/
  | undashed {range : List Char} {more : List (List Char)} (hwords : words line = range :: more)
      (hdash : '-' ∉ range)
  /-- What stands in front of the first dash is no address. -/
  | badStart {start stop : List Char} {more : List (List Char)} {fault : Address.Fault}
      (hwords : words line = (start ++ '-' :: stop) :: more) (hdash : '-' ∉ start)
      (hstart : Address.parse (String.ofList start) = .error fault)
  /-- What stands behind the first dash is no address. -/
  | badStop {start stop : List Char} {more : List (List Char)} {fault : Address.Fault}
      (hwords : words line = (start ++ '-' :: stop) :: more) (hdash : '-' ∉ start)
      (hstop : Address.parse (String.ofList stop) = .error fault)
  /-- The range does not start below its end. -/
  | inverted {start stop : List Char} {more : List (List Char)} {a b : Address}
      (hwords : words line = (start ++ '-' :: stop) :: more) (hdash : '-' ∉ start)
      (hstart : Address.parse (String.ofList start) = .ok a)
      (hstop : Address.parse (String.ofList stop) = .ok b) (hle : b ≤ a)

theorem Malformed.not_isBlanks {line : List Char} (h : Malformed line) : ¬IsBlanks line := by
  intro hblank
  have hnone := Text.words_of_isBlanks hblank
  cases h with
  | truncated hline => exact hline hblank
  | undashed hwords => exact List.cons_ne_nil _ _ (hwords.symm.trans hnone)
  | badStart hwords => exact List.cons_ne_nil _ _ (hwords.symm.trans hnone)
  | badStop hwords => exact List.cons_ne_nil _ _ (hwords.symm.trans hnone)
  | inverted hwords => exact List.cons_ne_nil _ _ (hwords.symm.trans hnone)

end Listing

/-- A malformed line is refused. -/
theorem Mapping.exists_ofLine_eq_error {line : List Char} (h : Listing.Malformed line) (n : Nat) :
    ∃ cause, ofLine n line = .error cause := by
  cases hread : ofLine n line with
  | error cause => exact ⟨cause, rfl⟩
  | ok e =>
    exfalso
    obtain ⟨range, more, hwords, hlength, hrange⟩ := ofLine_eq_ok hread
    cases h with
    | truncated hblank hshort =>
      rw [hwords, List.length_cons] at hshort
      omega
    | undashed hline hdash =>
      cases hline.symm.trans hwords
      rw [readRange_no_dash hdash] at hrange
      cases hrange
    | badStart hline hdash hstart =>
      cases hline.symm.trans hwords
      rw [readRange_dash hdash, Address.read, hstart] at hrange
      cases hrange
    | badStop hline hdash hstop =>
      cases hline.symm.trans hwords
      rw [readRange_dash hdash] at hrange
      obtain ⟨a, -, hrange⟩ := exists_of_bind_eq_ok hrange
      rw [Address.read, hstop] at hrange
      cases hrange
    | inverted hline hdash hstart hstop hle =>
      cases hline.symm.trans hwords
      rw [readRange_dash hdash, Address.read, Address.read, hstart, hstop] at hrange
      change AddressRange.make _ _ = _ at hrange
      rw [AddressRange.make, if_neg] at hrange
      · cases hrange
      · rw [Address.lt_iff_toNat_lt]
        rw [Address.le_iff_toNat_le] at hle
        omega

end PointerChains
