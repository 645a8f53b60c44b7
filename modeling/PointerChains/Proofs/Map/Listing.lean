import PointerChains.Proofs.Map.Lines

/-!
# Listings

A carriage return at the end of a line is a blank at its end, and an empty line is a blank one.  So
a listing can be read as what stands between its line feeds, however its lines end.

* `Listing`, `Listing.text`, `Listing.entries` — a way to write entries one per line, with blank
  lines between them and either line ending;
* `Mapping.ofLines_lines` — only the line feeds matter;
* `Mapping.exists_ofLines_eq_error` — a malformed line refuses all the others;
* `MemoryMap.ofListing_written` — **a listing is read as the entries that are written in it, and
  refused for any malformed line.**
-/

namespace PointerChains

open Text (IsBlanks IsWord isBlank)

/-! ### Ways to write entries -/

namespace Listing

/-- How a line ends. -/
inductive LineEnd where
  | feed
  | returnFeed

/-- What an ending has in front of the line feed. -/
def LineEnd.beforeFeed : LineEnd → List Char
  | .feed => []
  | .returnFeed => ['\r']

/-- A line with an entry, or a blank one. -/
inductive Line where
  | row (r : Row)
  | blank (p : Padding)

/-- The characters of a line. -/
def Line.text : Line → List Char
  | .row r => r.text
  | .blank p => p.text

/-- The entry on a line. -/
def Line.entry? : Line → Option Mapping
  | .row r => some r.entry
  | .blank _ => none

end Listing

/-- A way to write entries one per line.  The last line has no ending, and is empty if the text ends
with the ending of another line. -/
structure Listing where
  closed : List (Listing.Line × Listing.LineEnd)
  last : Listing.Line

namespace Listing

/-- The characters of a listing. -/
def text (l : Listing) : List Char :=
  l.closed.flatMap (fun (line, ending) => line.text ++ ending.beforeFeed ++ ['\n']) ++ l.last.text

/-- The entries of a listing, in order. -/
def entries (l : Listing) : List Mapping :=
  l.closed.filterMap (fun (line, _) => line.entry?) ++ l.last.entry?.toList

/-! ### Line feeds -/

theorem newline_not_mem_of_isWord {cs : List Char} (h : IsWord cs) : '\n' ∉ cs := by
  intro hmem
  have hblank := h.2 '\n' hmem
  cases hblank

theorem Row.newline_not_mem (r : Row) : '\n' ∉ r.text := by
  simp only [Row.text, List.mem_append, not_or]
  exact ⟨r.margin.oneLine, newline_not_mem_of_isWord r.field_isWord, r.gap₁.oneLine,
    newline_not_mem_of_isWord r.permissions.isWord, r.gap₂.oneLine,
    newline_not_mem_of_isWord r.offset.isWord, r.gap₃.oneLine,
    newline_not_mem_of_isWord r.device.isWord, r.gap₄.oneLine,
    newline_not_mem_of_isWord r.inode.isWord, ⟨r.gap₅.oneLine, r.oneLine⟩, r.tail.oneLine⟩

theorem Line.newline_not_mem (line : Line) : '\n' ∉ line.text := by
  cases line with
  | row r => exact r.newline_not_mem
  | blank p => exact p.oneLine

/-- Between the line feeds stand the lines, each with what its ending has in front of the feed. -/
theorem splitOn_text (l : Listing) :
    l.text.splitOn '\n' =
      l.closed.map (fun (line, ending) => line.text ++ ending.beforeFeed) ++ [l.last.text] := by
  obtain ⟨closed, last⟩ := l
  induction closed with
  | nil => exact List.splitOn_eq_singleton last.newline_not_mem
  | cons first closed ih =>
    obtain ⟨line, ending⟩ := first
    have hline : '\n' ∉ line.text ++ ending.beforeFeed := by
      rw [List.mem_append, not_or]
      refine ⟨line.newline_not_mem, ?_⟩
      cases ending <;> decide
    have htext : Listing.text ⟨(line, ending) :: closed, last⟩ =
        (line.text ++ ending.beforeFeed) ++ '\n' :: Listing.text ⟨closed, last⟩ := by
      simp [Listing.text]
    rw [htext, List.splitOn_append_cons_self_of_not_mem hline, ih]
    rfl

end Listing

/-! ### Lines one after another -/

namespace Mapping

open Listing

variable {n : Nat} {line pad : List Char} {lines rest : List (List Char)}

/-- Blanks at the end of a line do not matter. -/
theorem ofLines_concat_blanks (h : IsBlanks pad) :
    ofLines n ((line ++ pad) :: rest) = ofLines n (line :: rest) := by
  have hall : (line ++ pad).all isBlank = line.all isBlank := by
    rw [List.all_append, List.all_eq_true.2 h, Bool.and_true]
  rw [ofLines, ofLines, hall, ofLine_concat_blanks n h]

theorem ofLines_dropReturn :
    ofLines n (Text.lines.dropReturn line :: rest) = ofLines n (line :: rest) := by
  rw [Text.lines.dropReturn]
  split
  · rename_i hreturn
    have hline : line.dropLast ++ ['\r'] = line := List.dropLast_append_getLast? '\r' hreturn
    calc ofLines n (line.dropLast :: rest)
        = ofLines n ((line.dropLast ++ ['\r']) :: rest) :=
          (ofLines_concat_blanks (by decide)).symm
      _ = ofLines n (line :: rest) := by rw [hline]
  · rfl

theorem ofLines_map_dropReturn (n : Nat) (lines rest : List (List Char)) :
    ofLines n (lines.map Text.lines.dropReturn ++ rest) = ofLines n (lines ++ rest) := by
  induction lines generalizing n with
  | nil => rfl
  | cons line lines ih =>
    rw [List.map_cons, List.cons_append, ofLines_dropReturn, ofLines, ih, List.cons_append, ofLines]

/-- An empty line at the end does not matter. -/
theorem ofLines_concat_nil (n : Nat) (lines : List (List Char)) :
    ofLines n (lines ++ [[]]) = ofLines n lines := by
  induction lines generalizing n with
  | nil => rfl
  | cons line lines ih => rw [List.cons_append, ofLines, ih, ofLines]

/-- The lines are what stands between the line feeds. -/
theorem ofLines_lines (n : Nat) (cs : List Char) :
    ofLines n (Text.lines cs) = ofLines n (cs.splitOn '\n') := by
  obtain ⟨closed, unclosed, hpieces⟩ : ∃ closed unclosed, cs.splitOn '\n' = closed ++ [unclosed] :=
    ⟨_, _, (List.dropLast_append_getLast (List.splitOn_ne_nil '\n' cs)).symm⟩
  have hclosed := ofLines_map_dropReturn n closed
  simp only [Text.lines, hpieces, List.getLast?_concat, List.dropLast_concat]
  split
  · cases ‹some unclosed = none›
  · cases ‹some unclosed = some []›
    rw [ofLines_concat_nil, ← List.append_nil (closed.map _), hclosed, List.append_nil]
  · cases ‹some unclosed = some _›
    exact hclosed [unclosed]

/-- A line that is written in a listing adds the entry on it. -/
theorem ofLines_line (n : Nat) (line : Line) (h : IsBlanks pad) (rest : List (List Char)) :
    ofLines n ((line.text ++ pad) :: rest) =
      (line.entry?.toList ++ ·) <$> ofLines (n + 1) rest := by
  rw [ofLines_concat_blanks h, ofLines]
  cases line with
  | row r =>
    rw [Line.text, if_neg (mt List.all_eq_true.1 r.not_isBlanks), ofLine_row]
    show (ofLines (n + 1) rest >>= _) = _
    cases ofLines (n + 1) rest <;> rfl
  | blank p =>
    rw [Line.text, if_pos (List.all_eq_true.2 p.blank)]
    cases ofLines (n + 1) rest <;> rfl

/-- Entries are read from the lines on which they are written. -/
theorem ofLines_listing (n : Nat) (l : Listing) :
    ofLines n (l.text.splitOn '\n') = .ok l.entries := by
  rw [l.splitOn_text]
  obtain ⟨closed, last⟩ := l
  induction closed generalizing n with
  | nil =>
    have hnone : IsBlanks [] := nofun
    have hlast := ofLines_line n last hnone []
    rw [List.append_nil] at hlast
    show ofLines n [last.text] = _
    rw [hlast]
    simp [ofLines, Listing.entries]
  | cons first closed ih =>
    obtain ⟨line, ending⟩ := first
    have hending : IsBlanks ending.beforeFeed := by cases ending <;> decide
    rw [List.map_cons, List.cons_append, ofLines_line n line hending, ih]
    show Except.ok (line.entry?.toList ++ (closed.filterMap _ ++ last.entry?.toList)) = _
    rw [Listing.entries]
    cases hentry : line.entry? <;> simp [hentry]

/-- A malformed line refuses the lines around it. -/
theorem exists_ofLines_eq_error (hmem : line ∈ lines) (h : Malformed line) (n : Nat) :
    ∃ cause, ofLines n lines = .error cause := by
  induction lines generalizing n with
  | nil => cases hmem
  | cons first lines ih =>
    rw [ofLines]
    split
    · rename_i hblank
      rcases List.mem_cons.1 hmem with rfl | hmem
      · exact absurd (List.all_eq_true.1 hblank) h.not_isBlanks
      · exact ih hmem (n + 1)
    · cases hfirst : ofLine n first with
      | error cause => exact ⟨cause, rfl⟩
      | ok e =>
        rcases List.mem_cons.1 hmem with rfl | hmem
        · obtain ⟨cause, hcause⟩ := exists_ofLine_eq_error h n
          rw [hfirst] at hcause
          cases hcause
        · obtain ⟨cause, hcause⟩ := ih hmem (n + 1)
          refine ⟨cause, ?_⟩
          show (ofLines (n + 1) lines >>= _) = _
          rw [hcause]
          rfl

end Mapping

namespace MemoryMap

theorem ofListing_eq (text : String) :
    ofListing text = (Mapping.ofLines 1 (text.toList.splitOn '\n') >>= build) := by
  rw [ofListing, Mapping.ofLines_lines]

/-- **A listing is read as the entries written in it, or refused for a malformed line.**  In
whatever way entries are written, what is read is what is built from them in their order, be it a
map or a refusal; and a text with a malformed line makes no map, whatever its other lines are. -/
theorem ofListing_written :
    (∀ l : Listing, ofListing (String.ofList l.text) = build l.entries) ∧
    ∀ (text : String) (line : List Char), line ∈ text.toList.splitOn '\n' →
      Listing.Malformed line → ∃ cause, ofListing text = .error cause := by
  constructor
  · intro l
    rw [ofListing_eq, String.toList_ofList, Mapping.ofLines_listing]
    rfl
  · intro text line hmem hline
    obtain ⟨cause, hcause⟩ := Mapping.exists_ofLines_eq_error hmem hline 1
    refine ⟨cause, ?_⟩
    rw [ofListing_eq, hcause]
    rfl

/-- Two entries, written with blanks of several kinds, a blank line and both line endings: one with
a blank in its pathname, and one without a pathname. -/
def paddedListing : Listing where
  closed :=
    [(.row
        { range := ⟨⟨0x1000⟩, ⟨0x2ABC⟩⟩
          ordered := by decide
          margin := ⟨[' ', '\t'], by decide, by decide⟩
          start := ⟨"0x01000".toList, ['0', 'x'], by decide, "01000".toList, rfl, by decide,
            [0, 1, 0, 0, 0], by decide, by decide⟩
          stop := ⟨"2aBc".toList, [], by decide, "2aBc".toList, rfl, by decide, [2, 10, 11, 12],
            by decide, by decide⟩
          gap₁ := ⟨⟨['\u00a0'], by decide, by decide⟩, by decide⟩
          permissions := ⟨"rw-p".toList, by decide⟩
          gap₂ := ⟨⟨['\t', '\t'], by decide, by decide⟩, by decide⟩
          offset := ⟨['0'], by decide⟩
          gap₃ := ⟨⟨[' '], by decide, by decide⟩, by decide⟩
          device := ⟨"08:01".toList, by decide⟩
          gap₄ := ⟨⟨[' '], by decide, by decide⟩, by decide⟩
          inode := ⟨['7'], by decide⟩
          gap₅ := ⟨[' ', ' '], by decide, by decide⟩
          pathname := "/lib/a b".toList
          trimmed := by decide
          oneLine := by decide
          parted := by decide
          tail := ⟨['\t'], by decide, by decide⟩ }, .returnFeed),
      (.blank ⟨[' '], by decide, by decide⟩, .feed)]
  last :=
    .row
      { range := ⟨⟨0xF⟩, ⟨0x10⟩⟩
        ordered := by decide
        margin := ⟨[], by decide, by decide⟩
        start := ⟨['F'], [], by decide, ['F'], rfl, by decide, [15], by decide, by decide⟩
        stop := ⟨['1', '0'], [], by decide, ['1', '0'], rfl, by decide, [1, 0], by decide,
          by decide⟩
        gap₁ := ⟨⟨[' '], by decide, by decide⟩, by decide⟩
        permissions := ⟨"r--s".toList, by decide⟩
        gap₂ := ⟨⟨[' '], by decide, by decide⟩, by decide⟩
        offset := ⟨['0'], by decide⟩
        gap₃ := ⟨⟨[' '], by decide, by decide⟩, by decide⟩
        device := ⟨['0'], by decide⟩
        gap₄ := ⟨⟨[' '], by decide, by decide⟩, by decide⟩
        inode := ⟨['0'], by decide⟩
        gap₅ := ⟨[], by decide, by decide⟩
        pathname := []
        trimmed := by decide
        oneLine := by decide
        parted := by decide
        tail := ⟨[], by decide, by decide⟩ }

theorem ofListing_written_padded :
    ofListing " \t0x01000-2aBc\u00a0rw-p\t\t0 08:01 7  /lib/a b\t\r\n \nF-10 r--s 0 0 0" =
        build [⟨⟨⟨0x1000⟩, ⟨0x2ABC⟩⟩, .read ∪ .write, "/lib/a b"⟩,
          ⟨⟨⟨0xF⟩, ⟨0x10⟩⟩, .read ∪ .shared, ""⟩] ∧
      ∃ cause, ofListing "F-10 r--s 0 0 0\n10-1F r--p 0 0" = .error cause :=
  ⟨ofListing_written.1 paddedListing,
    ofListing_written.2 _ "10-1F r--p 0 0".toList (by decide) (.truncated (by decide) (by decide))⟩

end MemoryMap

end PointerChains
