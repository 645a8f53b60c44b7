/-!
# Blank characters

Listings and typed addresses are laid out with white space of any kind, so blankness is the
Unicode property `White_Space` and not the six ASCII characters alone.

* `isBlank` — membership in the 25 code points of the property;
* `trim` — a text without its blank margins;
* `word?` — the first run of non-blank characters and what follows it;
* `word?_append` — splitting off a word loses only the blanks before it.
-/

namespace PointerChains.Text

/-- The code points of the property `White_Space`, as closed intervals in increasing order. -/
def blankIntervals : List (Nat × Nat) :=
  [(0x9, 0xD), (0x20, 0x20), (0x85, 0x85), (0xA0, 0xA0), (0x1680, 0x1680), (0x2000, 0x200A),
   (0x2028, 0x2029), (0x202F, 0x202F), (0x205F, 0x205F), (0x3000, 0x3000)]

/-- Whether a character is white space. -/
def isBlank (c : Char) : Bool :=
  blankIntervals.any fun i => i.1 ≤ c.toNat && c.toNat ≤ i.2

/-- The characters after the leading blanks. -/
def trimStart (cs : List Char) : List Char :=
  cs.dropWhile isBlank

/-- The characters before the trailing blanks. -/
def trimEnd (cs : List Char) : List Char :=
  (cs.reverse.dropWhile isBlank).reverse

/-- The characters between the blank margins. -/
def trim (cs : List Char) : List Char :=
  trimEnd (trimStart cs)

/-- The first word of a text and the text after it; `none` when only blanks are left. -/
def word? (cs : List Char) : Option (List Char × List Char) :=
  match trimStart cs with
  | [] => none
  | rest => some (rest.takeWhile (!isBlank ·), rest.dropWhile (!isBlank ·))

theorem word?_append {cs word rest : List Char} (h : word? cs = some (word, rest)) :
    cs.takeWhile isBlank ++ word ++ rest = cs := by
  unfold word? at h
  split at h
  · cases h
  · simp only [Option.some.injEq, Prod.mk.injEq] at h
    obtain ⟨rfl, rfl⟩ := h
    rw [List.append_assoc, List.takeWhile_append_dropWhile, trimStart,
      List.takeWhile_append_dropWhile]

/-- The lines of a text: each ends at a line feed or at the end of the text, a carriage return
before the line feed belongs to the ending, and an ending closes no further empty line. -/
def lines (cs : List Char) : List (List Char) :=
  let pieces := cs.splitOn '\n'
  let closed := pieces.dropLast.map dropReturn
  match pieces.getLast? with
  | none | some [] => closed
  | some unclosed => closed ++ [unclosed]
where
  /-- A line without the carriage return at its end. -/
  dropReturn (line : List Char) : List Char :=
    if line.getLast? = some '\r' then line.dropLast else line

end PointerChains.Text
