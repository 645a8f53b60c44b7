import PointerChains.Proofs.Chain.Layout

/-!
# Slices of a file

The reader takes a file apart by position: it slices behind the headers, at the position that they
give for the pathnames, in front of and behind each zero byte, and at the position that they give
for the chains.  Counts and positions come from the file, and may be anything.  Here each slice and
each single byte is taken by a function that may find it out of range, and a reader that is made of
them never does.

* `Format.from?`, `Format.upTo?` — the slices, where they are in range;
* `Format.Slicing` — what ends with a result, with an error of the file, or out of range;
* `Format.run_pathnamesBySlices` — the loop over the pathnames stays in range;
* `Format.run_storedBySlices`, `Format.run_decodeBySlices` — **reading by slices is reading: no
  slice and no index is out of range, whatever the bytes are.**
-/

namespace PointerChains

namespace Format

variable {bytes rest : List UInt8} {n count : Nat}

/-! ### Slices and indices -/

/-- The bytes from a position on, if it is in range. -/
def from? (bytes : List UInt8) (position : Nat) : Option (List UInt8) :=
  if position ≤ bytes.length then some (bytes.drop position) else none

/-- The bytes in front of a position, if it is in range. -/
def upTo? (bytes : List UInt8) (position : Nat) : Option (List UInt8) :=
  if position ≤ bytes.length then some (bytes.take position) else none

/-- The byte at a position, if it is in range. -/
def at? (bytes : List UInt8) (position : Nat) : Option UInt8 := bytes[position]?

/-- The difference of two lengths, if it is one. -/
def difference? (whole part : Nat) : Option Nat :=
  if part ≤ whole then some (whole - part) else none

theorem from?_of_le (h : n ≤ bytes.length) : from? bytes n = some (bytes.drop n) := if_pos h

theorem upTo?_of_le (h : n ≤ bytes.length) : upTo? bytes n = some (bytes.take n) := if_pos h

theorem difference?_of_le {whole part : Nat} (h : part ≤ whole) :
    difference? whole part = some (whole - part) := if_pos h

/-! ### Reading -/

/-- What ends with a result or with an error of the file, unless a slice or an index is out of
range, for which it has no outcome. -/
abbrev Slicing (α : Type) : Type := ExceptT Error Option α

/-- The headers, with the first six bytes taken by position. -/
def headersBySlices (bytes : List UInt8) : Slicing Headers := do
  if bytes.length < 6 then throw (.corrupt .truncatedHeader)
  let start ← upTo? bytes 4
  unless start = magic do throw (.badMagic start)
  let found ← at? bytes 4
  unless found = version do throw (.unsupportedVersion found)
  let tag ← at? bytes 5
  let kind ← readKind tag
  let rest ← from? bytes 6
  let (pathnamesCount, rest) ← readWord rest
  let (pathnamesOffset, rest) ← readWord rest
  let (chainsCount, rest) ← readWord rest
  let (chainsOffset, _) ← readWord rest
  return { version := found, kind, pathnamesCount, pathnamesOffset, chainsCount, chainsOffset }

/-- So many pathnames, each up to the next zero byte. -/
def pathnamesBySlices : Nat → List UInt8 → Slicing (List String × List UInt8)
  | 0, bytes => return ([], bytes)
  | count + 1, bytes =>
    match bytes.findIdx? (· == 0) with
    | none => throw (.corrupt .unterminatedPathname)
    | some 0 => throw (.corrupt .tableEndedEarly)
    | some stop => do
      let entry ← upTo? bytes stop
      match String.fromUTF8? ⟨entry.toArray⟩ with
      | none => throw (.corrupt .pathnameEncoding)
      | some pathname => do
        let rest ← from? bytes (stop + 1)
        let (pathnames, rest) ← pathnamesBySlices count rest
        return (pathname :: pathnames, rest)

/-- What a file holds.  Where the chains start is computed from what is left behind the pathnames,
compared with the position that the headers give, and the chains are then read from there. -/
def storedBySlices (bytes : List UInt8) : Slicing StoredChains := do
  let headers ← headersBySlices bytes
  match from? bytes headers.pathnamesOffset with
  | none => throw (.corrupt .pathnamesOutOfBounds)
  | some table =>
    let (pathnames, rest) ← pathnamesBySlices headers.pathnamesCount table
    unless rest.head? = some 0 do throw (.corrupt .unterminatedTable)
    let consumed ← difference? bytes.length rest.length
    unless consumed + 1 = headers.chainsOffset do throw (.corrupt .chainsMisplaced)
    let rest ← from? bytes headers.chainsOffset
    let (chains, rest) ← readChains pathnames headers.chainsCount rest
    readEnd rest
    return { pathnames, chains }

/-- A file as a table of chains. -/
def decodeBySlices (bytes : List UInt8) (m : Option MemoryMap) : Slicing ChainTable := do
  let stored ← storedBySlices bytes
  return stored.toTable m

/-! ### Nothing is out of range -/

section

variable {α β : Type}

/-- A slice that is in range. -/
theorem run_slice {slice : Option α} {a : α} (h : slice = some a) (f : α → Slicing β) :
    ((liftM slice : Slicing α) >>= f).run = (f a).run := by
  rw [h]
  rfl

/-- A part that is never out of range, and then the rest. -/
theorem run_bind {x : Slicing α} {y : Except Error α} (hx : x.run = some y)
    {f : α → Slicing β} {g : α → Except Error β}
    (h : ∀ a, y = .ok a → (f a).run = some (g a)) : (x >>= f).run = some (y >>= g) := by
  rw [ExceptT.run_bind, hx]
  cases hy : y with
  | error cause => rfl
  | ok a => exact h a hy

end

/-- Six bytes are enough for the slices of the headers. -/
theorem run_headersBySlices (bytes : List UInt8) :
    (headersBySlices bytes).run = some (readHeaders bytes) := by
  match bytes with
  | [] | [_] | [_, _] | [_, _, _] | [_, _, _, _] | [_, _, _, _, _] => rfl
  | a :: b :: c :: d :: found :: tag :: rest =>
    have hlength : ¬(a :: b :: c :: d :: found :: tag :: rest).length < 6 := by
      simp
    have hstart : upTo? (a :: b :: c :: d :: found :: tag :: rest) 4 = some [a, b, c, d] := rfl
    have hfound : at? (a :: b :: c :: d :: found :: tag :: rest) 4 = some found := rfl
    have htag : at? (a :: b :: c :: d :: found :: tag :: rest) 5 = some tag := rfl
    have hrest : from? (a :: b :: c :: d :: found :: tag :: rest) 6 = some rest := rfl
    rw [headersBySlices, readHeaders, if_neg hlength, run_slice hstart]
    by_cases hmagic : [a, b, c, d] = magic
    swap
    · rw [if_neg hmagic, if_neg hmagic]
      rfl
    rw [if_pos hmagic, if_pos hmagic, run_slice hfound]
    by_cases hversion : found = version
    swap
    · rw [if_neg hversion, if_neg hversion]
      rfl
    rw [if_pos hversion, if_pos hversion, run_slice htag]
    refine run_bind rfl fun kind _ => ?_
    rw [run_slice hrest]
    refine run_bind rfl fun pathnames _ => run_bind rfl fun start _ => ?_
    exact run_bind rfl fun chains _ => run_bind rfl fun stop _ => rfl

/-- The zero byte that is found cuts the bytes as the reader cuts them. -/
theorem cut_of_findIdx? {stop : Nat} (h : bytes.findIdx? (· == 0) = some stop) :
    stop < bytes.length ∧ bytes.takeWhile (· != 0) = bytes.take stop ∧
      bytes.dropWhile (· != 0) = 0 :: bytes.drop (stop + 1) := by
  have hnot : (fun b : UInt8 => !(b != 0)) = (· == 0) := by
    funext b
    exact Bool.not_not _
  obtain ⟨hlt, hzero, -⟩ := List.findIdx?_eq_some_iff_getElem.1 h
  obtain ⟨-, hfind⟩ := List.findIdx?_eq_some_iff_findIdx_eq.1 h
  refine ⟨hlt, ?_, ?_⟩
  · rw [List.takeWhile_eq_take_findIdx_not, hnot, hfind]
  · rw [List.dropWhile_eq_drop_findIdx_not, hnot, hfind, List.drop_eq_getElem_cons hlt,
      eq_of_beq hzero]

theorem dropWhile_of_findIdx? (h : bytes.findIdx? (· == 0) = none) :
    bytes.dropWhile (· != 0) = [] := by
  rw [List.dropWhile_eq_nil_iff]
  intro b hb
  rw [bne, List.findIdx?_eq_none_iff.1 h b hb]
  rfl

/-- Each pass of the loop slices in front of and behind a zero byte that is there. -/
theorem run_pathnamesBySlices (count : Nat) (bytes : List UInt8) :
    (pathnamesBySlices count bytes).run = some (readPathnames count bytes) := by
  induction count generalizing bytes with
  | zero => rfl
  | succ count ih =>
    rw [pathnamesBySlices, readPathnames]
    cases hstop : bytes.findIdx? (· == 0) with
    | none =>
      rw [dropWhile_of_findIdx? hstop]
      rfl
    | some stop =>
      obtain ⟨hlt, hentry, hrest⟩ := cut_of_findIdx? hstop
      rw [hentry, hrest]
      cases stop with
      | zero => rfl
      | succ stop =>
        have htake : bytes.take (stop + 1) ≠ [] := by
          apply List.ne_nil_of_length_pos
          rw [List.length_take]
          omega
        obtain ⟨b, bs, hcons⟩ := List.exists_cons_of_ne_nil htake
        simp only [run_slice (upTo?_of_le (Nat.le_of_lt hlt)), hcons]
        cases String.fromUTF8? ⟨(b :: bs).toArray⟩ with
        | none => rfl
        | some pathname =>
          simp only [run_slice (from?_of_le hlt)]
          exact run_bind (ih _) fun _ _ => rfl

/-- What is left behind the pathnames is the end of the file. -/
theorem suffix_of_readPathnames {pathnames : List String}
    (h : readPathnames count bytes = .ok (pathnames, rest)) : rest <:+ bytes := by
  obtain ⟨-, -, hbytes⟩ := readPathnames_eq_ok h
  exact ⟨_, hbytes.symm⟩

theorem readTableEnd_eq (bytes : List UInt8) : readTableEnd bytes =
    if bytes.head? = some 0 then .ok bytes.tail else .error (.corrupt .unterminatedTable) := by
  match bytes with
  | [] => rfl
  | z :: rest =>
    by_cases hz : z = 0
    · subst hz
      rfl
    · simp [readTableEnd, hz]

/-- Behind the first byte of what is left is the position that is compared with the headers. -/
theorem tail_of_suffix (h : rest <:+ bytes) :
    bytes.drop (bytes.length - rest.length + 1) = rest.tail := by
  rw [← List.tail_drop, ← List.suffix_iff_eq_drop.1 h]

theorem run_storedBySlices (bytes : List UInt8) :
    (storedBySlices bytes).run = some (readStored bytes) := by
  rw [storedBySlices, readStored]
  refine run_bind (run_headersBySlices bytes) fun headers _ => ?_
  by_cases hstart : headers.pathnamesOffset ≤ bytes.length
  swap
  · rw [from?, if_neg hstart, bytesFrom, if_neg hstart]
    rfl
  rw [from?_of_le hstart, bytesFrom, if_pos hstart]
  refine run_bind (run_pathnamesBySlices ..) fun table hpathnames => ?_
  obtain ⟨pathnames, rest⟩ := table
  have hsuffix : rest <:+ bytes :=
    (suffix_of_readPathnames hpathnames).trans (List.drop_suffix ..)
  have hlength := hsuffix.length_le
  simp only [readTableEnd_eq]
  by_cases hend : rest.head? = some 0
  swap
  · rw [if_neg hend, if_neg hend]
    rfl
  have hpos : rest ≠ [] := by
    rintro rfl
    cases hend
  have hconsumed : bytes.length - rest.length + 1 = bytes.length - rest.tail.length := by
    have := List.length_pos_of_ne_nil hpos
    rw [List.length_tail]
    omega
  rw [if_pos hend, if_pos hend, run_slice (difference?_of_le hlength), hconsumed]
  by_cases hoffset : bytes.length - rest.tail.length = headers.chainsOffset
  swap
  · rw [if_neg hoffset]
    show _ = some (if _ then _ else _)
    rw [if_neg hoffset]
    rfl
  have hchains : from? bytes headers.chainsOffset = some rest.tail := by
    rw [← hoffset, from?_of_le (Nat.sub_le ..), ← hconsumed, tail_of_suffix hsuffix]
  rw [if_pos hoffset, run_slice hchains]
  show _ = some (if _ then _ else _)
  rw [if_pos hoffset]
  exact run_bind rfl fun _ _ => run_bind rfl fun _ _ => rfl

/-- **Reading by slices is reading**: no slice and no index is out of range, whatever the bytes
are. -/
theorem run_decodeBySlices (bytes : List UInt8) (m : Option MemoryMap) :
    (decodeBySlices bytes m).run = some (decode bytes m) := by
  rw [decode_eq]
  exact run_bind (run_storedBySlices bytes) fun _ _ => rfl

end Format

end PointerChains
