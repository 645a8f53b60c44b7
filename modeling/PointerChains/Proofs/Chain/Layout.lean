import PointerChains.Proofs.Chain.RoundTrip

/-!
# What the reader of files accepts

A file that can be read need not be one that was written: its pathname table may stand anywhere,
even inside the headers, may hold a pathname twice, and anything may follow the end marker.  What is
read is then still what the headers, the table and the chains say, part by part.

* `Format.readWord_eq_ok`, `Format.readPathnames_eq_ok`, `Format.readOffsets_eq_ok`,
  `Format.readChains_eq_ok` — what a reader accepts is what is written for its result;
* `Format.LaidOut` — the parts of a file, and where they stand;
* `Format.readStored_eq_ok_iff` — **a file can be read exactly if it is laid out, and gives the
  pathnames at the positions that its chains hold.**
-/

namespace PointerChains

namespace Format

variable {bytes rest : List UInt8} {n count : Nat}

/-! ### Parts -/

/-- Four bytes are those of a word. -/
theorem littleEndian_word (a b c d : UInt8) : ofLittleEndian [a, b, c, d] < 2 ^ 32 ∧
    littleEndian 4 (ofLittleEndian [a, b, c, d]) = [a, b, c, d] := by
  have hlt := ofLittleEndian_lt [a, b, c, d]
  simp only [List.length_cons, List.length_nil] at hlt
  exact ⟨by omega, littleEndian_ofLittleEndian [a, b, c, d]⟩

theorem readWord_eq_ok (h : readWord bytes = .ok (n, rest)) :
    n < 2 ^ 32 ∧ bytes = littleEndian 4 n ++ rest := by
  unfold readWord at h
  split at h
  · rename_i a b c d others
    cases h
    obtain ⟨hlt, hbytes⟩ := littleEndian_word a b c d
    refine ⟨hlt, ?_⟩
    rw [hbytes]
    rfl
  · cases h

theorem word_of_lt (h : n < 2 ^ 32) : word n = .ok (littleEndian 4 n) := if_pos h

theorem pathnameBytes_of_fromUTF8? {entry : List UInt8} {pathname : String}
    (h : String.fromUTF8? ⟨entry.toArray⟩ = some pathname) : pathnameBytes pathname = entry := by
  unfold String.fromUTF8? at h
  split at h
  · cases h
    rfl
  · cases h

/-- An entry of the table is what stands before the first zero byte. -/
theorem eq_of_dropWhile {others : List UInt8} {z : UInt8}
    (h : bytes.dropWhile (· != 0) = z :: others) :
    bytes = bytes.takeWhile (· != 0) ++ 0 :: others ∧ 0 ∉ bytes.takeWhile (· != 0) := by
  have hz : z = 0 := by
    have hmark := List.head?_dropWhile_not (· != 0) bytes
    simpa [h] using hmark
  subst hz
  refine ⟨?_, ?_⟩
  · conv_lhs => rw [← List.takeWhile_append_dropWhile (p := (· != 0)) (l := bytes), h]
  · intro hzero
    have hall := List.all_takeWhile (p := (· != 0)) (l := bytes)
    have hne := List.all_eq_true.1 hall 0 hzero
    simp at hne

theorem readPathnames_eq_ok {pathnames : List String}
    (h : readPathnames count bytes = .ok (pathnames, rest)) :
    pathnames.length = count ∧ (∀ p ∈ pathnames, isStorable p) ∧
      bytes = pathnames.flatMap (fun p => pathnameBytes p ++ [0]) ++ rest := by
  induction count generalizing bytes pathnames with
  | zero =>
    cases h
    simp
  | succ count ih =>
    unfold readPathnames at h
    split at h
    · cases h
    · rename_i z others hdrop
      obtain ⟨hbytes, hzero⟩ := eq_of_dropWhile hdrop
      split at h
      · cases h
      · rename_i hne
        split at h
        · cases h
        · rename_i pathname hutf
          obtain ⟨⟨ps, others'⟩, hothers, h⟩ := exists_of_bind_eq_ok h
          cases h
          obtain ⟨hlength, hstorable, rfl⟩ := ih hothers
          have hpathname := pathnameBytes_of_fromUTF8? hutf
          refine ⟨by rw [List.length_cons, hlength], ?_, ?_⟩
          · rw [List.forall_mem_cons]
            refine ⟨isStorable_iff.2 ?_, hstorable⟩
            rw [hpathname]
            exact ⟨hne, hzero⟩
          · rw [hbytes, ← hpathname]
            simp

/-- An offset that fills a word is written as that word. -/
theorem littleEndian_offset (a b c d : UInt8) :
    (UInt64.ofNat (ofLittleEndian [a, b, c, d])).toNat < 2 ^ 32 ∧
      littleEndian 4 (UInt64.ofNat (ofLittleEndian [a, b, c, d])).toNat = [a, b, c, d] := by
  obtain ⟨hlt, hbytes⟩ := littleEndian_word a b c d
  rw [UInt64.toNat_ofNat', Nat.mod_eq_of_lt (Nat.lt_trans hlt (by decide))]
  exact ⟨hlt, hbytes⟩

theorem readOffsets_eq_ok {offsets : List UInt64} (h : readOffsets bytes = .ok (offsets, rest)) :
    (offsets ≠ [] ∧ ∀ offset ∈ offsets, offset.toNat < 2 ^ 32) ∧
      bytes = offsetBytes offsets ++ rest := by
  fun_induction readOffsets bytes generalizing offsets with
  | case1 a b c d others offset =>
    rename_i ih
    obtain ⟨⟨later, rest'⟩, hlater, h⟩ := exists_of_bind_eq_ok h
    cases h
    obtain ⟨⟨hne, hall⟩, rfl⟩ := ih hlater
    obtain ⟨hlt, hbytes⟩ := littleEndian_offset a b c d
    refine ⟨⟨List.cons_ne_nil _ _, List.forall_mem_cons.2 ⟨hlt, hall⟩⟩, ?_⟩
    obtain ⟨next, later, rfl⟩ := List.exists_cons_of_ne_nil hne
    show _ = littleEndian 4 offset.toNat ++ nextMark :: offsetBytes (next :: later) ++ rest
    rw [hbytes]
    rfl
  | case2 a b c d others offset =>
    cases h
    obtain ⟨hlt, hbytes⟩ := littleEndian_offset a b c d
    refine ⟨⟨List.cons_ne_nil _ _, List.forall_mem_singleton.2 hlt⟩, ?_⟩
    show _ = littleEndian 4 offset.toNat ++ [lastMark] ++ rest
    rw [hbytes]
    rfl
  | case3 => cases h
  | case4 => cases h

/-- What is read of chains is what stands at their positions in the table. -/
theorem readChains_eq_ok {pathnames : List String} {chains : List (String × List UInt64)}
    (h : readChains pathnames count bytes = .ok (chains, rest)) :
    ∃ cs : List Chain, cs.length = count ∧
      (∀ c ∈ cs, c.Fits ∧ c.pathname < pathnames.length ∧ c.object = none) ∧
      chains = cs.map (Chain.stored pathnames) ∧
      ∃ front, chainBytes cs = .ok front ∧ bytes = front ++ rest := by
  induction count generalizing bytes chains with
  | zero =>
    cases h
    exact ⟨[], rfl, by simp, rfl, [], rfl, rfl⟩
  | succ count ih =>
    rw [readChains] at h
    obtain ⟨⟨index, afterIndex⟩, hindex, h⟩ := exists_of_bind_eq_ok h
    simp only at h
    cases hpathname : pathnames[index]? with
    | none => rw [hpathname] at h; cases h
    | some pathname =>
      rw [hpathname] at h
      obtain ⟨⟨offsets, others⟩, hoffsets, h⟩ := exists_of_bind_eq_ok h
      obtain ⟨⟨later, rest'⟩, hlater, h⟩ := exists_of_bind_eq_ok h
      cases h
      obtain ⟨hlt, rfl⟩ := readWord_eq_ok hindex
      obtain ⟨hfits, rfl⟩ := readOffsets_eq_ok hoffsets
      obtain ⟨cs, hlength, hall, rfl, front, hfront, rfl⟩ := ih hlater
      refine ⟨⟨index, none, offsets⟩ :: cs, by simp [hlength], ?_, ?_, ?_⟩
      · refine List.forall_mem_cons.2 ⟨⟨hfits, ?_, rfl⟩, hall⟩
        exact (List.getElem?_eq_some_iff.1 hpathname).1
      · simp [Chain.stored, hpathname]
      · refine ⟨littleEndian 4 index ++ offsetBytes offsets ++ front, ?_, by simp⟩
        rw [chainBytes, word_of_lt hlt, hfront]
        rfl

/-! ### Files -/

theorem bytesFrom_eq_ok (h : bytesFrom bytes n = .ok rest) :
    n ≤ bytes.length ∧ rest = bytes.drop n := by
  rw [bytesFrom] at h
  split at h
  · cases h
    exact ⟨‹_›, rfl⟩
  · cases h

theorem readTableEnd_eq_ok (h : readTableEnd bytes = .ok rest) : bytes = 0 :: rest := by
  unfold readTableEnd at h
  split at h
  · cases h
    rfl
  · cases h

theorem readEnd_eq_ok {done : Unit} (h : readEnd bytes = .ok done) :
    ∃ after, bytes = endMark :: after := by
  unfold readEnd at h
  split at h
  · cases h
  · rename_i mark after
    split at h
    · exact ⟨after, by simp [*]⟩
    · cases h

/-- Headers that can be read are six bytes that are accepted, and then four words. -/
theorem readHeaders_parts {headers : Headers} (h : readHeaders bytes = .ok headers) :
    ∃ a b c d tag others rest₁ rest₂ rest₃ rest₄,
      bytes = a :: b :: c :: d :: headers.version :: tag :: others ∧
      [a, b, c, d] = magic ∧ headers.version = version ∧ readKind tag = .ok headers.kind ∧
      readWord others = .ok (headers.pathnamesCount, rest₁) ∧
      readWord rest₁ = .ok (headers.pathnamesOffset, rest₂) ∧
      readWord rest₂ = .ok (headers.chainsCount, rest₃) ∧
      readWord rest₃ = .ok (headers.chainsOffset, rest₄) := by
  unfold readHeaders at h
  split at h
  · rename_i a b c d found tag others
    by_cases hmagic : [a, b, c, d] = magic
    swap
    · rw [if_neg hmagic] at h
      cases h
    by_cases hversion : found = version
    swap
    · rw [if_pos hmagic, if_neg hversion] at h
      cases h
    rw [if_pos hmagic, if_pos hversion] at h
    obtain ⟨kind, hkind, h⟩ := exists_of_bind_eq_ok h
    obtain ⟨⟨pathnamesCount, rest₁⟩, h₁, h⟩ := exists_of_bind_eq_ok h
    obtain ⟨⟨pathnamesOffset, rest₂⟩, h₂, h⟩ := exists_of_bind_eq_ok h
    obtain ⟨⟨chainsCount, rest₃⟩, h₃, h⟩ := exists_of_bind_eq_ok h
    obtain ⟨⟨chainsOffset, rest₄⟩, h₄, h⟩ := exists_of_bind_eq_ok h
    cases h
    exact ⟨a, b, c, d, tag, others, rest₁, rest₂, rest₃, rest₄, rfl, hmagic, hversion, hkind, h₁,
      h₂, h₃, h₄⟩
  · cases h

/-- What the headers say, and where their last word stands. -/
theorem readHeaders_eq_ok {headers : Headers} (h : readHeaders bytes = .ok headers) :
    headers.pathnamesCount < 2 ^ 32 ∧ headers.chainsCount < 2 ^ 32 ∧ headers.chainsOffset < 2 ^ 32 ∧
      ∃ front after, front.length = 18 ∧
        bytes = front ++ (littleEndian 4 headers.chainsOffset ++ after) := by
  obtain ⟨a, b, c, d, tag, others, rest₁, rest₂, rest₃, after, rfl, -, -, -, h₁, h₂, h₃, h₄⟩ :=
    readHeaders_parts h
  obtain ⟨hpathnames, rfl⟩ := readWord_eq_ok h₁
  obtain ⟨-, rfl⟩ := readWord_eq_ok h₂
  obtain ⟨hchains, rfl⟩ := readWord_eq_ok h₃
  obtain ⟨hoffset, rfl⟩ := readWord_eq_ok h₄
  refine ⟨hpathnames, hchains, hoffset, [a, b, c, d, headers.version, tag] ++
    (littleEndian 4 headers.pathnamesCount ++ (littleEndian 4 headers.pathnamesOffset ++
      littleEndian 4 headers.chainsCount)), after, by simp, by simp⟩

/-- The parts of a file: the headers say how many pathnames and chains there are, and where they
start; the table of pathnames is followed by the chains, and these by the end marker. -/
structure LaidOut (bytes : List UInt8) (headers : Headers) (pathnames : List String)
    (chains : List Chain) : Prop where
  headers_eq : readHeaders bytes = .ok headers
  pathnamesCount_eq : headers.pathnamesCount = pathnames.length
  chainsCount_eq : headers.chainsCount = chains.length
  chainsOffset_eq : headers.chainsOffset =
    headers.pathnamesOffset + (pathnameTable pathnames).length
  storable : ∀ p ∈ pathnames, isStorable p
  /-- A chain has offsets that fit, and starts at one of the pathnames; objects are not stored. -/
  chains_fit : ∀ c ∈ chains, c.Fits ∧ c.pathname < pathnames.length ∧ c.object = none
  bytes_eq : ∃ front after, chainBytes chains = .ok front ∧
    bytes.drop headers.pathnamesOffset = pathnameTable pathnames ++ (front ++ endMark :: after)

theorem LaidOut.readStored_eq {headers : Headers} {pathnames : List String} {chains : List Chain}
    (h : LaidOut bytes headers pathnames chains) :
    readStored bytes = .ok ⟨pathnames, chains.map (Chain.stored pathnames)⟩ := by
  obtain ⟨front, after, hfront, hbytes⟩ := h.bytes_eq
  have hlength := congrArg List.length hbytes
  simp only [List.length_drop, List.length_append, List.length_cons] at hlength
  have htable : bytesFrom bytes headers.pathnamesOffset =
      .ok (pathnameTable pathnames ++ (front ++ endMark :: after)) := by
    rw [bytesFrom, if_pos (by omega), hbytes]
  have hpathnames : readPathnames headers.pathnamesCount
      (pathnameTable pathnames ++ (front ++ endMark :: after)) =
        .ok (pathnames, 0 :: (front ++ endMark :: after)) := by
    rw [h.pathnamesCount_eq]
    exact readPathnames_table h.storable _
  have hoffset : bytes.length - (front ++ endMark :: after).length = headers.chainsOffset := by
    rw [h.chainsOffset_eq, List.length_append, List.length_cons]
    omega
  have hchains : readChains pathnames headers.chainsCount (front ++ endMark :: after) =
      .ok (chains.map (Chain.stored pathnames), endMark :: after) := by
    rw [h.chainsCount_eq]
    exact readChains_append (fun c hc => (h.chains_fit c hc).1)
      (fun c hc => (h.chains_fit c hc).2.1) hfront _
  exact readStored_eq_ok h.headers_eq htable hpathnames hoffset hchains

/-- **A file can be read exactly if it is laid out.** -/
theorem readStored_eq_ok_iff {s : StoredChains} : readStored bytes = .ok s ↔
    ∃ headers pathnames chains, LaidOut bytes headers pathnames chains ∧
      s = ⟨pathnames, chains.map (Chain.stored pathnames)⟩ := by
  constructor
  · intro h
    rw [readStored] at h
    obtain ⟨headers, hheaders, h⟩ := exists_of_bind_eq_ok h
    obtain ⟨table, htable, h⟩ := exists_of_bind_eq_ok h
    obtain ⟨⟨pathnames, atEnd⟩, hpathnames, h⟩ := exists_of_bind_eq_ok h
    obtain ⟨others, hend, h⟩ := exists_of_bind_eq_ok h
    by_cases hoffset : bytes.length - others.length = headers.chainsOffset
    swap
    · rw [if_neg hoffset] at h
      cases h
    rw [if_pos hoffset] at h
    obtain ⟨⟨chains, atMark⟩, hchains, h⟩ := exists_of_bind_eq_ok h
    obtain ⟨_, hmark, h⟩ := exists_of_bind_eq_ok h
    cases h
    obtain ⟨hstart, rfl⟩ := bytesFrom_eq_ok htable
    obtain ⟨hcount, hstorable, htable⟩ := readPathnames_eq_ok hpathnames
    obtain ⟨cs, hlength, hfit, rfl, front, hfront, rfl⟩ := readChains_eq_ok hchains
    obtain rfl := readTableEnd_eq_ok hend
    obtain ⟨after, rfl⟩ := readEnd_eq_ok hmark
    refine ⟨headers, pathnames, cs, ?_, rfl⟩
    have hbytes : bytes.drop headers.pathnamesOffset =
        pathnameTable pathnames ++ (front ++ endMark :: after) := by
      rw [htable, pathnameTable]
      simp
    have hsize := congrArg List.length hbytes
    simp only [List.length_drop, List.length_append, List.length_cons] at hsize hoffset
    exact
      { headers_eq := hheaders
        pathnamesCount_eq := hcount.symm
        chainsCount_eq := hlength.symm
        chainsOffset_eq := by omega
        storable := hstorable
        chains_fit := hfit
        bytes_eq := ⟨front, after, hfront, hbytes⟩ }
  · intro h
    obtain ⟨headers, pathnames, chains, hlaid, rfl⟩ := h
    exact hlaid.readStored_eq

end Format

end PointerChains
