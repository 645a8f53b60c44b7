import PointerChains.Proofs.Chain.Layout

/-!
# What is loaded from any file

A file by another writer may hold a pathname twice, and its table may overlap the headers.  What is
loaded from it keeps the first of equal pathnames and the chains that start at them, and can always
be written: nothing in it is longer than it was.

* `Format.LaidOut.length_pathnameTable` — a table that was read can stand behind the headers, also
  if it stood inside them;
* `Format.exists_encode_iff` — a table in use is written exactly if it can be stored;
* `Format.encode_of_decode` — **what was read without a map can be written, and is read back;**
* `Format.decode_some_eq` — **reading with a map is reading without one, and resolving.**
-/

namespace PointerChains

namespace Format

variable {bytes : List UInt8} {headers : Headers} {pathnames : List String} {chains : List Chain}
  {t : ChainTable} {m : Option MemoryMap}

/-! ### The length of the table -/

/-- No byte of an encoded character is above `0xF7`. -/
theorem toNat_lt_of_mem_utf8EncodeChar (c : Char) :
    ∀ b ∈ String.utf8EncodeChar c, b.toNat < 248 := by
  have hnat := c.val.toNat_lt
  simp only [String.utf8EncodeChar]
  split_ifs with h1 h2 h3
  · have h1 : c.toNat ≤ 127 := h1
    simp
    omega
  · simp
    omega
  · simp
    omega
  · simp
    omega

theorem lt_of_mem_pathnameBytes {pathname : String} {b : UInt8} (h : b ∈ pathnameBytes pathname) :
    b.toNat < 248 := by
  rw [pathnameBytes, String.toUTF8, ← String.utf8Encode_toList, List.utf8Encode] at h
  simp at h
  obtain ⟨c, -, hb⟩ := h
  exact toNat_lt_of_mem_utf8EncodeChar c b hb

theorem lt_of_mem_pathnameTable : ∀ b ∈ pathnameTable pathnames, b.toNat < 248 := by
  intro b hb
  rw [pathnameTable, List.mem_append, List.mem_flatMap] at hb
  rcases hb with ⟨pathname, -, hb⟩ | hb
  · rcases List.mem_append.1 hb with hb | hb
    · exact lt_of_mem_pathnameBytes hb
    · rw [List.mem_singleton.1 hb]
      decide
  · rw [List.mem_singleton.1 hb]
    decide

/-- The last byte of a word is its highest. -/
theorem getElem?_littleEndian_word (n : Nat) :
    (littleEndian 4 n)[3]? = some (UInt8.ofNat (n / 2 ^ 24)) := by
  simp [littleEndian, Nat.div_div_eq_div_mul]

/-- A long table that starts inside the headers covers their last byte, the highest of the word that
says where the chains start. -/
theorem LaidOut.mem_pathnameTable (h : LaidOut bytes headers pathnames chains)
    (hinside : headers.pathnamesOffset < headerSize) (hlong : headerSize ≤ headers.chainsOffset) :
    UInt8.ofNat (headers.chainsOffset / 2 ^ 24) ∈ pathnameTable pathnames := by
  obtain ⟨-, -, -, front, after, hfront, hheaders⟩ := readHeaders_eq_ok h.headers_eq
  obtain ⟨chainPart, rest, -, hbytes⟩ := h.bytes_eq
  have hoffset := h.chainsOffset_eq
  have hlast : bytes[21]? = some (UInt8.ofNat (headers.chainsOffset / 2 ^ 24)) := by
    rw [hheaders, List.getElem?_append_right (by omega), hfront,
      List.getElem?_append_left (by simp)]
    exact getElem?_littleEndian_word _
  simp only [headerSize] at hinside hlong
  have hat : (bytes.drop headers.pathnamesOffset)[21 - headers.pathnamesOffset]? = bytes[21]? := by
    rw [List.getElem?_drop]
    congr 1
    omega
  rw [hbytes, List.getElem?_append_left (by omega), hlast] at hat
  exact List.mem_of_getElem? hat

/-- A table that was read can stand behind the headers. -/
theorem LaidOut.length_pathnameTable (h : LaidOut bytes headers pathnames chains) :
    headerSize + (pathnameTable pathnames).length < 2 ^ 32 := by
  obtain ⟨-, -, hword, -⟩ := readHeaders_eq_ok h.headers_eq
  have hoffset := h.chainsOffset_eq
  by_cases hinside : headers.pathnamesOffset < headerSize
  · by_cases hlong : headerSize ≤ headers.chainsOffset
    · -- the highest byte is one of a pathname, so that the word is far from full
      have hlt := lt_of_mem_pathnameTable _ (h.mem_pathnameTable hinside hlong)
      rw [UInt8.toNat_ofNat'] at hlt
      simp only [headerSize]
      omega
    · simp only [headerSize] at hlong ⊢
      omega
  · omega

/-! ### What can be written -/

theorem exists_chainBytes (h : ∀ c ∈ chains, c.pathname < 2 ^ 32) :
    ∃ bytes, chainBytes chains = .ok bytes := by
  induction chains with
  | nil => exact ⟨[], rfl⟩
  | cons c cs ih =>
    obtain ⟨hc, hcs⟩ := List.forall_mem_cons.1 h
    obtain ⟨others, hothers⟩ := ih hcs
    refine ⟨littleEndian 4 c.pathname ++ offsetBytes c.offsets ++ others, ?_⟩
    rw [chainBytes, word_of_lt hc, hothers]
    rfl

/-- A table in use is written exactly if it can be stored. -/
theorem exists_encode_iff (ht : t.WellFormed) : (∃ bytes, encode t = .ok bytes) ↔ Storable t := by
  constructor
  · intro h
    obtain ⟨bytes, h⟩ := h
    exact (encode_eq_ok h).1
  · intro h
    have hall : t.pathnames.all isStorable := by
      rw [Array.all_eq_true']
      simpa using h.pathnames
    have hpathnames : t.pathnames.size < 2 ^ 32 := by simpa using h.pathnamesCount_lt
    have hchains : t.chains.size < 2 ^ 32 := by simpa using h.chainsCount_lt
    have hsize : headerSize < 2 ^ 32 := by decide
    have hinside : ∀ c ∈ t.chains.toList, c.pathname < 2 ^ 32 :=
      fun c hc => (ht.inside c (Array.mem_toList_iff.1 hc)).trans hpathnames
    obtain ⟨others, hothers⟩ := exists_chainBytes hinside
    simp only [encode, hall, checkChains_eq_ok_iff.2 h.chains, word_of_lt hpathnames,
      word_of_lt hchains, word_of_lt hsize, word_of_lt h.chainsOffset_lt, hothers, bind,
      Except.bind]
    exact ⟨_, rfl⟩

/-! ### What is loaded -/

theorem LaidOut.inside (h : LaidOut bytes headers pathnames chains) :
    StoredChains.Inside ⟨pathnames, chains.map (Chain.stored pathnames)⟩ := by
  intro chain hchain
  obtain ⟨c, hc, rfl⟩ := List.mem_map.1 hchain
  obtain ⟨-, hlt, -⟩ := h.chains_fit c hc
  show pathnames[c.pathname]?.getD "" ∈ pathnames
  rw [List.getElem?_eq_getElem hlt]
  exact List.getElem_mem hlt

/-- Without a map the chains are those that are stored, each at the pathname that it is stored
at. -/
theorem LaidOut.decode_none (h : LaidOut bytes headers pathnames chains) :
    ∃ kept : List String, kept.Sublist pathnames ∧ (∀ p ∈ pathnames, p ∈ kept) ∧
      decode bytes none = .ok ⟨kept.toArray, (chains.map fun c =>
        (⟨kept.toArray, #[]⟩ : ChainTable).placed (c.stored pathnames)).toArray⟩ := by
  obtain ⟨kept, hsublist, hbase, hall⟩ :=
    StoredChains.base_exists ⟨pathnames, chains.map (Chain.stored pathnames)⟩
  refine ⟨kept, hsublist, hall, ?_⟩
  rw [decode_eq, h.readStored_eq]
  show Except.ok (StoredChains.toTable _ none) = _
  rw [StoredChains.toTable_none_eq h.inside, hbase, List.map_map]
  rfl

/-- The chain at a position is the one that is stored there, and has the same pathname. -/
theorem LaidOut.chain_of_decode (h : LaidOut bytes headers pathnames chains)
    (ht : decode bytes none = .ok t) : t.chains.size = chains.length ∧
      ∀ (k : Nat) (c : Chain), t.chains[k]? = some c → ∃ (stored : Chain) (pathname : String),
        chains[k]? = some stored ∧ c.object = none ∧ c.offsets = stored.offsets ∧
        pathnames[stored.pathname]? = some pathname ∧ t.pathname? c = some pathname := by
  obtain ⟨kept, -, hall, hdecode⟩ := h.decode_none
  cases hdecode.symm.trans ht
  refine ⟨by simp, ?_⟩
  intro k c hc
  rw [List.getElem?_toArray, List.getElem?_map, Option.map_eq_some_iff] at hc
  obtain ⟨stored, hstored, rfl⟩ := hc
  obtain ⟨-, hlt, -⟩ := h.chains_fit stored (List.mem_of_getElem? hstored)
  have hpathname : pathnames[stored.pathname]? = some pathnames[stored.pathname] :=
    List.getElem?_eq_getElem hlt
  have hat : stored.stored pathnames = (pathnames[stored.pathname], stored.offsets) := by
    rw [Chain.stored, hpathname, Option.getD_some]
  have hkept : pathnames[stored.pathname] ∈ kept.toArray :=
    List.mem_toArray.2 (hall _ (List.getElem_mem hlt))
  rw [hat]
  exact ⟨stored, _, hstored, rfl, rfl, hpathname, ChainTable.pathname?_placed hkept⟩

theorem exists_laidOut (h : decode bytes m = .ok t) :
    ∃ headers pathnames chains, LaidOut bytes headers pathnames chains := by
  rw [decode_eq] at h
  obtain ⟨s, hstored, -⟩ := exists_of_bind_eq_ok h
  obtain ⟨headers, pathnames, chains, hlaid, -⟩ := readStored_eq_ok_iff.1 hstored
  exact ⟨headers, pathnames, chains, hlaid⟩

theorem wellFormed_of_decode (h : decode bytes m = .ok t) : t.WellFormed := by
  rw [decode_eq] at h
  obtain ⟨s, -, h⟩ := exists_of_bind_eq_ok h
  cases h
  exact (s.reachable_toTable m).wellFormed

/-- What is loaded can be stored: nothing in it is longer than what was stored. -/
theorem LaidOut.storable_of_decode (h : LaidOut bytes headers pathnames chains)
    (ht : decode bytes none = .ok t) : Storable t := by
  obtain ⟨hpathnames, hchains, -⟩ := readHeaders_eq_ok h.headers_eq
  rw [h.pathnamesCount_eq] at hpathnames
  rw [h.chainsCount_eq] at hchains
  obtain ⟨kept, hsublist, -, hdecode⟩ := h.decode_none
  cases hdecode.symm.trans ht
  have htable : (pathnameTable kept).length ≤ (pathnameTable pathnames).length := by
    simp only [pathnameTable, List.length_append]
    exact Nat.add_le_add_right (hsublist.flatMap _).length_le _
  exact
    { pathnames := fun p hp => h.storable p (hsublist.subset hp)
      chains := by
        intro c hc
        obtain ⟨stored, hstored, rfl⟩ := List.mem_map.1 hc
        exact (h.chains_fit stored hstored).1
      pathnamesCount_lt := Nat.lt_of_le_of_lt hsublist.length_le hpathnames
      chainsCount_lt := by simpa using hchains
      chainsOffset_lt :=
        Nat.lt_of_le_of_lt (Nat.add_le_add_left htable _) h.length_pathnameTable }

/-- What was loaded without a map is read back from what is written for it. -/
theorem LaidOut.decode_again (h : LaidOut bytes headers pathnames chains)
    (ht : decode bytes none = .ok t) {again : List UInt8} (hagain : encode t = .ok again) :
    decode again none = .ok t := by
  have hwellFormed := wellFormed_of_decode ht
  obtain ⟨-, hchain⟩ := h.chain_of_decode ht
  have hobjects : t.withoutObjects = t := by
    have hmap : t.chains.map (fun c => { c with object := none }) = t.chains.map id := by
      rw [Array.map_inj_left]
      intro c hc
      obtain ⟨k, hk⟩ := Array.mem_iff_getElem?.1 hc
      obtain ⟨-, -, -, hobject, -⟩ := hchain k c hk
      show { c with object := none } = c
      rw [← hobject]
    rw [ChainTable.withoutObjects, hmap, Array.map_id]
  have hstored : readStored again = .ok (.of t) := readStored_of_encode hwellFormed hagain
  rw [decode_eq, hstored]
  show Except.ok ((StoredChains.of t).toTable none) = _
  rw [StoredChains.toTable_none hwellFormed, hobjects]

/-! ### Any file -/

/-- **What was read without a map can be written, and is then read back.**  The file has parts, and
however it is laid out, the chain at a position has the offsets that are stored there, and the
pathname that the table has at the position that is stored there. -/
theorem encode_of_decode (h : decode bytes none = .ok t) :
    (∃ again, encode t = .ok again ∧ decode again none = .ok t) ∧
    (∃ headers pathnames chains, LaidOut bytes headers pathnames chains) ∧
    ∀ headers pathnames chains, LaidOut bytes headers pathnames chains →
      t.chains.size = chains.length ∧
      ∀ (k : Nat) (c : Chain), t.chains[k]? = some c → ∃ (stored : Chain) (pathname : String),
        chains[k]? = some stored ∧ c.object = none ∧ c.offsets = stored.offsets ∧
        pathnames[stored.pathname]? = some pathname ∧ t.pathname? c = some pathname := by
  obtain ⟨headers, pathnames, chains, hlaid⟩ := exists_laidOut h
  obtain ⟨again, hagain⟩ :=
    (exists_encode_iff (wellFormed_of_decode h)).2 (hlaid.storable_of_decode h)
  refine ⟨⟨again, hagain, hlaid.decode_again h hagain⟩, ⟨headers, pathnames, chains, hlaid⟩, ?_⟩
  intro headers pathnames chains hlaid
  exact hlaid.chain_of_decode h

/-- A file with a gap behind its headers, a pathname twice, and a byte behind its end. -/
def repeated : List UInt8 :=
  magic ++ [1, 1] ++ [3, 0, 0, 0, 24, 0, 0, 0, 2, 0, 0, 0, 31, 0, 0, 0] ++ [9, 9] ++
    [97, 0, 98, 0, 97, 0, 0] ++
    [2, 0, 0, 0, 1, 0, 0, 0, 255] ++ [1, 0, 0, 0, 2, 0, 0, 0, 0, 3, 0, 0, 0, 255] ++ [187] ++ [5]

/-- The chains in it, the first of which is stored with the third pathname. -/
def repeatedChains : ChainTable := ⟨#["a", "b"], #[⟨0, none, [1]⟩, ⟨1, none, [2, 3]⟩]⟩

theorem encode_of_decode_repeated : decode repeated none = .ok repeatedChains ∧
    ∃ again, encode repeatedChains = .ok again ∧ decode again none = .ok repeatedChains := by
  have hdecode : decode repeated none = .ok repeatedChains := by cbv
  exact ⟨hdecode, (encode_of_decode hdecode).1⟩

/-- **Reading with a map is reading without one, and resolving the table.** -/
theorem decode_some_eq (bytes : List UInt8) (m : MemoryMap) :
    decode bytes (some m) = (decode bytes none).map fun t => t.resolve m := by
  rw [decode_eq, decode_eq]
  cases hstored : readStored bytes with
  | error cause => rfl
  | ok s =>
    obtain ⟨headers, pathnames, chains, hlaid, rfl⟩ := readStored_eq_ok_iff.1 hstored
    show Except.ok (StoredChains.toTable _ (some m)) = Except.ok _
    rw [StoredChains.toTable_some_eq hlaid.inside]

end Format

end PointerChains
