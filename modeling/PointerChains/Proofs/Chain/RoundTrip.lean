import Mathlib
import PointerChains.Proofs.Chain.Stored
import PointerChains.Proofs.Memory.Pointer
import PointerChains.Proofs.Scan.Chains

/-!
# Stored chains are read back

Each part of a file is read back by its reader, whatever follows it, and the parts stand where the
headers say.  The pathnames of a table in use are distinct, so that interning them again gives the
same positions, and the chains that are pushed behind them find their pathnames there.

* `Format.readWord_littleEndian`, `Format.readPathnames_append`, `Format.readOffsets_append`,
  `Format.readChains_append` — the parts;
* `Format.readStored_of_encode` — a file as a whole;
* `StoredChains.toTable_none`, `StoredChains.toTable_some` — the table that was stored;
* `StoredChains.resolvedIn_toTable`, `Tree.resolvedIn_of_flatten` — loads and scans make tables with
  the objects of their map;
* `Format.decode_of_encode` — **what is written is read back.**
-/

namespace PointerChains

/-- The chain has offsets, and they fit into words. -/
def Chain.Fits (c : Chain) : Prop :=
  c.offsets ≠ [] ∧ ∀ offset ∈ c.offsets, offset.toNat < 2 ^ 32

/-- A chain as it is stored, with the pathname at its position. -/
def Chain.stored (pathnames : List String) (c : Chain) : String × List UInt64 :=
  (pathnames[c.pathname]?.getD "", c.offsets)

namespace Format

variable {bytes rest : List UInt8} {n : Nat} {t : ChainTable} {cs : List Chain}

/-! ### Words -/

theorem word_eq_ok (h : word n = .ok bytes) : n < 2 ^ 32 ∧ bytes = littleEndian 4 n := by
  rw [word] at h
  by_cases hlt : n < 2 ^ 32
  · rw [if_pos hlt] at h
    cases h
    exact ⟨hlt, rfl⟩
  · rw [if_neg hlt] at h
    cases h

theorem ofLittleEndian_word (h : n < 2 ^ 32) : ofLittleEndian (littleEndian 4 n) = n := by
  rw [ofLittleEndian_littleEndian]
  exact Nat.mod_eq_of_lt h

theorem readWord_littleEndian (h : n < 2 ^ 32) (rest : List UInt8) :
    readWord (littleEndian 4 n ++ rest) = .ok (n, rest) := by
  show Except.ok (ofLittleEndian (littleEndian 4 n), rest) = _
  rw [ofLittleEndian_word h]

/-! ### Pathnames -/

theorem isStorable_iff {pathname : String} :
    isStorable pathname ↔ pathnameBytes pathname ≠ [] ∧ 0 ∉ pathnameBytes pathname := by
  simp [isStorable]

theorem fromUTF8?_pathnameBytes (pathname : String) :
    String.fromUTF8? ⟨(pathnameBytes pathname).toArray⟩ = some pathname := by
  rw [String.fromUTF8?]
  exact dif_pos pathname.isValidUTF8

/-- Up to the zero byte, and from it on. -/
theorem span_pathname {entry : List UInt8} (h : 0 ∉ entry) (rest : List UInt8) :
    (entry ++ 0 :: rest).takeWhile (· != 0) = entry ∧
      (entry ++ 0 :: rest).dropWhile (· != 0) = 0 :: rest := by
  have hall : ∀ b ∈ entry, (b != 0) = true := by
    intro b hb
    rw [bne_iff_ne]
    rintro rfl
    exact h hb
  rw [List.takeWhile_append_of_pos hall, List.dropWhile_append_of_pos hall]
  simp

theorem readPathnames_append {pathnames : List String} (h : ∀ p ∈ pathnames, isStorable p)
    (rest : List UInt8) :
    readPathnames pathnames.length
      (pathnames.flatMap (fun p => pathnameBytes p ++ [0]) ++ rest) = .ok (pathnames, rest) := by
  induction pathnames with
  | nil => rfl
  | cons p ps ih =>
    obtain ⟨hne, hzero⟩ := isStorable_iff.1 (h p List.mem_cons_self)
    have hrest := ih fun q hq => h q (List.mem_cons_of_mem p hq)
    have hfront : (p :: ps).flatMap (fun p => pathnameBytes p ++ [0]) ++ rest =
        pathnameBytes p ++ 0 :: (ps.flatMap (fun p => pathnameBytes p ++ [0]) ++ rest) := by
      simp
    obtain ⟨htake, hdrop⟩ :=
      span_pathname hzero (ps.flatMap (fun p => pathnameBytes p ++ [0]) ++ rest)
    rw [hfront, List.length_cons, readPathnames, hdrop, htake]
    cases hbytes : pathnameBytes p with
    | nil => exact absurd hbytes hne
    | cons b bs =>
      simp only [← hbytes, fromUTF8?_pathnameBytes, hrest]
      rfl

/-! ### Offsets -/

/-- One offset in front of its mark. -/
theorem readOffsets_cons {offset : UInt64} (h : offset.toNat < 2 ^ 32) (mark : UInt8)
    (rest : List UInt8) :
    readOffsets (littleEndian 4 offset.toNat ++ mark :: rest) =
      if mark = nextMark then do
        let (offsets, rest) ← readOffsets rest
        return (offset :: offsets, rest)
      else if mark = lastMark then .ok ([offset], rest)
      else .error (.corrupt .delimiter) := by
  have hoffset : UInt64.ofNat (ofLittleEndian (littleEndian 4 offset.toNat)) = offset := by
    rw [ofLittleEndian_word h, UInt64.ofNat_toNat]
  conv_rhs => rw [← hoffset]
  rfl

theorem readOffsets_append {offsets : List UInt64} (hne : offsets ≠ [])
    (h : ∀ offset ∈ offsets, offset.toNat < 2 ^ 32) (rest : List UInt8) :
    readOffsets (offsetBytes offsets ++ rest) = .ok (offsets, rest) := by
  fun_induction offsetBytes offsets with
  | case1 => contradiction
  | case2 last =>
    have hlast := h last List.mem_cons_self
    rw [List.append_assoc, List.singleton_append, readOffsets_cons hlast]
    rfl
  | case3 offset others hothers ih =>
    have hoffset := h offset List.mem_cons_self
    have hne' : others ≠ [] := by
      rintro rfl
      exact hothers rfl
    have hothers := ih hne' fun o ho => h o (List.mem_cons_of_mem offset ho)
    rw [List.append_assoc, List.cons_append, readOffsets_cons hoffset, if_pos rfl, hothers]
    rfl

/-! ### Chains -/

theorem checkChains_eq_ok_iff : checkChains n cs = .ok () ↔ ∀ c ∈ cs, c.Fits := by
  induction cs generalizing n with
  | nil => simp [checkChains]
  | cons c cs ih =>
    rw [checkChains, List.forall_mem_cons, Chain.Fits]
    by_cases hempty : c.offsets = []
    · simp [hempty]
    · rw [if_neg (by simpa using hempty)]
      cases hlarge : c.offsets.find? fun offset => 2 ^ 32 ≤ offset.toNat with
      | some offset =>
        have hge : 2 ^ 32 ≤ offset.toNat := by simpa using List.find?_some hlarge
        simp only [reduceCtorEq, false_iff]
        intro h
        have hlt := h.1.2 offset (List.mem_of_find?_eq_some hlarge)
        omega
      | none =>
        have hall : ∀ offset ∈ c.offsets, offset.toNat < 2 ^ 32 := by
          simpa using List.find?_eq_none.1 hlarge
        simp only [ih]
        exact ⟨fun h => ⟨⟨hempty, hall⟩, h⟩, And.right⟩

theorem chainBytes_cons {c : Chain} (h : chainBytes (c :: cs) = .ok bytes) :
    c.pathname < 2 ^ 32 ∧ ∃ others, chainBytes cs = .ok others ∧
      bytes = littleEndian 4 c.pathname ++ (offsetBytes c.offsets ++ others) := by
  rw [chainBytes] at h
  obtain ⟨index, hindex, h⟩ := exists_of_bind_eq_ok h
  obtain ⟨others, hothers, h⟩ := exists_of_bind_eq_ok h
  obtain ⟨hlt, rfl⟩ := word_eq_ok hindex
  cases h
  exact ⟨hlt, others, hothers, List.append_assoc ..⟩

/-- One chain in front of the others. -/
theorem readChains_succ {pathnames : List String} {index count : Nat} {pathname : String}
    {offsets : List UInt64} {chains : List (String × List UInt64)} {afterIndex others : List UInt8}
    (hindex : readWord bytes = .ok (index, afterIndex))
    (hpathname : pathnames[index]? = some pathname)
    (hoffsets : readOffsets afterIndex = .ok (offsets, others))
    (hchains : readChains pathnames count others = .ok (chains, rest)) :
    readChains pathnames (count + 1) bytes = .ok ((pathname, offsets) :: chains, rest) := by
  simp only [readChains, hindex, bind, Except.bind, hpathname, hoffsets, hchains]
  rfl

theorem readChains_append {pathnames : List String} (hfits : ∀ c ∈ cs, c.Fits)
    (hinside : ∀ c ∈ cs, c.pathname < pathnames.length) (h : chainBytes cs = .ok bytes)
    (rest : List UInt8) :
    readChains pathnames cs.length (bytes ++ rest) =
      .ok (cs.map (Chain.stored pathnames), rest) := by
  induction cs generalizing bytes with
  | nil =>
    cases h
    rfl
  | cons c cs ih =>
    obtain ⟨hindex, others, hothers, rfl⟩ := chainBytes_cons h
    obtain ⟨hne, hoffsets⟩ := hfits c List.mem_cons_self
    have hpathname := List.getElem?_eq_getElem (hinside c List.mem_cons_self)
    have hrest := ih (fun d hd => hfits d (List.mem_cons_of_mem c hd))
      (fun d hd => hinside d (List.mem_cons_of_mem c hd)) hothers
    rw [List.append_assoc, List.append_assoc, List.map_cons, Chain.stored, hpathname]
    exact readChains_succ (readWord_littleEndian hindex _) hpathname
      (readOffsets_append hne hoffsets _) hrest

/-! ### Files -/

/-- The first two items of a file with one pathname table right behind them. -/
def headerBytes (pathnamesCount chainsCount chainsOffset : Nat) : List UInt8 :=
  magic ++ [version, kindTag .pointerScan] ++ littleEndian 4 pathnamesCount ++
    littleEndian 4 headerSize ++ littleEndian 4 chainsCount ++ littleEndian 4 chainsOffset

theorem readHeaders_append {pathnamesCount chainsCount chainsOffset : Nat}
    (hpathnames : pathnamesCount < 2 ^ 32) (hchains : chainsCount < 2 ^ 32)
    (hoffset : chainsOffset < 2 ^ 32) (rest : List UInt8) :
    readHeaders (headerBytes pathnamesCount chainsCount chainsOffset ++ rest) =
      .ok ⟨version, .pointerScan, pathnamesCount, headerSize, chainsCount, chainsOffset⟩ := by
  have hbytes : headerBytes pathnamesCount chainsCount chainsOffset ++ rest =
      0x53 :: 0x43 :: 0x13 :: 0x37 :: version :: kindTag .pointerScan ::
        (littleEndian 4 pathnamesCount ++ (littleEndian 4 headerSize ++
          (littleEndian 4 chainsCount ++ (littleEndian 4 chainsOffset ++ rest)))) := rfl
  have hsize : headerSize < 2 ^ 32 := by decide
  have hkind : readKind (kindTag .pointerScan) = .ok .pointerScan := rfl
  have hmagic : [0x53, 0x43, 0x13, 0x37] = magic := rfl
  rw [hbytes, readHeaders, if_pos hmagic]
  simp only [if_true, hkind, readWord_littleEndian hpathnames, readWord_littleEndian hsize,
    readWord_littleEndian hchains, readWord_littleEndian hoffset, bind, Except.bind]
  rfl

theorem length_headerBytes (pathnamesCount chainsCount chainsOffset : Nat) :
    (headerBytes pathnamesCount chainsCount chainsOffset).length = headerSize := by
  simp [headerBytes, headerSize, magic]

theorem bytesFrom_append {front : List UInt8} (hlength : front.length = n) (rest : List UInt8) :
    bytesFrom (front ++ rest) n = .ok rest := by
  have hle : n ≤ (front ++ rest).length := by
    rw [List.length_append]
    omega
  rw [bytesFrom, if_pos hle, List.drop_left' hlength]

theorem readPathnames_table {pathnames : List String} (h : ∀ p ∈ pathnames, isStorable p)
    (rest : List UInt8) :
    readPathnames pathnames.length (pathnameTable pathnames ++ rest) =
      .ok (pathnames, 0 :: rest) := by
  rw [pathnameTable, List.append_assoc]
  exact readPathnames_append h (0 :: rest)

/-- The pathnames and the chains can be told apart in a file, and counts and positions are words. -/
structure Storable (t : ChainTable) : Prop where
  pathnames : ∀ p ∈ t.pathnames.toList, isStorable p
  chains : ∀ c ∈ t.chains.toList, c.Fits
  pathnamesCount_lt : t.pathnames.toList.length < 2 ^ 32
  chainsCount_lt : t.chains.toList.length < 2 ^ 32
  chainsOffset_lt : headerSize + (pathnameTable t.pathnames.toList).length < 2 ^ 32

/-- What a written table is like, and what is written. -/
theorem encode_eq_ok (h : encode t = .ok bytes) :
    Storable t ∧ ∃ chains, chainBytes t.chains.toList = .ok chains ∧
      bytes = headerBytes t.pathnames.toList.length t.chains.toList.length
        (headerSize + (pathnameTable t.pathnames.toList).length) ++
          (pathnameTable t.pathnames.toList ++ (chains ++ [endMark])) := by
  rw [encode] at h
  by_cases hall : t.pathnames.all isStorable
  · rw [if_pos hall] at h
    obtain ⟨_, hcheck, h⟩ := exists_of_bind_eq_ok h
    obtain ⟨pathnamesCount, hpathnames, h⟩ := exists_of_bind_eq_ok h
    obtain ⟨pathnamesOffset, hsize, h⟩ := exists_of_bind_eq_ok h
    obtain ⟨chainsCount, hchains, h⟩ := exists_of_bind_eq_ok h
    obtain ⟨chainsOffset, hoffset, h⟩ := exists_of_bind_eq_ok h
    obtain ⟨chains, hbytes, h⟩ := exists_of_bind_eq_ok h
    obtain ⟨hpathnamesLt, rfl⟩ := word_eq_ok hpathnames
    obtain ⟨-, rfl⟩ := word_eq_ok hsize
    obtain ⟨hchainsLt, rfl⟩ := word_eq_ok hchains
    obtain ⟨hoffsetLt, rfl⟩ := word_eq_ok hoffset
    cases h
    rw [Array.all_eq_true'] at hall
    refine ⟨?_, chains, hbytes, by simp [headerBytes]⟩
    exact
      { pathnames := by simpa using hall
        chains := checkChains_eq_ok_iff.1 hcheck
        pathnamesCount_lt := by simpa using hpathnamesLt
        chainsCount_lt := by simpa using hchainsLt
        chainsOffset_lt := hoffsetLt }
  · rw [if_neg hall] at h
    cases h

/-- A file is read part by part, each from where the one before ends. -/
theorem readStored_eq_ok {headers : Headers} {table others after : List UInt8}
    {pathnames : List String} {chains : List (String × List UInt64)}
    (hheaders : readHeaders bytes = .ok headers)
    (htable : bytesFrom bytes headers.pathnamesOffset = .ok table)
    (hpathnames : readPathnames headers.pathnamesCount table = .ok (pathnames, 0 :: others))
    (hoffset : bytes.length - others.length = headers.chainsOffset)
    (hchains : readChains pathnames headers.chainsCount others = .ok (chains, endMark :: after)) :
    readStored bytes = .ok ⟨pathnames, chains⟩ := by
  simp only [readStored, hheaders, bind, Except.bind, htable, hpathnames, readTableEnd, hoffset,
    hchains]
  rfl

/-- A file that was written is read as it was stored. -/
theorem readStored_of_encode (ht : t.WellFormed) (h : encode t = .ok bytes) :
    readStored bytes = .ok
      ⟨t.pathnames.toList, t.chains.toList.map (Chain.stored t.pathnames.toList)⟩ := by
  obtain ⟨hstorable, chains, hbytes, rfl⟩ := encode_eq_ok h
  have hinside : ∀ c ∈ t.chains.toList, c.pathname < t.pathnames.toList.length := by
    intro c hc
    exact ht.inside c (Array.mem_toList_iff.1 hc)
  refine readStored_eq_ok
    (readHeaders_append hstorable.pathnamesCount_lt hstorable.chainsCount_lt
      hstorable.chainsOffset_lt _)
    (bytesFrom_append (length_headerBytes ..) _) (readPathnames_table hstorable.pathnames _) ?_
    (readChains_append hstorable.chains hinside hbytes [endMark])
  show _ = headerSize + (pathnameTable t.pathnames.toList).length
  rw [List.length_append, List.length_append, length_headerBytes, ← Nat.add_assoc,
    Nat.add_sub_cancel]

end Format

/-! ### Tables -/

namespace ChainTable

variable {t : ChainTable}

/-- The table with chains whose objects are not known. -/
def withoutObjects (t : ChainTable) : ChainTable :=
  { t with chains := t.chains.map fun c => { c with object := none } }

/-- The object of each chain is the one that the map finds by the pathname. -/
def ResolvedIn (t : ChainTable) (m : MemoryMap) : Prop :=
  ∀ c ∈ t.chains, ∃ pathname object, t.pathname? c = some pathname ∧
    m.findObject? pathname = some object ∧ c.object = some object.id

theorem stored_of_pathname? {c : Chain} {pathname : String} (h : t.pathname? c = some pathname) :
    c.stored t.pathnames.toList = (pathname, c.offsets) := by
  have hat : t.pathnames.toList[c.pathname]? = some pathname := by
    rw [Array.getElem?_toList]
    exact h
  rw [Chain.stored, hat, Option.getD_some]

/-- The objects that a map finds are found again. -/
theorem ResolvedIn.resolve_withoutObjects {m : MemoryMap} (h : t.ResolvedIn m) :
    t.withoutObjects.resolve m = t := by
  have hchain : ∀ c ∈ t.chains,
      t.withoutObjects.resolveChain m { c with object := none } = some c := by
    intro c hc
    obtain ⟨pathname, object, hpathname, hfind, hobject⟩ := h c hc
    have hpathname : t.withoutObjects.pathname? { c with object := none } = some pathname :=
      hpathname
    rw [resolveChain, hpathname, Option.bind_some, hfind, Option.map_some, ← hobject]
  have hchains :
      t.withoutObjects.chains.filterMap (t.withoutObjects.resolveChain m) = t.chains := by
    apply Array.toList_inj.1
    rw [Array.toList_filterMap, withoutObjects, Array.toList_map, List.filterMap_map]
    exact (List.filterMap_congr fun c hc => hchain c (Array.mem_toList_iff.1 hc)).trans
      List.filterMap_some
  rw [resolve, hchains]
  rfl

end ChainTable

namespace StoredChains

variable {t : ChainTable}

/-- The stored form of a table. -/
def of (t : ChainTable) : StoredChains :=
  ⟨t.pathnames.toList, t.chains.toList.map (Chain.stored t.pathnames.toList)⟩

theorem base_of (ht : t.WellFormed) : (of t).base = { t with chains := #[] } := by
  rw [base_of_nodup ht.nodup, of, Array.toArray_toList]

theorem inside_of (ht : t.WellFormed) : (of t).Inside := by
  intro chain hchain
  obtain ⟨c, hc, rfl⟩ := List.mem_map.1 hchain
  obtain ⟨pathname, hpathname⟩ := ht.exists_pathname (Array.mem_toList_iff.1 hc)
  rw [ChainTable.stored_of_pathname? hpathname]
  exact Array.mem_toList_iff.2 (Array.mem_of_getElem? hpathname)

/-- A chain that was stored is placed where it was. -/
theorem placed_stored (ht : t.WellFormed) {c : Chain} (hc : c ∈ t.chains) :
    (of t).base.placed (c.stored t.pathnames.toList) = { c with object := none } := by
  obtain ⟨pathname, hpathname⟩ := ht.exists_pathname hc
  have hintern : ({ t with chains := #[] } : ChainTable).intern pathname =
      (c.pathname, { t with chains := #[] }) := by
    apply ChainTable.intern_of_getElem?
    · exact ht.nodup
    · exact hpathname
  rw [ChainTable.stored_of_pathname? hpathname, base_of ht, ChainTable.placed, hintern]

/-- Without a map the objects are not known. -/
theorem toTable_none (ht : t.WellFormed) : (of t).toTable none = t.withoutObjects := by
  have hplaced : (of t).chains.map (of t).base.placed =
      t.chains.toList.map fun c => { c with object := none } := by
    rw [of, List.map_map]
    exact List.map_congr_left fun c hc => placed_stored ht (Array.mem_toList_iff.1 hc)
  rw [toTable_none_eq (inside_of ht), hplaced, base_of ht, ChainTable.withoutObjects,
    ← Array.toList_map, Array.toArray_toList]

/-- With a map that finds the objects the table is the one that was stored. -/
theorem toTable_some (ht : t.WellFormed) {m : MemoryMap} (hm : t.ResolvedIn m) :
    (of t).toTable (some m) = t := by
  rw [toTable_some_eq (inside_of ht), toTable_none ht, hm.resolve_withoutObjects]

end StoredChains

/-! ### Where such tables come from -/

namespace ChainTable

variable {t : ChainTable} {m : MemoryMap}

theorem ResolvedIn.intern (h : t.ResolvedIn m) (pathname : String) :
    (t.intern pathname).2.ResolvedIn m := by
  intro c hc
  rw [chains_intern] at hc
  obtain ⟨other, object, hother, hfind, hobject⟩ := h c hc
  exact ⟨other, object, (t.extends_intern pathname).pathname? hother, hfind, hobject⟩

theorem ResolvedIn.push (h : t.ResolvedIn m) {pathname : String} {object : MappedObject}
    (hfind : m.findObject? pathname = some object) (offsets : List UInt64) :
    (t.push pathname (some object.id) offsets).ResolvedIn m := by
  intro c hc
  rw [chains_push] at hc
  rcases Array.mem_push.1 hc with hc | rfl
  · obtain ⟨other, object', hother, hfind', hobject⟩ := h c hc
    exact ⟨other, object', (t.extends_push pathname _ offsets).pathname? hother, hfind', hobject⟩
  · exact ⟨pathname, object, t.pathname_push pathname _ offsets, hfind, rfl⟩

theorem resolvedIn_empty (m : MemoryMap) : ChainTable.empty.ResolvedIn m :=
  fun c hc => absurd hc (Array.not_mem_empty c)

end ChainTable

theorem StoredChains.resolvedIn_pushChain {t : ChainTable} {m : MemoryMap} (h : t.ResolvedIn m)
    (chain : String × List UInt64) : (pushChain (some m) t chain).ResolvedIn m := by
  rw [pushChain]
  cases hfind : m.findObject? chain.1 with
  | none => exact h
  | some object => exact h.push hfind chain.2

/-- What is loaded with a map is resolved in it. -/
theorem StoredChains.resolvedIn_toTable (s : StoredChains) (m : MemoryMap) :
    (s.toTable (some m)).Reachable ∧ (s.toTable (some m)).ResolvedIn m := by
  refine ⟨s.reachable_toTable (some m), ?_⟩
  rw [toTable]
  refine List.foldlRecOn (motive := fun t : ChainTable => t.ResolvedIn m) _ _ ?_ ?_
  · refine List.foldlRecOn (motive := fun t : ChainTable => t.ResolvedIn m) _ _ ?_ ?_
    · exact ChainTable.resolvedIn_empty m
    · intro t h pathname _
      exact h.intern pathname
  · intro t h chain _
    exact resolvedIn_pushChain h chain

theorem Tree.resolvedIn_of_flattenLeaves {t : Tree} {m : MemoryMap} (hm : m.Built)
    {leaves : List (Nat × Node)} {table after : ChainTable} (hreachable : table.Reachable)
    (hresolved : table.ResolvedIn m) (h : t.flattenLeaves m table leaves = .ok after) :
    after.Reachable ∧ after.ResolvedIn m := by
  induction leaves generalizing table with
  | nil =>
    cases h
    exact ⟨hreachable, hresolved⟩
  | cons leaf rest ih =>
    rw [flattenLeaves] at h
    cases howner : m.objectOf? leaf.2.region with
    | none =>
      rw [howner] at h
      exact ih hreachable hresolved h
    | some object =>
      simp only [howner] at h
      cases hoffsets : t.chainOffsets object leaf.1 leaf.2 with
      | error cause => rw [hoffsets] at h; cases h
      | ok offsets =>
        rw [hoffsets] at h
        have hfind := hm.findObject?_pathname (hm.objectOf?_eq_some howner)
        exact ih (hreachable.push object.pathname (some object.id) offsets)
          (hresolved.push hfind offsets) h

/-- The chains of a tree are resolved in the map that they were made with. -/
theorem Tree.resolvedIn_of_flatten {t : Tree} {m : MemoryMap} (hm : m.Built) {chains : ChainTable}
    (h : t.flatten m = .ok chains) : chains.Reachable ∧ chains.ResolvedIn m :=
  resolvedIn_of_flattenLeaves hm .empty (ChainTable.resolvedIn_empty m) h

/-! ### The round trip -/

/-- **What is written is read back.**  Without a map all but the objects comes back, and with a map
that finds the objects everything does. -/
theorem Format.decode_of_encode {t : ChainTable} {bytes : List UInt8} (h : t.Reachable)
    (hencode : Format.encode t = .ok bytes) :
    Format.decode bytes none = .ok t.withoutObjects ∧
      ∀ m, t.ResolvedIn m → Format.decode bytes (some m) = .ok t := by
  have hstored : Format.readStored bytes = .ok (.of t) :=
    Format.readStored_of_encode h.wellFormed hencode
  refine ⟨?_, ?_⟩
  · rw [Format.decode_eq, hstored, ← StoredChains.toTable_none h.wellFormed]
    rfl
  · intro m hm
    rw [Format.decode_eq, hstored]
    show Except.ok ((StoredChains.of t).toTable (some m)) = _
    rw [StoredChains.toTable_some h.wellFormed hm]

/-- A table with one chain.  The other pathname was left behind by a chain that is gone. -/
def ChainTable.oneChain : ChainTable :=
  ((ChainTable.empty.push "libc.so" none [8]).push "game" (some ⟨0⟩) [0x100, 0x10]).retain
    fun c => c.object.isSome

/-- A map with one object. -/
def MemoryMap.oneObject : MemoryMap where
  regions := #[⟨⟨0⟩, ⟨.ofNat 0x1000, .ofNat 0x2000⟩, ⟨3⟩, some ⟨0⟩⟩]
  objects := #[⟨⟨0⟩, "game", [⟨0⟩], .ofNat 0x1000⟩]

/-- The stored form of the table. -/
def Format.oneChain : List UInt8 :=
  magic ++ [1, 1] ++ [2, 0, 0, 0, 22, 0, 0, 0, 1, 0, 0, 0, 36, 0, 0, 0] ++
    [108, 105, 98, 99, 46, 115, 111, 0, 103, 97, 109, 101, 0, 0] ++
    [1, 0, 0, 0, 0, 1, 0, 0, 0, 16, 0, 0, 0, 255, 187]

theorem Format.decode_of_encode_oneChain :
    (ChainTable.oneChain.Reachable ∧ Format.encode .oneChain = .ok Format.oneChain ∧
      ChainTable.oneChain.ResolvedIn .oneObject) ∧
    Format.decode Format.oneChain none = .ok ChainTable.oneChain.withoutObjects ∧
    Format.decode Format.oneChain (some .oneObject) = .ok .oneChain := by
  have hreachable : ChainTable.oneChain.Reachable :=
    ((ChainTable.Reachable.empty.push "libc.so" none [8]).push "game" (some ⟨0⟩)
      [0x100, 0x10]).retain _
  have hencode : Format.encode .oneChain = .ok Format.oneChain := by cbv
  have hresolved : ChainTable.oneChain.ResolvedIn .oneObject := by
    have hchains : ChainTable.oneChain.chains = #[⟨1, some ⟨0⟩, [0x100, 0x10]⟩] := by cbv
    intro c hc
    rw [hchains, Array.mem_singleton] at hc
    subst hc
    exact ⟨"game", ⟨⟨0⟩, "game", [⟨0⟩], .ofNat 0x1000⟩, by cbv, by cbv, rfl⟩
  obtain ⟨hnone, hsome⟩ := Format.decode_of_encode hreachable hencode
  exact ⟨⟨hreachable, hencode, hresolved⟩, hnone, hsome .oneObject hresolved⟩

end PointerChains
