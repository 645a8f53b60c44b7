import Mathlib.Data.List.Perm.Subperm
import PointerChains.Chain.Format
import PointerChains.Proofs.Chain.Table

/-!
# Stored chains as a table

The pathnames are interned first, so that a chain that is pushed finds its own there, and the table
of pathnames does not change any more.  Looking the objects up while the chains are pushed is then
the same as pushing all chains, and resolving the table afterwards.  Nor does it matter that the
chains are pushed while the rest of the file is still to be read: what is read next does not depend
on the table.

* `Format.loadChains_eq`, `Format.decode_eq` — reading chain by chain is reading all, and then
  making the table;
* `ChainTable.foldl_intern_exists` — interning keeps the first of equal pathnames;
* `ChainTable.placed`, `StoredChains.toTable_none_eq` — without a map each chain is kept;
* `ChainTable.resolve`, `StoredChains.toTable_some_eq` — **with a map the table is the resolved
  one.**
-/

namespace PointerChains

/-! ### Chain by chain -/

namespace Format

/-- The chains are pushed in the order in which they are read, and an error of the file leaves no
table. -/
theorem loadChains_eq (pathnames : List String) (m : Option MemoryMap) (count : Nat)
    (t : ChainTable) (bytes : List UInt8) : loadChains pathnames m count t bytes =
      (readChains pathnames count bytes).map fun read =>
        (read.1.foldl (StoredChains.pushChain m) t, read.2) := by
  induction count generalizing t bytes with
  | zero => rfl
  | succ count ih =>
    rw [loadChains, readChains]
    cases readWord bytes with
    | error cause => rfl
    | ok word =>
      obtain ⟨index, rest⟩ := word
      cases hpathname : pathnames[index]? with
      | none => simp only [bind, Except.bind, hpathname]; rfl
      | some pathname =>
        simp only [bind, Except.bind, hpathname]
        cases readOffsets rest with
        | error cause => rfl
        | ok read =>
          obtain ⟨offsets, rest⟩ := read
          simp only [ih]
          cases readChains pathnames count rest with
          | error cause => rfl
          | ok read => rfl

/-- **Reading chain by chain is reading what the file holds, and then making the table.** -/
theorem decode_eq (bytes : List UInt8) (m : Option MemoryMap) :
    decode bytes m = readStored bytes >>= fun stored => pure (stored.toTable m) := by
  rw [decode, readStored]
  simp only [loadChains_eq, bind_assoc]
  refine bind_congr fun headers => bind_congr fun table => bind_congr fun read => ?_
  refine bind_congr fun rest => ?_
  by_cases hplaced : bytes.length - rest.length = headers.chainsOffset
  · simp only [if_pos hplaced]
    cases readChains read.1 headers.chainsCount rest with
    | error cause => rfl
    | ok chains =>
      show (readEnd chains.2 >>= _) = (readEnd chains.2 >>= _) >>= _
      rw [bind_assoc]
      rfl
  · simp only [if_neg hplaced]
    rfl

end Format

namespace ChainTable

variable {t : ChainTable} {pathname : String} {object : Option ObjectId} {offsets : List UInt64}

/-! ### Pathnames -/

/-- Interning keeps of the pathnames those that are new, each once. -/
theorem foldl_intern_exists (t : ChainTable) (pathnames : List String) :
    ∃ kept : List String, kept.Sublist pathnames ∧
      pathnames.foldl (fun t pathname => (t.intern pathname).2) t =
        { t with pathnames := t.pathnames ++ kept.toArray } ∧
      ∀ p ∈ pathnames, p ∈ t.pathnames ++ kept.toArray := by
  induction pathnames generalizing t with
  | nil => exact ⟨[], List.Sublist.refl [], by simp, by simp⟩
  | cons p ps ih =>
    by_cases hmem : p ∈ t.pathnames
    · obtain ⟨kept, hsublist, htable, hall⟩ := ih t
      refine ⟨kept, hsublist.cons p, ?_, ?_⟩
      · rw [List.foldl_cons, intern_of_mem hmem]
        exact htable
      · exact List.forall_mem_cons.2 ⟨Array.mem_append.2 (.inl hmem), hall⟩
    · obtain ⟨kept, hsublist, htable, hall⟩ := ih { t with pathnames := t.pathnames.push p }
      have hkept : t.pathnames ++ (p :: kept).toArray = t.pathnames.push p ++ kept.toArray := by
        simp
      refine ⟨p :: kept, hsublist.cons_cons p, ?_, ?_⟩
      · rw [List.foldl_cons, intern_of_notMem hmem, hkept]
        exact htable
      · rw [hkept]
        exact List.forall_mem_cons.2 ⟨by simp, hall⟩

/-- Where a pathname is interned does not depend on the chains. -/
theorem intern_withChains (h : pathname ∈ t.pathnames) (chains : Array Chain) :
    ({ t with chains } : ChainTable).intern pathname =
      ((t.intern pathname).1, { t with chains }) := by
  refine Prod.ext ?_ (intern_of_mem h)
  simp only [intern]
  cases t.pathnames.idxOf? pathname with
  | some index => rfl
  | none => rfl

/-! ### Chains without objects -/

/-- A stored chain in a table that has its pathname. -/
def placed (t : ChainTable) (chain : String × List UInt64) : Chain :=
  ⟨(t.intern chain.1).1, none, chain.2⟩

theorem push_withChains (h : pathname ∈ t.pathnames) (chains : Array Chain) :
    ({ t with chains } : ChainTable).push pathname object offsets =
      { t with chains := chains.push { t.placed (pathname, offsets) with object } } := by
  rw [push, intern_withChains h]
  rfl

/-- A chain is placed at its pathname. -/
theorem pathname?_placed {chain : String × List UInt64} (h : chain.1 ∈ t.pathnames) :
    t.pathname? (t.placed chain) = some chain.1 := by
  have hat := t.pathname_intern chain.1
  rw [intern_of_mem h] at hat
  exact hat

/-! ### Objects -/

/-- The chain with the object that its pathname has in a map. -/
def resolveChain (t : ChainTable) (m : MemoryMap) (c : Chain) : Option Chain :=
  ((t.pathname? c).bind m.findObject?).map fun object => { c with object := some object.id }

/-- The table with the chains whose pathname a map finds, and the objects that it finds. -/
def resolve (t : ChainTable) (m : MemoryMap) : ChainTable :=
  { t with chains := t.chains.filterMap (t.resolveChain m) }

end ChainTable

namespace StoredChains

variable {t : ChainTable} {chains : List (String × List UInt64)}

theorem foldl_pushChain_none (h : ∀ chain ∈ chains, chain.1 ∈ t.pathnames) (before : Array Chain) :
    chains.foldl (pushChain none) { t with chains := before } =
      { t with chains := before ++ (chains.map t.placed).toArray } := by
  induction chains generalizing before with
  | nil => simp
  | cons chain chains ih =>
    obtain ⟨hchain, hchains⟩ := List.forall_mem_cons.1 h
    have hpush : pushChain none { t with chains := before } chain =
        { t with chains := before.push (t.placed chain) } :=
      ChainTable.push_withChains hchain before
    rw [List.foldl_cons, hpush, ih hchains]
    simp

/-- Pushing a chain with its object is the same as pushing it without, and resolving it. -/
theorem pushChain_resolve (m : MemoryMap) {chain : String × List UInt64} (h : chain.1 ∈ t.pathnames)
    (before : Array Chain) :
    pushChain (some m) { t with chains := before.filterMap (t.resolveChain m) } chain =
      { t with chains := (before.push (t.placed chain)).filterMap (t.resolveChain m) } := by
  have hresolved : t.resolveChain m (t.placed chain) =
      (m.findObject? chain.1).map fun object =>
        { t.placed chain with object := some object.id } := by
    rw [ChainTable.resolveChain, ChainTable.pathname?_placed h]
    rfl
  cases hfind : m.findObject? chain.1 with
  | none =>
    rw [hfind] at hresolved
    rw [Array.filterMap_push_none hresolved (Array.size_push _)]
    simp only [pushChain, hfind]
  | some object =>
    rw [hfind] at hresolved
    rw [Array.filterMap_push_some hresolved (Array.size_push _)]
    simp only [pushChain, hfind]
    exact ChainTable.push_withChains h _

theorem foldl_pushChain_some (m : MemoryMap) (h : ∀ chain ∈ chains, chain.1 ∈ t.pathnames)
    (before : Array Chain) :
    chains.foldl (pushChain (some m)) { t with chains := before.filterMap (t.resolveChain m) } =
      { t with chains :=
        (before ++ (chains.map t.placed).toArray).filterMap (t.resolveChain m) } := by
  induction chains generalizing before with
  | nil => simp
  | cons chain chains ih =>
    obtain ⟨hchain, hchains⟩ := List.forall_mem_cons.1 h
    rw [List.foldl_cons, pushChain_resolve m hchain, ih hchains]
    simp

/-- Every chain starts at one of the stored pathnames. -/
def Inside (s : StoredChains) : Prop := ∀ chain ∈ s.chains, chain.1 ∈ s.pathnames

/-- The table that the chains are pushed into. -/
def base (s : StoredChains) : ChainTable :=
  s.pathnames.foldl (fun t pathname => (t.intern pathname).2) .empty

/-- The stored pathnames stand in it in their order, those that come again left out. -/
theorem base_exists (s : StoredChains) : ∃ kept : List String, kept.Sublist s.pathnames ∧
    s.base = ⟨kept.toArray, #[]⟩ ∧ ∀ p ∈ s.pathnames, p ∈ kept := by
  obtain ⟨kept, hsublist, hbase, hall⟩ := ChainTable.empty.foldl_intern_exists s.pathnames
  refine ⟨kept, hsublist, ?_, ?_⟩
  · rw [base, hbase]
    simp [ChainTable.empty]
  · simpa [ChainTable.empty] using hall

variable {s : StoredChains}

/-- Pathnames that are distinct are all kept. -/
theorem base_of_nodup (h : s.pathnames.Nodup) : s.base = ⟨s.pathnames.toArray, #[]⟩ := by
  obtain ⟨kept, hsublist, hbase, hall⟩ := s.base_exists
  have hlength : s.pathnames.length ≤ kept.length := (List.subperm_of_subset h hall).length_le
  rw [hbase, hsublist.eq_of_length_le hlength]

theorem Inside.mem_base (h : s.Inside) : ∀ chain ∈ s.chains, chain.1 ∈ s.base.pathnames := by
  obtain ⟨kept, -, hbase, hall⟩ := s.base_exists
  intro chain hchain
  rw [hbase]
  exact List.mem_toArray.2 (hall chain.1 (h chain hchain))

theorem base_withoutChains (s : StoredChains) : { s.base with chains := #[] } = s.base := by
  obtain ⟨kept, -, hbase, -⟩ := s.base_exists
  rw [hbase]

/-- Without a map every chain is kept, and no object is known. -/
theorem toTable_none_eq (h : s.Inside) :
    s.toTable none = { s.base with chains := (s.chains.map s.base.placed).toArray } := by
  have hpushed := foldl_pushChain_none h.mem_base #[]
  rw [base_withoutChains, Array.empty_append] at hpushed
  exact hpushed

/-- **With a map the table is the one without, resolved.** -/
theorem toTable_some_eq (h : s.Inside) (m : MemoryMap) :
    s.toTable (some m) = (s.toTable none).resolve m := by
  have hpushed := foldl_pushChain_some m h.mem_base #[]
  rw [Array.filterMap_empty, base_withoutChains, Array.empty_append] at hpushed
  rw [toTable_none_eq h]
  exact hpushed

/-! ### Changes -/

theorem reachable_pushChain (h : t.Reachable) (m : Option MemoryMap)
    (chain : String × List UInt64) : (pushChain m t chain).Reachable := by
  cases m with
  | none => exact h.push chain.1 none chain.2
  | some m =>
    simp only [pushChain]
    cases m.findObject? chain.1 with
    | none => exact h
    | some object => exact h.push chain.1 (some object.id) chain.2

/-- A load makes a table by changes. -/
theorem reachable_toTable (s : StoredChains) (m : Option MemoryMap) : (s.toTable m).Reachable := by
  rw [toTable]
  refine List.foldlRecOn (motive := ChainTable.Reachable) _ _ ?_ ?_
  · refine List.foldlRecOn (motive := ChainTable.Reachable) _ _ .empty ?_
    intro t h pathname _
    exact h.intern pathname
  · intro t h chain _
    exact reachable_pushChain h m chain

end StoredChains

end PointerChains
