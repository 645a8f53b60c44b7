import Mathlib
import PointerChains.Proofs.Chain.Table

/-!
# Tables under changes

A table of chains is made by interning pathnames, pushing chains and retaining some of them, in any
order.  What it holds in the end is read off the changes: the pathnames in the order in which they
first came, and the chains in the order in which they were pushed, without those that a later test
rejected.  Since positions stay, a test sees a chain as it stands in the last table.

A pathname can also be found by hashing, in an index beside the table.  Both are changed together,
and the index never tells anything but the position in the table.

* `ChainTable.Change`, `ChainTable.run` — the table after changes;
* `ChainTable.Indexed` — a table with an index of its pathnames;
* `ChainTable.Indexed.InStep` — the index tells where each pathname stands, and
  `ChainTable.Indexed.table_intern`: then it stands in for a search;
* `ChainTable.chains_foldl` — the chains after changes;
* `ChainTable.table_after_changes` — **what a table and its index hold after any changes.**
-/

namespace PointerChains

namespace ChainTable

variable {t u : ChainTable} {pathname : String}

/-! ### Changes -/

/-- A chain as it is handed in, with the pathname of the object that it starts at. -/
structure Entry where
  pathname : String
  object : Option ObjectId
  offsets : List UInt64

/-- A change of a table. -/
inductive Change where
  | intern (pathname : String)
  | push (e : Entry)
  /-- Only the chains that pass the test stay. -/
  | retain (p : Chain → Bool)

/-- The pathname that a change interns. -/
def Change.pathname? : Change → Option String
  | .intern pathname => some pathname
  | .push e => some e.pathname
  | .retain _ => none

/-- The table after a change. -/
def change (t : ChainTable) : Change → ChainTable
  | .intern pathname => (t.intern pathname).2
  | .push e => t.push e.pathname e.object e.offsets
  | .retain p => t.retain p

/-- The table that changes make of an empty one. -/
def run (changes : List Change) : ChainTable := changes.foldl change .empty

theorem WellFormed.change (h : t.WellFormed) (c : Change) : (t.change c).WellFormed := by
  cases c with
  | intern pathname => exact h.intern pathname
  | push e => exact h.push e.pathname e.object e.offsets
  | retain p =>
    refine ⟨h.nodup, ?_⟩
    intro c hc
    rw [ChainTable.change, retain_eq] at hc
    exact h.inside c (Array.mem_filter.1 hc).1

theorem WellFormed.foldl_change (h : t.WellFormed) (changes : List Change) :
    (changes.foldl ChainTable.change t).WellFormed := by
  induction changes generalizing t with
  | nil => exact h
  | cons c changes ih => exact ih (h.change c)

theorem WellFormed.run (changes : List Change) : (ChainTable.run changes).WellFormed :=
  Reachable.empty.wellFormed.foldl_change changes

theorem extends_change (t : ChainTable) (c : Change) : (t.change c).Extends t := by
  cases c with
  | intern pathname => exact t.extends_intern pathname
  | push e => exact t.extends_push e.pathname e.object e.offsets
  | retain p => exact Extends.refl t

theorem extends_foldl (t : ChainTable) (changes : List Change) :
    (changes.foldl change t).Extends t := by
  induction changes generalizing t with
  | nil => exact Extends.refl t
  | cons c changes ih => exact (ih (t.change c)).trans (t.extends_change c)

/-! ### Pathnames in the order of their first changes -/

theorem eraseDups_concat (names : List String) (name : String) :
    (names ++ [name]).eraseDups =
      names.eraseDups ++ if name ∈ names.eraseDups then [] else [name] := by
  rw [List.eraseDups_append, List.removeAll]
  congr 1
  by_cases hmem : name ∈ names
  · rw [if_pos (List.mem_eraseDups.2 hmem)]
    simp [hmem]
  · rw [if_neg fun h => hmem (List.mem_eraseDups.1 h)]
    simp [hmem, List.eraseDups_cons]

/-- The pathnames of a table after one more pathname was interned. -/
theorem pathnames_intern (t : ChainTable) (pathname : String) :
    (t.intern pathname).2.pathnames.toList =
      t.pathnames.toList ++ if pathname ∈ t.pathnames.toList then [] else [pathname] := by
  by_cases hmem : pathname ∈ t.pathnames
  · rw [intern_of_mem hmem, if_pos (Array.mem_toList_iff.2 hmem), List.append_nil]
  · rw [intern_of_notMem hmem, if_neg fun h => hmem (Array.mem_toList_iff.1 h)]
    exact Array.toList_push

theorem pathnames_run (changes : List Change) :
    (run changes).pathnames.toList = (changes.filterMap Change.pathname?).eraseDups := by
  induction changes using List.reverseRecOn with
  | nil => rfl
  | append_singleton changes c ih =>
    rw [run, List.foldl_append, List.filterMap_append]
    cases c with
    | intern pathname =>
      show ((run changes).intern pathname).2.pathnames.toList = _
      rw [pathnames_intern, ih]
      exact (eraseDups_concat _ pathname).symm
    | push e =>
      show ((run changes).intern e.pathname).2.pathnames.toList = _
      rw [pathnames_intern, ih]
      exact (eraseDups_concat _ e.pathname).symm
    | retain p =>
      show (run changes).pathnames.toList = _
      rw [ih]
      exact congrArg List.eraseDups (List.append_nil _).symm

/-! ### Chains that stay -/

/-- The chain of an entry, with the position of its pathname in a table. -/
def chainOf (t : ChainTable) (e : Entry) : Chain :=
  ⟨t.pathnames.toList.idxOf e.pathname, e.object, e.offsets⟩

/-- What is pushed, each entry with the changes behind it. -/
def pushes : List Change → List (Entry × List Change)
  | [] => []
  | .intern _ :: later => pushes later
  | .push e :: later => (e, later) :: pushes later
  | .retain _ :: later => pushes later

/-- Whether a chain passes all tests among changes. -/
def passes (c : Chain) (later : List Change) : Bool :=
  later.all fun
    | .retain p => p c
    | .intern _ | .push _ => true

theorem passes_retain (c : Chain) (p : Chain → Bool) (later : List Change) :
    passes c (.retain p :: later) = (p c && passes c later) := rfl

/-- The chain that is pushed stands in all later tables as it was pushed. -/
theorem chainOf_of_extends (hu : u.WellFormed) (e : Entry)
    (h : u.Extends (t.push e.pathname e.object e.offsets)) :
    u.chainOf e = ⟨(t.intern e.pathname).1, e.object, e.offsets⟩ := by
  have hat : u.pathnames[(t.intern e.pathname).1]? = some e.pathname :=
    h _ _ (t.pathname_intern e.pathname)
  rw [← Array.getElem?_toList] at hat
  obtain ⟨hlt, heq⟩ := List.getElem?_eq_some_iff.1 hat
  have hposition := hu.nodup.idxOf_getElem _ hlt
  rw [heq] at hposition
  rw [chainOf, hposition]

/-- The chains after changes are those of before that pass all tests, and then those that were
pushed and pass all tests behind their push. -/
theorem chains_foldl (ht : t.WellFormed) (changes : List Change)
    (h : changes.foldl change t = u) :
    u.chains.toList = t.chains.toList.filter (passes · changes) ++
      ((pushes changes).filter fun x => passes (u.chainOf x.1) x.2).map fun x =>
        u.chainOf x.1 := by
  induction changes generalizing t with
  | nil =>
    cases h
    simp [passes, pushes]
  | cons c later ih =>
    have hchain := ih (ht.change c) h
    rw [hchain]
    cases c with
    | intern pathname =>
      show (t.intern pathname).2.chains.toList.filter _ ++ _ = _
      rw [chains_intern]
      rfl
    | push e =>
      have hextends : u.Extends (t.push e.pathname e.object e.offsets) := by
        rw [← h]
        exact extends_foldl _ later
      have hu : u.WellFormed := by
        rw [← h]
        exact (ht.change (.push e)).foldl_change later
      show (t.push e.pathname e.object e.offsets).chains.toList.filter _ ++ _ = _
      rw [chains_push, ← chainOf_of_extends hu e hextends, Array.toList_push, List.filter_append,
        List.append_assoc, pushes]
      simp only [List.filter_cons, List.filter_nil]
      -- the new chain stays exactly if it passes the tests behind it
      cases passes (u.chainOf e) later with
      | true => rfl
      | false => rfl
    | retain p =>
      show (t.retain p).chains.toList.filter _ ++ _ = _
      rw [retain_eq, Array.toList_filter, List.filter_filter]
      simp only [passes_retain, Bool.and_comm]
      rfl

theorem pathname?_chainOf {e : Entry} (h : e.pathname ∈ t.pathnames.toList) :
    t.pathname? (t.chainOf e) = some e.pathname := by
  rw [pathname?, chainOf, ← Array.getElem?_toList]
  exact List.getElem?_idxOf h

theorem mem_filterMap_of_mem_pushes {changes : List Change} {x : Entry × List Change}
    (h : x ∈ pushes changes) : x.1.pathname ∈ changes.filterMap Change.pathname? := by
  induction changes with
  | nil => cases h
  | cons c later ih =>
    rw [List.filterMap_cons]
    cases c with
    | intern pathname => exact List.mem_cons_of_mem _ (ih h)
    | retain p => exact ih h
    | push e =>
      rcases List.mem_cons.1 h with rfl | h
      · exact List.mem_cons_self ..
      · exact List.mem_cons_of_mem _ (ih h)

/-! ### An index beside a table -/

/-- A table with an index of its pathnames, which tells positions by hashing. -/
structure Indexed where
  table : ChainTable := .empty
  positions : Std.HashMap String Nat := ∅

namespace Indexed

variable {x : Indexed}

/-- The position of a pathname by the index.  A new pathname goes to the end of the table, and into
the index. -/
def intern (x : Indexed) (pathname : String) : Nat × Indexed :=
  match x.positions[pathname]? with
  | some index => (index, x)
  | none =>
    let index := x.table.pathnames.size
    (index,
      { table := { x.table with pathnames := x.table.pathnames.push pathname },
        positions := x.positions.insert pathname index })

/-- One more chain, at the position of its pathname by the index. -/
def push (x : Indexed) (e : Entry) : Indexed :=
  let (index, x) := x.intern e.pathname
  let chains := x.table.chains.push { pathname := index, object := e.object, offsets := e.offsets }
  { x with table := { x.table with chains } }

/-- The table and the index after a change. -/
def change (x : Indexed) : Change → Indexed
  | .intern pathname => (x.intern pathname).2
  | .push e => x.push e
  | .retain p => { x with table := x.table.retain p }

/-- The table and the index that changes make of empty ones. -/
def run (changes : List Change) : Indexed := changes.foldl change {}

/-- The index tells of each pathname where it stands in the table, and of no other. -/
def InStep (x : Indexed) : Prop :=
  ∀ (pathname : String) (index : Nat),
    x.positions[pathname]? = some index ↔ x.table.pathnames[index]? = some pathname

/-- An index has one position for a pathname. -/
theorem InStep.nodup (h : x.InStep) : x.table.pathnames.toList.Nodup := by
  rw [List.nodup_iff_getElem?_ne_getElem?]
  intro i j hij hj heq
  rw [Array.getElem?_toList, Array.getElem?_toList] at heq
  rw [Array.length_toList] at hj
  have hat := Array.getElem?_eq_getElem hj
  have hi := (h _ i).2 (heq.trans hat)
  rw [(h _ j).2 hat, Option.some.injEq] at hi
  omega

/-- An index in step stands in for a search of the table. -/
theorem table_intern (h : x.InStep) (pathname : String) :
    (x.intern pathname).1 = (x.table.intern pathname).1 ∧
      (x.intern pathname).2.table = (x.table.intern pathname).2 := by
  rw [intern]
  cases hindex : x.positions[pathname]? with
  | some index =>
    rw [intern_of_getElem? h.nodup ((h pathname index).1 hindex)]
    exact ⟨rfl, rfl⟩
  | none =>
    have hnew : pathname ∉ x.table.pathnames := by
      intro hmem
      obtain ⟨index, hat⟩ := Array.mem_iff_getElem?.1 hmem
      rw [(h pathname index).2 hat] at hindex
      cases hindex
    rw [intern_of_notMem hnew]
    exact ⟨rfl, rfl⟩

theorem InStep.intern (h : x.InStep) (pathname : String) : (x.intern pathname).2.InStep := by
  rw [Indexed.intern]
  cases hindex : x.positions[pathname]? with
  | some index => exact h
  | none =>
    intro other index
    show (x.positions.insert pathname x.table.pathnames.size)[other]? = some index ↔
      (x.table.pathnames.push pathname)[index]? = some other
    rw [Std.HashMap.getElem?_insert, Array.getElem?_push]
    by_cases hname : pathname = other
    · subst hname
      rw [if_pos (beq_self_eq_true pathname), Option.some.injEq]
      by_cases hlast : index = x.table.pathnames.size
      · simp [hlast]
      · -- a pathname that the index does not know stands nowhere in the table
        rw [if_neg hlast, ← h, hindex]
        exact iff_of_false (fun heq => hlast heq.symm) nofun
    · rw [if_neg (by simpa using hname), h]
      by_cases hlast : index = x.table.pathnames.size
      · subst hlast
        simp [hname]
      · rw [if_neg hlast]

theorem InStep.change (h : x.InStep) (c : Change) :
    (x.change c).InStep ∧ (x.change c).table = x.table.change c := by
  cases c with
  | intern pathname => exact ⟨h.intern pathname, (table_intern h pathname).2⟩
  | push e =>
    obtain ⟨hindex, htable⟩ := table_intern h e.pathname
    refine ⟨h.intern e.pathname, ?_⟩
    show (x.push e).table = x.table.push e.pathname e.object e.offsets
    simp only [push, ChainTable.push, hindex, htable]
  | retain p => exact ⟨h, rfl⟩

/-- After any changes the index is in step, and the table is the one that is searched. -/
theorem inStep_run (changes : List Change) :
    (run changes).InStep ∧ (run changes).table = ChainTable.run changes := by
  induction changes using List.reverseRecOn with
  | nil =>
    refine ⟨?_, rfl⟩
    intro pathname index
    simp [run, ChainTable.empty]
  | append_singleton changes c ih =>
    obtain ⟨hstep, htable⟩ := ih
    rw [run, ChainTable.run, List.foldl_append, List.foldl_append]
    show ((run changes).change c).InStep ∧
      ((run changes).change c).table = (ChainTable.run changes).change c
    rw [← htable]
    exact hstep.change c

end Indexed

/-! ### What a table holds -/

/-- **After any changes a table holds each interned pathname once, at a position that stays, and its
index tells exactly these positions.**  Its chains are those that were pushed, in that order, and
passed all tests since; each starts at the pathname that it was pushed with. -/
theorem table_after_changes (changes : List Change) :
    (Indexed.run changes).table = run changes ∧
    (∀ (pathname : String) (index : Nat), (Indexed.run changes).positions[pathname]? = some index ↔
      (run changes).pathnames[index]? = some pathname) ∧
    (run changes).pathnames.toList.Nodup ∧
    (run changes).pathnames.toList = (changes.filterMap Change.pathname?).eraseDups ∧
    (∀ later, (run (changes ++ later)).Extends (run changes)) ∧
    (∀ c ∈ (run changes).chains, c.pathname < (run changes).pathnames.size) ∧
    (run changes).chains.toList =
      ((pushes changes).filter fun x => passes ((run changes).chainOf x.1) x.2).map
        (fun x => (run changes).chainOf x.1) ∧
    ∀ x ∈ pushes changes,
      (run changes).pathname? ((run changes).chainOf x.1) = some x.1.pathname := by
  have hwell : (run changes).WellFormed := WellFormed.run changes
  obtain ⟨hstep, htable⟩ := Indexed.inStep_run changes
  refine ⟨htable, ?_, hwell.nodup, pathnames_run changes, ?_, hwell.inside, ?_, ?_⟩
  · rw [← htable]
    exact hstep
  · intro later
    rw [run, run, List.foldl_append]
    exact extends_foldl _ later
  · exact chains_foldl Reachable.empty.wellFormed changes rfl
  · intro x hx
    apply pathname?_chainOf
    rw [pathnames_run, List.mem_eraseDups]
    exact mem_filterMap_of_mem_pushes hx

/-- A chain that a later test rejects, a pathname that no chain has yet, one that has one, and the
rejected chain again. -/
def fiveChanges : List Change :=
  [.push ⟨"game", none, [0x100]⟩, .intern "lib", .push ⟨"lib", none, [0x8, 0x0]⟩,
    .retain fun c => c.offsets.length == 2, .push ⟨"game", none, [0x100]⟩]

theorem table_after_changes_fiveChanges :
    ((⟨1, none, [0x8, 0x0]⟩ : Chain) ∈ (run fiveChanges).chains ∧
      (⟨"game", none, [0x100]⟩, []) ∈ pushes fiveChanges) ∧
    1 < (run fiveChanges).pathnames.size ∧
    (run fiveChanges).pathname? ((run fiveChanges).chainOf ⟨"game", none, [0x100]⟩) =
      some "game" ∧
    (Indexed.run fiveChanges).positions["lib"]? = some 1 := by
  have hchain : (⟨1, none, [0x8, 0x0]⟩ : Chain) ∈ (run fiveChanges).chains := by
    have hchains : (run fiveChanges).chains =
        #[⟨1, none, [0x8, 0x0]⟩, ⟨0, none, [0x100]⟩] := by cbv
    simp [hchains]
  have hpush : (⟨"game", none, [0x100]⟩, []) ∈ pushes fiveChanges := by
    simp [pushes, fiveChanges]
  have hlib : (run fiveChanges).pathnames[1]? = some "lib" := by cbv
  obtain ⟨-, hindex, -, -, -, hinside, -, hpathname⟩ := table_after_changes fiveChanges
  exact ⟨⟨hchain, hpush⟩, hinside _ hchain, hpathname _ hpush, (hindex "lib" 1).2 hlib⟩

end ChainTable

end PointerChains
