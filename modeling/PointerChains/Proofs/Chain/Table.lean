import Mathlib.Data.List.Nodup
import PointerChains.Chain.Basic

/-!
# Tables of chains

A table only ever gets more pathnames, and the position of each stays.

* `ChainTable.pathname_intern` — a pathname is found where it was interned;
* `ChainTable.Extends` — a table keeps the pathnames of another at their positions;
* `ChainTable.chains_push`, `ChainTable.pathname_push` — one more chain;
* `ChainTable.Reachable` — the tables that the changes make, and `ChainTable.WellFormed`, which they
  are: each pathname stands in them once, and each chain starts at one of them.
-/

namespace PointerChains

namespace ChainTable

variable {t u v : ChainTable} {pathname : String} {object : Option ObjectId}
  {offsets : List UInt64}

/-- The pathnames of the one table are in the other, at the same positions. -/
def Extends (u t : ChainTable) : Prop :=
  ∀ (index : Nat) (pathname : String),
    t.pathnames[index]? = some pathname → u.pathnames[index]? = some pathname

theorem Extends.refl (t : ChainTable) : t.Extends t := fun _ _ h => h

theorem Extends.trans (h : v.Extends u) (h' : u.Extends t) : v.Extends t :=
  fun index pathname ht => h index pathname (h' index pathname ht)

theorem pathname_intern (t : ChainTable) (pathname : String) :
    (t.intern pathname).2.pathnames[(t.intern pathname).1]? = some pathname := by
  rw [intern]
  cases hindex : t.pathnames.idxOf? pathname with
  | some index =>
    rw [Array.idxOf?, Option.map_eq_some_iff] at hindex
    obtain ⟨i, hi, rfl⟩ := hindex
    rw [Array.finIdxOf?_eq_some_iff] at hi
    show t.pathnames[i.val]? = some pathname
    rw [Array.getElem?_eq_getElem i.isLt]
    exact congrArg some hi.1
  | none =>
    show (t.pathnames.push pathname)[t.pathnames.size]? = some pathname
    rw [Array.getElem?_push_size]

theorem extends_intern (t : ChainTable) (pathname : String) :
    (t.intern pathname).2.Extends t := by
  intro index other h
  rw [intern]
  cases t.pathnames.idxOf? pathname with
  | some index => exact h
  | none =>
    obtain ⟨hlt, -⟩ := Array.getElem?_eq_some_iff.1 h
    show (t.pathnames.push pathname)[index]? = some other
    rw [Array.getElem?_push, if_neg (Nat.ne_of_lt hlt)]
    exact h

theorem chains_intern (t : ChainTable) (pathname : String) :
    (t.intern pathname).2.chains = t.chains := by
  rw [intern]
  cases t.pathnames.idxOf? pathname with
  | some index => rfl
  | none => rfl

theorem extends_push (t : ChainTable) (pathname : String) (object : Option ObjectId)
    (offsets : List UInt64) : (t.push pathname object offsets).Extends t :=
  t.extends_intern pathname

theorem chains_push (t : ChainTable) (pathname : String) (object : Option ObjectId)
    (offsets : List UInt64) : (t.push pathname object offsets).chains =
      t.chains.push ⟨(t.intern pathname).1, object, offsets⟩ := by
  show (t.intern pathname).2.chains.push ⟨(t.intern pathname).1, object, offsets⟩ = _
  rw [chains_intern]

/-- The chain that was pushed has the pathname that it was pushed with. -/
theorem pathname_push (t : ChainTable) (pathname : String) (object : Option ObjectId)
    (offsets : List UInt64) : (t.push pathname object offsets).pathname?
      ⟨(t.intern pathname).1, object, offsets⟩ = some pathname :=
  t.pathname_intern pathname

theorem Extends.pathname? (h : u.Extends t) {c : Chain} (hc : t.pathname? c = some pathname) :
    u.pathname? c = some pathname :=
  h c.pathname pathname hc

/-! ### Tests -/

/-- A test that remembers nothing keeps the chains that pass it. -/
theorem retain_eq (t : ChainTable) (p : Chain → Bool) :
    t.retain p = { t with chains := t.chains.filter p } := by
  have hkeep : ∀ cs : List Chain, keepFrom (fun _ c => (p c, ())) () cs = cs.filter p := by
    intro cs
    induction cs with
    | nil => rfl
    | cons c rest ih =>
      rw [List.filter_cons, ← ih, keepFrom]
      cases p c with
      | true => rfl
      | false => rfl
  rw [retain, retainFrom, hkeep, ← Array.toList_filter, Array.toArray_toList]

/-- A test that goes through answers given beforehand keeps the chains whose answer is yes. -/
theorem retainFrom_answers (t : ChainTable) (p : Chain → Bool) :
    (t.retainFrom (t.chains.toList.map p) fun answers _ =>
      (answers.head?.getD false, answers.tail)) = t.retain p := by
  have hkeep : ∀ cs : List Chain, keepFrom (fun (answers : List Bool) _ =>
      (answers.head?.getD false, answers.tail)) (cs.map p) cs = cs.filter p := by
    intro cs
    induction cs with
    | nil => rfl
    | cons c rest ih =>
      rw [List.filter_cons, ← ih, List.map_cons, keepFrom]
      cases p c with
      | true => rfl
      | false => rfl
  rw [retain_eq, retainFrom, hkeep, ← Array.toList_filter, Array.toArray_toList]

/-- A test that all chains pass retains the table. -/
theorem retain_eq_self {p : Chain → Bool} (h : ∀ c ∈ t.chains, p c) : t.retain p = t := by
  rw [retain_eq, Array.filter_eq_self.2 h]

/-! ### Tables in use -/

theorem intern_of_mem (h : pathname ∈ t.pathnames) : (t.intern pathname).2 = t := by
  rw [intern]
  cases hindex : t.pathnames.idxOf? pathname with
  | some index => rfl
  | none => exact absurd h (Array.idxOf?_eq_none_iff.1 hindex)

theorem intern_of_notMem (h : pathname ∉ t.pathnames) : t.intern pathname =
    (t.pathnames.size, { t with pathnames := t.pathnames.push pathname }) := by
  rw [intern, Array.idxOf?_eq_none_iff.2 h]

/-- A pathname that stands in the table once is interned where it stands. -/
theorem intern_of_getElem? (hnodup : t.pathnames.toList.Nodup) {index : Nat}
    (h : t.pathnames[index]? = some pathname) : t.intern pathname = (index, t) := by
  have hsame : (t.intern pathname).2 = t := intern_of_mem (Array.mem_of_getElem? h)
  have hat : t.pathnames[(t.intern pathname).1]? = some pathname := by
    have hintern := t.pathname_intern pathname
    rw [hsame] at hintern
    exact hintern
  have hindex : (t.intern pathname).1 = index := by
    rw [← Array.getElem?_toList] at h hat
    obtain ⟨hlt, -⟩ := List.getElem?_eq_some_iff.1 hat
    exact (List.getElem?_inj hlt hnodup).1 (hat.trans h.symm)
  exact Prod.ext hindex hsame

/-- The tables that are made by changes.  What is removed may depend on what was seen before. -/
inductive Reachable : ChainTable → Prop
  | empty : Reachable .empty
  | intern {t : ChainTable} (pathname : String) :
      Reachable t → Reachable (t.intern pathname).2
  | push {t : ChainTable} (pathname : String) (object : Option ObjectId) (offsets : List UInt64) :
      Reachable t → Reachable (t.push pathname object offsets)
  | remove {t : ChainTable} {kept : Array Chain} :
      Reachable t → kept.toList.Sublist t.chains.toList → Reachable { t with chains := kept }

theorem Reachable.retain (h : t.Reachable) (p : Chain → Bool) : (t.retain p).Reachable := by
  rw [retain_eq]
  apply h.remove
  rw [Array.toList_filter]
  exact List.filter_sublist

/-- Each pathname stands in the table once, and each chain starts at one of them. -/
structure WellFormed (t : ChainTable) : Prop where
  nodup : t.pathnames.toList.Nodup
  inside : ∀ c ∈ t.chains, c.pathname < t.pathnames.size

theorem WellFormed.exists_pathname (h : t.WellFormed) {c : Chain} (hc : c ∈ t.chains) :
    ∃ pathname, t.pathname? c = some pathname :=
  ⟨_, Array.getElem?_eq_getElem (h.inside c hc)⟩

theorem WellFormed.intern (h : t.WellFormed) (pathname : String) :
    (t.intern pathname).2.WellFormed := by
  by_cases hmem : pathname ∈ t.pathnames
  · rw [intern_of_mem hmem]
    exact h
  · rw [intern_of_notMem hmem]
    refine ⟨?_, ?_⟩
    · show (t.pathnames.push pathname).toList.Nodup
      rw [Array.toList_push, ← List.concat_eq_append, List.nodup_concat]
      exact ⟨by simpa using hmem, h.nodup⟩
    · intro c hc
      have := h.inside c hc
      simp only [Array.size_push]
      omega

theorem WellFormed.push (h : t.WellFormed) (pathname : String) (object : Option ObjectId)
    (offsets : List UInt64) : (t.push pathname object offsets).WellFormed := by
  have hintern := h.intern pathname
  refine ⟨hintern.nodup, ?_⟩
  intro c hc
  rw [chains_push] at hc
  rcases Array.mem_push.1 hc with hc | rfl
  · have hc' : c ∈ (t.intern pathname).2.chains := by rwa [chains_intern]
    exact hintern.inside c hc'
  · obtain ⟨hlt, -⟩ := Array.getElem?_eq_some_iff.1 (t.pathname_intern pathname)
    exact hlt

theorem Reachable.wellFormed (h : t.Reachable) : t.WellFormed := by
  induction h with
  | empty => exact ⟨List.nodup_nil, fun c hc => absurd hc (Array.not_mem_empty c)⟩
  | intern pathname _ ih => exact ih.intern pathname
  | push pathname object offsets _ ih => exact ih.push pathname object offsets
  | remove _ hkept ih =>
    refine ⟨ih.nodup, ?_⟩
    intro c hc
    exact ih.inside c (Array.mem_toList_iff.1 (hkept.subset (Array.mem_toList_iff.2 hc)))

end ChainTable

end PointerChains
