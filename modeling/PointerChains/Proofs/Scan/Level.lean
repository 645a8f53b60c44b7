import PointerChains.Proofs.Pool.History
import PointerChains.Proofs.Scan.Matches
import PointerChains.Scan.Basic

/-!
# One level of a search

What a level should hold is said by the image alone: the aligned places in the selected regions
whose stored pointers lead to nodes of the level before.  A pass that ends with totals visits every
such place once and is shown what is stored there, so the collected candidates are just these.

* `Search.Links`, `Search.Admits` — a place leads to a node, and counts at a level;
* `Search.IsLevel` — a level holds what counts there, in order and each once;
* `Search.mem_collected_iff` — **the collected candidates are the ones that count**;
* `Search.isLevel_of_commit` — the level that they are added to.
-/

namespace PointerChains

variable {ρ : Type} {given : Selections}

/-- Candidates in strict order of their addresses, and of their parents for one address. -/
def Candidate.Precedes (c d : Candidate) : Prop :=
  c.own.toNat < d.own.toNat ∨ (c.own = d.own ∧
    (c.parent.depth < d.parent.depth ∨
      (c.parent.depth = d.parent.depth ∧ c.parent.index < d.parent.index)))

theorem Candidate.precedes_of_le {c d : Candidate} (hle : c.le d)
    (hne : (c.own, c.parent) ≠ (d.own, d.parent)) : c.Precedes d := by
  rcases NodeRef.leAt_iff.1 hle with hlt | ⟨heq, hparent⟩
  · exact .inl hlt
  · have hown : c.own = d.own := Address.toNat_injective heq
    refine .inr ⟨hown, ?_⟩
    have hdiff : c.parent ≠ d.parent := by
      intro hsame
      exact hne (Prod.ext hown hsame)
    rw [NodeRef.le, Bool.or_eq_true, Bool.and_eq_true, decide_eq_true_eq, beq_iff_eq,
      decide_eq_true_eq] at hparent
    rcases hparent with hdepth | ⟨hdepth, hindex⟩
    · exact .inl hdepth
    · refine .inr ⟨hdepth, Nat.lt_of_le_of_ne hindex ?_⟩
      intro hsame
      apply hdiff
      cases hc : c.parent
      cases hd : d.parent
      rw [hc, hd] at hdepth hsame
      rw [NodeRef.mk.injEq]
      exact ⟨hdepth, hsame⟩

theorem Candidate.pairwise_le (cs : List Candidate) :
    (cs.mergeSort Candidate.le).Pairwise fun c d => c.le d := by
  refine List.pairwise_mergeSort ?_ ?_ cs
  · intro c d e
    exact NodeRef.leAt_trans
  · intro c d
    exact NodeRef.leAt_total _ _

/-- Sorted candidates are in strict order, unless two have the same place and parent. -/
theorem Candidate.pairwise_precedes {cs : List Candidate}
    (h : cs.Pairwise fun c d => (c.own, c.parent) ≠ (d.own, d.parent)) :
    (cs.mergeSort Candidate.le).Pairwise Candidate.Precedes := by
  have hperm := List.mergeSort_perm cs Candidate.le
  have hne : (cs.mergeSort Candidate.le).Pairwise
      fun c d => (c.own, c.parent) ≠ (d.own, d.parent) :=
    (hperm.pairwise_iff fun hcd => Ne.symm hcd).2 h
  exact (pairwise_le cs).imp₂ (fun _ _ => precedes_of_le) hne

namespace Search

variable {s : Search} {image : Image} {t t' : Tree} {depth : Nat} {c : Candidate} {x : Address}

/-- The place of the candidate lies in a selected region and is aligned, and its pointer is stored
there. -/
structure Stores (s : Search) (image : Image) (c : Candidate) : Prop where
  selected : c.region ∈ s.areas.regions
  inside : ∃ r, s.map.region? c.region = some r ∧ r.range.start.toNat ≤ c.own.toNat ∧
    c.own.toNat + s.options.width.size ≤ r.range.stop.toNat
  aligned : s.params.alignment ∣ c.own.toNat
  pointer_eq : c.pointer =
    s.options.width.decode (image.read c.own.toNat s.options.width.size)

/-- The pointer that the candidate's place stores leads to the node at `x`, its parent on the level
before. -/
structure Links (s : Search) (image : Image) (t : Tree) (depth : Nat) (c : Candidate)
    (x : Address) : Prop extends s.Stores image c where
  depth_eq : c.parent.depth + 1 = depth
  parent : t.own? c.parent = some x
  le : c.pointer.toNat ≤ x.toNat
  near : x.toNat - c.pointer.toNat ≤ s.params.maxObjSize.toNat
  preset : ∀ offset, s.params.preset? depth = some offset →
    x.toNat - c.pointer.toNat = offset.toNat

/-- The candidate counts: its place leads to its parent, and to no nearer node if only the nearest
count. -/
def Admits (s : Search) (image : Image) (t : Tree) (depth : Nat) (c : Candidate) : Prop :=
  ∃ x, s.Links image t depth c x ∧ (s.params.smartScan = true →
    ∀ p y, s.Links image t depth { c with parent := p } y →
      x.toNat - c.pointer.toNat ≤ y.toNat - c.pointer.toNat)

/-- The level holds the candidates that count there, in order and each once. -/
def IsLevel (s : Search) (image : Image) (t : Tree) (depth : Nat) : Prop :=
  ∃ cs : List Candidate, t.row depth = cs.map Candidate.node ∧ cs.Pairwise Candidate.Precedes ∧
    ∀ c, c ∈ cs ↔ s.Admits image t depth c

theorem Links.congr (h : s.Links image t depth c x)
    (hrow : ∀ d, d + 1 = depth → t.row d = t'.row d) : s.Links image t' depth c x :=
  { h with parent := (Tree.own?_congr (hrow _ h.depth_eq)).symm.trans h.parent }

/-- What counts at a level depends on the level before only. -/
theorem admits_congr (hrow : ∀ d, d + 1 = depth → t.row d = t'.row d) :
    s.Admits image t depth c ↔ s.Admits image t' depth c := by
  have hrow' : ∀ d, d + 1 = depth → t'.row d = t.row d := fun d hd => (hrow d hd).symm
  constructor
  · intro h
    obtain ⟨x, hlinks, hleast⟩ := h
    exact ⟨x, hlinks.congr hrow, fun hsmart p y hy => hleast hsmart p y (hy.congr hrow')⟩
  · intro h
    obtain ⟨x, hlinks, hleast⟩ := h
    exact ⟨x, hlinks.congr hrow', fun hsmart p y hy => hleast hsmart p y (hy.congr hrow)⟩

theorem IsLevel.congr (h : s.IsLevel image t depth) (hrow : t'.row depth = t.row depth)
    (hbefore : ∀ d, d + 1 = depth → t.row d = t'.row d) : s.IsLevel image t' depth := by
  obtain ⟨cs, hcs, hsorted, hmem⟩ := h
  refine ⟨cs, hrow.trans hcs, hsorted, ?_⟩
  intro c
  rw [hmem, admits_congr hbefore]

/-- A node of a level counted when it was found. -/
theorem IsLevel.exists_links {node : Node} (h : s.IsLevel image t depth)
    (hnode : node ∈ t.level depth) :
    ∃ ref x, node.parent = some ref ∧
      s.Links image t depth ⟨ref, node.region, node.own, node.pointer⟩ x := by
  obtain ⟨cs, hrow, -, hmem⟩ := h
  have hbare : node.bare ∈ cs.map Candidate.node := by
    rw [← hrow]
    exact List.mem_map_of_mem (Array.mem_toList_iff.2 hnode)
  obtain ⟨c, hc, heq⟩ := List.mem_map.1 hbare
  rw [Candidate.node, Node.bare, Node.mk.injEq] at heq
  obtain ⟨-, hregion, hown, hpointer, hparent, -⟩ := heq
  obtain ⟨x, hlinks, -⟩ := (hmem c).1 hc
  refine ⟨c.parent, x, hparent.symm, ?_⟩
  rw [← hregion, ← hown, ← hpointer]
  exact hlinks

/-- What counts at a level has a node there. -/
theorem IsLevel.exists_node (h : s.IsLevel image t depth) (hc : s.Admits image t depth c) :
    ∃ index node, t.node? ⟨depth, index⟩ = some node ∧ node.bare = c.node := by
  obtain ⟨cs, hrow, -, hmem⟩ := h
  have hin : c.node ∈ t.row depth := by
    rw [hrow]
    exact List.mem_map_of_mem ((hmem c).2 hc)
  obtain ⟨node, hnode, hbare⟩ := List.mem_map.1 hin
  obtain ⟨index, hindex, hat⟩ := Array.getElem_of_mem (Array.mem_toList_iff.1 hnode)
  refine ⟨index, node, ?_, hbare⟩
  rw [Tree.node?_eq, ← hat]
  exact Array.getElem?_eq_getElem hindex

/-- Behind a level without nodes nothing counts. -/
theorem isLevel_of_empty (hrow : t.row depth = [])
    (hnone : ∀ p : NodeRef, p.depth + 1 = depth → t.own? p = none) : s.IsLevel image t depth := by
  refine ⟨[], hrow, .nil, ?_⟩
  intro c
  constructor
  · intro hc
    cases hc
  · intro h
    obtain ⟨x, hlinks, -⟩ := h
    have hparent := hlinks.parent
    rw [hnone _ hlinks.depth_eq] at hparent
    cases hparent

/-! ### The job of a level -/

/-- The job that a search sets its pool up for. -/
def job (s : Search) : Job where
  options := s.options
  areas := s.areas
  visitor := fun _ => .advance s.params.alignment
  alignment := s.params.alignment

theorem stepsByAlignment_job (s : Search) : s.job.StepsByAlignment := fun _ => ⟨false, rfl⟩

variable {pool after : Pool ρ} {read : ρ → Reader} {level next : LevelBuilder}

/-- A level is collected by a set-up and a pass, both of which have to go well. -/
theorem collectLevel_eq_ok (h : s.collectLevel pool read level = (.ok next, after)) :
    ∃ ready stats, pool.setup s.job.options s.job.areas s.job.visitor s.job.alignment {} =
        (.ok (), ready) ∧ (ready.runPass read).1.result = .ok stats ∧
      after = (ready.runPass read).2 ∧
      next = level.flush ((ready.runPass read).1.logs.flatMap (s.matcher level).collect) := by
  rw [collectLevel] at h
  simp only at h
  split at h
  · cases h
  · rename_i ready hsetup
    rw [Prod.mk.injEq] at h
    obtain ⟨hnext, hafter⟩ := h
    cases hresult : (ready.runPass read).1.result with
    | error cause => rw [hresult] at hnext; cases hnext
    | ok stats =>
      rw [hresult] at hnext
      cases hnext
      exact ⟨ready, stats, hsetup, hresult, hafter.symm, rfl⟩

theorem collectLevel_of_pass {ready : Pool ρ} {stats : Stats} (level : LevelBuilder)
    (hsetup : pool.setup s.job.options s.job.areas s.job.visitor s.job.alignment {} =
      (.ok (), ready)) (hok : (ready.runPass read).1.result = .ok stats) :
    s.collectLevel pool read level =
      (.ok (level.flush ((ready.runPass read).1.logs.flatMap (s.matcher level).collect)),
        (ready.runPass read).2) := by
  simp only [job] at hsetup
  simp [collectLevel, hsetup, hok, Except.map]

/-! ### What is collected -/

variable {pass : Pass} {sessions : List ρ} {shares : List (List RegionId)}

/-- A place is visited, with a whole pointer to see, exactly if it stores one. -/
theorem stores_iff (hpass : pass.Covers read sessions s.job s.map shares) (hm : s.map.Built)
    (halign : 0 < s.params.alignment)
    (hfit : 2 * s.options.width.size ≤ s.options.bufferSize)
    (htold : ∀ session ∈ sessions, s.areas.Told s.map (read session) image) (c : Candidate) :
    s.Stores image c ↔ ∃ v ∈ visitsOf pass.logs.flatten,
      s.options.width.size ≤ v.bytes.length ∧ c.region = v.region ∧ c.own = v.address ∧
      c.pointer = s.options.width.decode (v.bytes.take s.options.width.size) := by
  have haddress := hpass.exists_address_iff halign s.stepsByAlignment_job
  have hpos := s.options.width.size_pos
  constructor
  · intro hstores
    obtain ⟨r, hr, hstart, hstop⟩ := hstores.inside
    have hinside : r.range.contains c.own := by
      rw [AddressRange.contains_iff]
      exact ⟨hstart, by omega⟩
    obtain ⟨v, hv, hown⟩ := (haddress c.own).2
      ⟨hstores.aligned, c.region, hstores.selected, r, hr, hinside⟩
    obtain ⟨r', hr', -, hinside', hbytes, hlength, -⟩ := hpass.shown_of_mem hm hfit htold hv
    rw [hown] at hinside' hbytes hlength
    -- the visit is to the candidate's own region, since regions do not overlap
    have hregion : c.region = v.region := hm.id_eq_of_contains hr hr' hinside hinside'
    rw [← hregion, hr, Option.some.injEq] at hr'
    subst hr'
    have hwhole : s.options.width.size ≤ v.bytes.length := by
      have hlength : min s.options.width.size _ ≤ _ := hlength
      omega
    refine ⟨v, hv, hwhole, hregion, hown.symm, ?_⟩
    rw [hbytes, Image.take_read _ _ hwhole]
    exact hstores.pointer_eq
  · intro h
    obtain ⟨v, hv, hwhole, hregion, hown, hpointer⟩ := h
    obtain ⟨hdvd, -⟩ := (haddress v.address).1 ⟨v, hv, rfl⟩
    obtain ⟨r, hr, hselected, hinside, hbytes, -, hstop⟩ := hpass.shown_of_mem hm hfit htold hv
    rw [AddressRange.contains_iff] at hinside
    rw [hbytes, Image.take_read _ _ hwhole] at hpointer
    rw [← hregion] at hr hselected
    rw [← hown] at hinside hdvd hstop hpointer
    exact ⟨hselected, ⟨r, hr, hinside.1, by omega⟩, hdvd, hpointer⟩

theorem links_iff (hlists : level.Lists t) : s.Links image t level.depth c x ↔
    s.Stores image c ∧ (s.matcher level).Reaches c.pointer (x, c.parent) := by
  constructor
  · intro h
    refine ⟨h.toStores, ?_⟩
    exact ⟨(hlists.mem_iff (x, c.parent)).2 ⟨h.depth_eq, h.parent⟩, h.le, h.near, h.preset⟩
  · intro h
    obtain ⟨hstores, hmem, hle, hnear, hpreset⟩ := h
    obtain ⟨hdepth, hparent⟩ := (hlists.mem_iff (x, c.parent)).1 hmem
    exact ⟨hstores, hdepth, hparent, hle, hnear, hpreset⟩

/-- A candidate counts if its place stores its pointer and its parent is among the pointer's. -/
theorem admits_iff (hlists : level.Lists t) : s.Admits image t level.depth c ↔
    s.Stores image c ∧ ∃ x, (x, c.parent) ∈ (s.matcher level).parents c.pointer := by
  have hparents : ∀ x, (x, c.parent) ∈ (s.matcher level).parents c.pointer ↔ _ :=
    fun x => Matcher.mem_parents_iff hlists.sorted
  constructor
  · intro h
    obtain ⟨x, hlinks, hleast⟩ := h
    obtain ⟨hstores, hreaches⟩ := (links_iff hlists).1 hlinks
    refine ⟨hstores, x, (hparents x).2 ⟨hreaches, ?_⟩⟩
    intro hsmart k hk
    exact hleast hsmart k.2 k.1 ((links_iff hlists).2 ⟨{ hstores with }, hk⟩)
  · intro h
    obtain ⟨hstores, x, hmem⟩ := h
    obtain ⟨hreaches, hleast⟩ := (hparents x).1 hmem
    refine ⟨x, (links_iff hlists).2 ⟨hstores, hreaches⟩, ?_⟩
    intro hsmart p y hy
    exact hleast hsmart (y, p) ((links_iff hlists).1 hy).2

/-- **The collected candidates are the ones that count.** -/
theorem mem_collected_iff (hpass : pass.Covers read sessions s.job s.map shares)
    (hm : s.map.Built) (halign : 0 < s.params.alignment)
    (hfit : 2 * s.options.width.size ≤ s.options.bufferSize)
    (htold : ∀ session ∈ sessions, s.areas.Told s.map (read session) image)
    (hlists : level.Lists t) :
    c ∈ pass.logs.flatMap (s.matcher level).collect ↔ s.Admits image t level.depth c := by
  rw [admits_iff hlists, stores_iff hpass hm halign hfit htold, Matcher.flatMap_collect,
    List.mem_flatMap]
  constructor
  · intro h
    obtain ⟨v, hv, hc⟩ := h
    obtain ⟨hwhole, hregion, hown, hpointer, hparents⟩ := Matcher.mem_candidates_iff.1 hc
    exact ⟨⟨v, hv, hwhole, hregion, hown, hpointer⟩, hparents⟩
  · intro h
    obtain ⟨⟨v, hv, hwhole, hregion, hown, hpointer⟩, hparents⟩ := h
    exact ⟨v, hv, Matcher.mem_candidates_iff.2 ⟨hwhole, hregion, hown, hpointer, hparents⟩⟩

/-- No two collected candidates have the same place and parent. -/
theorem pairwise_collected (hpass : pass.Covers read sessions s.job s.map shares)
    (hm : s.map.Built) (hlists : level.Lists t) :
    (pass.logs.flatMap (s.matcher level).collect).Pairwise
      fun c d => (c.own, c.parent) ≠ (d.own, d.parent) := by
  rw [Matcher.flatMap_collect]
  exact Matcher.pairwise_candidates hlists.nodup (hpass.nodup_addresses hm)

/-- A level to which just the collected candidates are added holds what counts there. -/
theorem isLevel_of_commit (hpass : pass.Covers read sessions s.job s.map shares)
    (hm : s.map.Built) (halign : 0 < s.params.alignment)
    (hfit : 2 * s.options.width.size ≤ s.options.bufferSize)
    (htold : ∀ session ∈ sessions, s.areas.Told s.map (read session) image)
    (hlists : level.Lists t) (hrow : t'.row level.depth =
      ((pass.logs.flatMap (s.matcher level).collect).mergeSort Candidate.le).map Candidate.node)
    (hbefore : ∀ d, d + 1 = level.depth → t.row d = t'.row d) :
    s.IsLevel image t' level.depth := by
  refine ⟨_, hrow, Candidate.pairwise_precedes (pairwise_collected hpass hm hlists), ?_⟩
  intro c
  rw [List.mem_mergeSort, mem_collected_iff hpass hm halign hfit htold hlists,
    admits_congr hbefore]

end Search

end PointerChains
