import Mathlib
import PointerChains.Proofs.Scan.Matches

/-!
# One candidate for each parent

A value is compared with the nodes of the level before from the first at or above it on.  A node at
another than the required distance is skipped, and with a smart scan the first node that is farther
than one that was taken ends the search.  This is right only since the nodes are in the order of
their addresses, so that no later one can be nearer.

* `Matcher.pick` — the search node by node;
* `Matcher.pick_candidatesFor` — it finds the parents;
* `Matcher.Leads` — which nodes a value leads to, by distances as numbers;
* `Matcher.candidates_perm` — **an address where a whole pointer is stored becomes one candidate for
  each node that the pointer leads to, and any other address none.**
-/

namespace PointerChains

namespace Matcher

variable {m : Matcher} {value : Address} {n : Address × NodeRef}
  {nodes rest : List (Address × NodeRef)}

/-! ### Node by node -/

/-- The nodes are at the required distance, if one is. -/
def meetsPreset (m : Matcher) (value : Address) (n : Address × NodeRef) : Bool :=
  m.preset.all (distance value n == ·)

/-- Takes the nodes one after the other, given the distance of the node that was taken last. -/
def pick (m : Matcher) (value : Address) :
    Option UInt64 → List (Address × NodeRef) → List (Address × NodeRef)
  | _, [] => []
  | last, n :: rest =>
    if !m.meetsPreset value n then m.pick value last rest
    else if m.smartScan then
      if last.any (· < distance value n) then []
      else n :: m.pick value (some (distance value n)) rest
    else n :: m.pick value last rest

theorem atPreset_eq (m : Matcher) (value : Address) (nodes : List (Address × NodeRef)) :
    m.atPreset value nodes = nodes.filter (m.meetsPreset value) := by
  unfold atPreset meetsPreset
  cases m.preset with
  | none => simp
  | some preset => simp

/-- Without a smart scan nothing but the required distance matters. -/
theorem pick_of_not_smartScan (hsmart : ¬m.smartScan) (last : Option UInt64)
    (nodes : List (Address × NodeRef)) : m.pick value last nodes = m.atPreset value nodes := by
  rw [atPreset_eq]
  induction nodes with
  | nil => rfl
  | cons n rest ih =>
    rw [pick, if_neg hsmart, ih]
    cases hmeets : m.meetsPreset value n with
    | false => simp [hmeets]
    | true => simp [hmeets]

/-- Behind a node that was taken those as near follow, and then nothing does. -/
theorem pick_some (hsmart : m.smartScan) {last : UInt64}
    (hlast : ∀ n ∈ nodes, last ≤ distance value n) :
    m.pick value (some last) nodes =
      (m.atPreset value nodes).takeWhile fun k => distance value k ≤ last := by
  rw [atPreset_eq]
  induction nodes with
  | nil => rfl
  | cons n rest ih =>
    obtain ⟨hn, hrest⟩ := List.forall_mem_cons.1 hlast
    rw [pick, if_pos hsmart]
    cases hmeets : m.meetsPreset value n with
    | false => simpa [hmeets] using ih hrest
    | true =>
      by_cases hfar : last < distance value n
      · have hstop : ¬distance value n ≤ last := UInt64.not_le.2 hfar
        simp [hmeets, hfar, hstop]
      · have hequal : distance value n = last := UInt64.le_antisymm (UInt64.not_lt.1 hfar) hn
        simpa [hmeets, hequal] using ih hrest

/-- In the order of their distances the nodes that are picked are the nearest. -/
theorem pick_none (hsorted : nodes.Pairwise fun n k => distance value n ≤ distance value k) :
    m.pick value none nodes = if m.smartScan then nearest value (m.atPreset value nodes)
      else m.atPreset value nodes := by
  by_cases hsmart : m.smartScan
  swap
  · rw [if_neg hsmart, pick_of_not_smartScan hsmart]
  rw [if_pos hsmart]
  induction nodes with
  | nil => rw [atPreset_eq]; rfl
  | cons n rest ih =>
    obtain ⟨hn, hrest⟩ := List.pairwise_cons.1 hsorted
    have htail := ih hrest
    have hrest := pick_some hsmart hn
    rw [atPreset_eq] at htail hrest ⊢
    rw [pick, if_pos hsmart]
    cases hmeets : m.meetsPreset value n with
    | false => simpa [hmeets] using htail
    | true => simpa [hmeets, nearest] using hrest

/-- The search node by node finds the parents. -/
theorem pick_candidatesFor
    (hsorted : m.level.previous.toList.Pairwise fun m n => NodeRef.leAt m n) (value : Address) :
    m.pick value none (m.level.candidatesFor value m.maxObjSize).toList = m.parents value := by
  rw [parents]
  refine pick_none ?_
  have hsublist := m.level.sublist_candidatesFor value m.maxObjSize
  refine (hsorted.sublist hsublist).imp_of_mem ?_
  intro n k hn hk hle
  obtain ⟨-, hn, -⟩ := (LevelBuilder.mem_candidatesFor hsorted n).1 hn
  obtain ⟨-, hk, -⟩ := (LevelBuilder.mem_candidatesFor hsorted k).1 hk
  have hle := NodeRef.fst_le_of_leAt hle
  rw [UInt64.le_iff_toNat_le, toNat_distance hn, toNat_distance hk]
  omega

/-! ### The nodes that a value leads to -/

/-- The node lies at the value or above it, near enough, and at the required distance. -/
def InReach (m : Matcher) (value : Address) (n : Address × NodeRef) : Prop :=
  value.toNat ≤ n.1.toNat ∧ n.1.toNat - value.toNat ≤ m.maxObjSize.toNat ∧
    ∀ offset ∈ m.preset, n.1.toNat - value.toNat = offset.toNat

-- the required distance is looked up, since words are too many to try one after the other
instance : DecidablePred (m.InReach value) := fun n =>
  decidable_of_iff (value.toNat ≤ n.1.toNat ∧ n.1.toNat - value.toNat ≤ m.maxObjSize.toNat ∧
    m.preset.all fun offset => n.1.toNat - value.toNat == offset.toNat) <| by
      simp only [InReach, Option.all_eq_true, Option.mem_def, beq_iff_eq]

/-- The node is in reach, and with a smart scan no node of its level in reach is nearer. -/
def Leads (m : Matcher) (value : Address) (level : List (Address × NodeRef))
    (n : Address × NodeRef) : Prop :=
  m.InReach value n ∧ (m.smartScan = true →
    ∀ k ∈ level, m.InReach value k → n.1.toNat - value.toNat ≤ k.1.toNat - value.toNat)

instance : DecidablePred (m.Leads value nodes) := fun n =>
  inferInstanceAs (Decidable (m.InReach value n ∧ (m.smartScan = true →
    ∀ k ∈ nodes, m.InReach value k → n.1.toNat - value.toNat ≤ k.1.toNat - value.toNat)))

theorem reaches_iff : m.Reaches value n ↔ n ∈ m.level.previous.toList ∧ m.InReach value n := by
  constructor
  · intro h
    exact ⟨h.mem, h.le, h.near, h.preset⟩
  · intro h
    obtain ⟨hmem, hle, hnear, hpreset⟩ := h
    exact ⟨hmem, hle, hnear, hpreset⟩

/-- The parents are the nodes that the value leads to, each once. -/
theorem parents_perm (hsorted : m.level.previous.toList.Pairwise fun m n => NodeRef.leAt m n)
    (hnodup : (m.level.previous.toList.map Prod.snd).Nodup)
    (hnodes : m.level.previous.toList.Perm nodes) (value : Address) :
    (m.parents value).Perm (nodes.filter fun n => m.Leads value nodes n) := by
  have hprevious : m.level.previous.toList.Nodup := .of_map Prod.snd hnodup
  have hparents := (m.sublist_parents value).nodup hprevious
  have hfilter := (hnodes.nodup_iff.1 hprevious).filter fun n => m.Leads value nodes n
  refine (List.perm_ext_iff_of_nodup hparents hfilter).2 fun n => ?_
  rw [mem_parents_iff hsorted, List.mem_filter, decide_eq_true_eq, reaches_iff, hnodes.mem_iff,
    and_assoc, Leads]
  simp only [reaches_iff, hnodes.mem_iff, and_imp]

end Matcher

/-- The candidate for a node at a visited address where a pointer to it is stored. -/
def Visit.candidate (v : Visit) (pointer : Address) (n : Address × NodeRef) : Candidate :=
  { parent := n.2, region := v.region, own := v.address, pointer }

namespace Matcher

variable {m : Matcher}

/-! ### Candidates of a visit -/

theorem candidates_of_short {v : Visit} (h : v.bytes.length < m.width.size) :
    m.candidates v = [] := by
  rw [candidates, if_pos]
  rw [List.length_take]
  omega

theorem candidates_of_whole {v : Visit} (h : m.width.size ≤ v.bytes.length) :
    m.candidates v =
      (m.parents (m.width.decode v.bytes)).map (v.candidate (m.width.decode v.bytes)) := by
  have hdecode : m.width.decode (v.bytes.take m.width.size) = m.width.decode v.bytes := by
    rw [PointerWidth.decode, PointerWidth.decode, List.take_take, Nat.min_self]
  rw [candidates, if_neg, hdecode]
  · rfl
  · rw [List.length_take]
    omega

/-- **An address where a whole pointer is stored becomes one candidate for each node that the
pointer leads to, and any other address none.**  They are the nodes that are picked node by node. -/
theorem candidates_perm {t : Tree} {depth : Nat} {b : LevelBuilder}
    (hb : t.levelBuilder depth = .ok b) (hprevious : m.level.previous = b.previous)
    (v : Visit) :
    (m.level.flush (m.candidates v)).pending = m.level.pending ++ m.candidates v ∧
    (m.width.size ≤ v.bytes.length →
      m.candidates v = (m.pick (m.width.decode v.bytes) none
        (m.level.candidatesFor (m.width.decode v.bytes) m.maxObjSize).toList).map
          (v.candidate (m.width.decode v.bytes)) ∧
      (m.candidates v).Perm (((t.addressed (depth - 1)).filter fun n =>
        m.Leads (m.width.decode v.bytes) (t.addressed (depth - 1)) n).map
          (v.candidate (m.width.decode v.bytes)))) ∧
    (v.bytes.length < m.width.size → m.candidates v = []) := by
  obtain ⟨-, -, hlists⟩ := Tree.lists_of_levelBuilder hb
  have hsorted := hlists.sorted
  have hnodup := hlists.nodup
  have hperm := Tree.previous_perm hb
  rw [← hprevious] at hsorted hnodup hperm
  refine ⟨rfl, ?_, candidates_of_short⟩
  intro hwhole
  rw [candidates_of_whole hwhole]
  refine ⟨?_, ?_⟩
  · rw [pick_candidatesFor hsorted]
  · exact (parents_perm hsorted hnodup hperm _).map _

end Matcher

/-- A tree with two nodes at one address, and a third shortly above them. -/
def Tree.twoAtOneAddress : Tree where
  levels := #[#[⟨0, ⟨0⟩, .ofNat 0x9000, .null, none, #[⟨1, 0⟩, ⟨1, 1⟩, ⟨1, 2⟩]⟩],
    #[⟨1, ⟨0⟩, .ofNat 0x1008, .ofNat 0x9000, some ⟨0, 0⟩, #[]⟩,
      ⟨2, ⟨0⟩, .ofNat 0x1000, .ofNat 0x8ff0, some ⟨0, 0⟩, #[]⟩,
      ⟨3, ⟨0⟩, .ofNat 0x1000, .ofNat 0x8ff8, some ⟨0, 0⟩, #[]⟩], #[]]
  nextId := 4

/-- What counts as a match below that level, if only the nearest nodes count. -/
def Matcher.nearestOfThree : Matcher where
  level :=
    { depth := 2
      previous := #[(.ofNat 0x1000, ⟨1, 1⟩), (.ofNat 0x1000, ⟨1, 2⟩), (.ofNat 0x1008, ⟨1, 0⟩)] }
  width := .eight
  maxObjSize := 0x20
  preset := none
  smartScan := true

/-- An address where a pointer to shortly before the three is stored. -/
def Visit.shortlyBefore : Visit where
  address := .ofNat 0x5000
  region := ⟨7⟩
  offset := 0
  remaining := 8
  bytes := [0xF8, 0x0F, 0, 0, 0, 0, 0, 0]

theorem Matcher.candidates_perm_nearestOfThree :
    Tree.twoAtOneAddress.levelBuilder 2 = .ok Matcher.nearestOfThree.level ∧
    (Matcher.nearestOfThree.candidates .shortlyBefore).Perm
      [⟨⟨1, 1⟩, ⟨7⟩, .ofNat 0x5000, .ofNat 0xFF8⟩, ⟨⟨1, 2⟩, ⟨7⟩, .ofNat 0x5000, .ofNat 0xFF8⟩] := by
  have hlevel : Tree.twoAtOneAddress.levelBuilder 2 = .ok Matcher.nearestOfThree.level := by cbv
  obtain ⟨-, hwhole, -⟩ :=
    Matcher.candidates_perm (m := .nearestOfThree) hlevel rfl .shortlyBefore
  obtain ⟨-, hperm⟩ := hwhole (by decide)
  refine ⟨hlevel, hperm.trans (.of_eq ?_)⟩
  decide +kernel

end PointerChains
