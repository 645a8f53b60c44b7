import Mathlib.Data.List.Chain
import Mathlib.Data.List.Nodup
import Mathlib.Data.List.TakeWhile
import PointerChains.Memory.Snapshot
import PointerChains.Proofs.Address.Sought

/-!
# Chunks in order

Chunks are captured in any order and kept in the order of their starts.  Where they do not reach
into one another, the last chunk that starts at or below an address is the only one that can hold
it, and so the chunk that a look-up finds is the one that holds the address.

* `Chunk.stop`, `Chunk.Holds` — where a chunk ends, and the addresses that it has bytes for;
* `Snapshot.insertChunk_eq_put`, `Snapshot.chunkBefore?_eq` — both can be left to a search;
* `Snapshot.ofCaptures`, `Snapshot.Stands` — captures one after the other, and what stands of them;
* `Snapshot.mem_ofCaptures_iff` — **the chunks are the captures that stand**;
* `Snapshot.Ordered.find?_eq_some_iff` — **the chunk that is found holds the address**.
-/

namespace PointerChains

namespace Chunk

variable {c : Chunk} {a : Address}

/-- The number of the first address behind the chunk. -/
def stop (c : Chunk) : Nat := c.start.toNat + c.bytes.size

/-- The chunk has a byte for the address. -/
def Holds (c : Chunk) (a : Address) : Prop := c.start.toNat ≤ a.toNat ∧ a.toNat < c.stop

instance (c : Chunk) (a : Address) : Decidable (c.Holds a) := inferInstanceAs (Decidable (_ ∧ _))

theorem room_eq (h : c.start.toNat ≤ a.toNat) : c.room a = c.stop - a.toNat := by
  unfold room offset stop
  omega

theorem room_pos_iff (h : c.start.toNat ≤ a.toNat) : 0 < c.room a ↔ c.Holds a := by
  rw [room_eq h, Holds]
  omega

theorem Holds.room_eq (h : c.Holds a) : c.room a = c.stop - a.toNat := Chunk.room_eq h.1

end Chunk

namespace Snapshot

variable {s : Snapshot} {c d : Chunk} {chunks captures : List Chunk} {a : Address} {w : Sought}

/-! ### Putting chunks into their places -/

/-- The chunks come in the order of their starts, and no two have the same start. -/
def Rising (chunks : List Chunk) : Prop := chunks.Pairwise fun c d => c.start < d.start

theorem Rising.pairwise_starts (h : Rising chunks) : (chunks.map Chunk.start).Pairwise (· < ·) :=
  List.pairwise_map.2 h

/-- A chunk takes the place of the one with its start, and leaves all others. -/
theorem mem_insertChunk_iff (h : Rising chunks) :
    d ∈ insertChunk c chunks ↔ d = c ∨ d ∈ chunks ∧ d.start ≠ c.start := by
  fun_induction insertChunk c chunks with
  | case1 => simp
  | case2 e rest hlt =>
    obtain ⟨hrest, -⟩ := List.pairwise_cons.1 h
    -- all chunks start behind the new one
    have hne : d ∈ e :: rest → d.start ≠ c.start := by
      intro hd heq
      have hnumbers := congrArg Address.toNat heq
      rw [Address.lt_iff_toNat_lt] at hlt
      rcases List.mem_cons.1 hd with rfl | hd
      · omega
      · have := Address.lt_iff_toNat_lt.1 (hrest d hd)
        omega
    rw [List.mem_cons, and_iff_left_of_imp hne]
  | case3 e rest hge heq =>
    obtain ⟨hrest, -⟩ := List.pairwise_cons.1 h
    have hne : d ∈ rest → d.start ≠ c.start :=
      fun hd hsame => Address.ne_of_lt (hrest d hd) (heq.symm.trans hsame.symm)
    rw [List.mem_cons, List.mem_cons]
    constructor
    · rintro (rfl | hd)
      · exact .inl rfl
      · exact .inr ⟨.inr hd, hne hd⟩
    · rintro (rfl | ⟨rfl | hd, hd'⟩)
      · exact .inl rfl
      · exact absurd heq.symm hd'
      · exact .inr hd
  | case4 e rest hge hne ih =>
    obtain ⟨-, hrest⟩ := List.pairwise_cons.1 h
    rw [List.mem_cons, List.mem_cons, ih hrest]
    constructor
    · rintro (rfl | rfl | ⟨hd, hd'⟩)
      · exact .inr ⟨.inl rfl, fun heq => hne heq.symm⟩
      · exact .inl rfl
      · exact .inr ⟨.inr hd, hd'⟩
    · rintro (rfl | ⟨rfl | hd, hd'⟩)
      · exact .inr (.inl rfl)
      · exact .inl rfl
      · exact .inr (.inr ⟨hd, hd'⟩)

theorem Rising.insertChunk (h : Rising chunks) (c : Chunk) : Rising (insertChunk c chunks) := by
  fun_induction Snapshot.insertChunk c chunks with
  | case1 => exact List.pairwise_singleton ..
  | case2 e rest hlt =>
    refine List.pairwise_cons.2 ⟨?_, h⟩
    intro d hd
    rcases List.mem_cons.1 hd with rfl | hd
    · exact hlt
    · have := Address.lt_iff_toNat_lt.1 ((List.pairwise_cons.1 h).1 d hd)
      rw [Address.lt_iff_toNat_lt] at hlt ⊢
      omega
  | case3 e rest hge heq =>
    obtain ⟨hrest, hrising⟩ := List.pairwise_cons.1 h
    exact List.pairwise_cons.2 ⟨fun d hd => heq ▸ hrest d hd, hrising⟩
  | case4 e rest hge hne ih =>
    obtain ⟨hrest, hrising⟩ := List.pairwise_cons.1 h
    refine List.pairwise_cons.2 ⟨?_, ih hrising⟩
    intro d hd
    rcases (mem_insertChunk_iff hrising).1 hd with rfl | ⟨hd, -⟩
    · have hne' := mt Address.toNat_injective hne
      rw [Address.lt_iff_toNat_lt] at hge ⊢
      omega
    · exact hrest d hd

theorem Rising.eq_of_start_eq (h : Rising chunks) (hc : c ∈ chunks) (hd : d ∈ chunks)
    (heq : c.start = d.start) : c = d := by
  have hnodup : (chunks.map Chunk.start).Nodup := h.pairwise_starts.imp Address.ne_of_lt
  exact List.inj_on_of_nodup_map hnodup hc hd heq

/-! ### Searches -/

/-- A search for the start of a chunk finds its place. -/
theorem insertChunk_eq_put (h : Rising chunks) (hw : w.IsFor (chunks.map Chunk.start) c.start) :
    insertChunk c chunks = w.put c chunks := by
  fun_induction insertChunk c chunks generalizing w with
  | case1 =>
    cases w with
    | found n => cases hw
    | missing n =>
      cases Nat.le_zero.1 hw.1
      rfl
  | case2 e rest hlt =>
    have hfirst := hw.le_iff_lt_upTo h.pairwise_starts (i := 0) (Nat.zero_lt_succ _)
    have hzero : w.upTo = 0 := by
      rw [List.getElem_map, List.getElem_cons_zero, Address.le_iff_toNat_le] at hfirst
      rw [Address.lt_iff_toNat_lt] at hlt
      omega
    rw [Sought.eq_missing_of_upTo hzero]
    rfl
  | case3 e rest hge heq =>
    have hfound : w = .found 0 := hw.eq_found h.pairwise_starts (congrArg some heq.symm)
    rw [hfound]
    rfl
  | case4 e rest hge hne ih =>
    obtain ⟨-, hrest⟩ := List.pairwise_cons.1 h
    cases w with
    | found n =>
      cases n with
      | zero => exact absurd (Option.some.inj hw).symm hne
      | succ n =>
        have hfound : (Sought.found n).IsFor (rest.map Chunk.start) c.start := hw
        exact congrArg (e :: ·) (ih hrest hfound)
    | missing n =>
      cases n with
      | zero =>
        have := hw.2.2 e.start (by simp)
        exact absurd this hge
      | succ n =>
        rw [ih hrest (Sought.isFor_missing_cons_iff.1 hw).2]
        exact (List.insertIdx_succ_cons ..).symm

/-- A search for an address leads to the last chunk that starts at or below it. -/
theorem chunkBefore?_eq (h : Rising s.chunks) (hw : w.IsFor (s.chunks.map Chunk.start) a) :
    s.chunkBefore? a = w.last?.bind fun n => s.chunks[n]? := by
  have hle := hw.upTo_le
  rw [List.length_map] at hle
  rw [chunkBefore?, hw.takeWhile_eq h.pairwise_starts]
  cases hlast : w.last? with
  | none =>
    rw [Sought.last?_eq_none_iff.1 hlast]
    rfl
  | some n =>
    rw [Sought.last?_eq_some_iff] at hlast
    rw [hlast] at hle ⊢
    rw [List.getLast?_take, if_neg (Nat.succ_ne_zero n), Nat.add_sub_cancel,
      List.getElem?_eq_getElem hle, Option.some_or, Option.bind_some, List.getElem?_eq_getElem hle]

/-! ### Captures -/

/-- The memory of captures that were made one after the other. -/
def ofCaptures (captures : List Chunk) : Snapshot :=
  captures.foldl (fun s c => s.insert c.start c.bytes) .empty

/-- The capture is the last one with its start. -/
def Stands (captures : List Chunk) (c : Chunk) : Prop :=
  ∃ before after, captures = before ++ c :: after ∧ ∀ d ∈ after, d.start ≠ c.start

theorem ofCaptures_concat (captures : List Chunk) (c : Chunk) :
    (ofCaptures (captures ++ [c])).chunks = insertChunk c (ofCaptures captures).chunks := by
  rw [ofCaptures, List.foldl_append]
  rfl

theorem rising_ofCaptures (captures : List Chunk) : Rising (ofCaptures captures).chunks := by
  induction captures using List.reverseRecOn with
  | nil => exact List.Pairwise.nil
  | append_singleton captures c ih =>
    rw [ofCaptures_concat]
    exact ih.insertChunk c

theorem stands_concat_iff :
    Stands (captures ++ [d]) c ↔ c = d ∨ Stands captures c ∧ c.start ≠ d.start := by
  constructor
  · rintro ⟨before, after, heq, hlast⟩
    rcases List.eq_nil_or_concat after with rfl | ⟨after, e, rfl⟩
    · have hsame := List.append_inj_right' heq rfl
      exact .inl (List.cons.inj hsame).1.symm
    · rw [List.concat_eq_append, ← List.cons_append, ← List.append_assoc] at heq
      obtain ⟨rfl, hsame⟩ := List.append_inj' heq rfl
      cases hsame
      refine .inr ⟨⟨before, after, rfl, ?_⟩, (hlast d (by simp)).symm⟩
      intro e he
      exact hlast e (by simp [he])
  · rintro (rfl | ⟨⟨before, after, rfl, hlast⟩, hne⟩)
    · exact ⟨captures, [], rfl, by simp⟩
    · refine ⟨before, after ++ [d], by simp, ?_⟩
      intro e he
      rcases List.mem_append.1 he with he | he
      · exact hlast e he
      · rw [List.mem_singleton.1 he]
        exact hne.symm

/-- **The chunks are the captures that stand.** -/
theorem mem_ofCaptures_iff : c ∈ (ofCaptures captures).chunks ↔ Stands captures c := by
  induction captures using List.reverseRecOn with
  | nil =>
    refine iff_of_false (by simp [ofCaptures, empty]) ?_
    rintro ⟨before, after, heq, -⟩
    simp at heq
  | append_singleton captures d ih =>
    rw [ofCaptures_concat, mem_insertChunk_iff (rising_ofCaptures captures), ih, stands_concat_iff]

/-! ### Chunks apart -/

/-- Every chunk ends at or before the start of the next one. -/
def Apart (s : Snapshot) : Prop := s.chunks.IsChain fun c d => c.stop ≤ d.start.toNat

instance (s : Snapshot) : Decidable s.Apart := inferInstanceAs (Decidable (s.chunks.IsChain _))

/-- The chunks come in the order of their starts, and each ends at or before the starts of those
behind it. -/
structure Ordered (s : Snapshot) : Prop where
  rising : Rising s.chunks
  stop_le : ∀ c ∈ s.chunks, ∀ d ∈ s.chunks, c.start < d.start → c.stop ≤ d.start.toNat

theorem Apart.ordered (h : s.Apart) (hrising : Rising s.chunks) : s.Ordered := by
  refine ⟨hrising, ?_⟩
  have htrans : Trans (fun c d : Chunk => c.stop ≤ d.start.toNat)
      (fun c d : Chunk => c.stop ≤ d.start.toNat) (fun c d : Chunk => c.stop ≤ d.start.toNat) := by
    refine ⟨?_⟩
    intro c d e hcd hde
    have : d.start.toNat ≤ d.stop := Nat.le_add_right ..
    omega
  have hstops := List.pairwise_iff_getElem.1 (List.isChain_iff_pairwise.1 h)
  have hpairwise := List.pairwise_iff_getElem.1 hrising
  intro c hc d hd hlt
  obtain ⟨i, hi, rfl⟩ := List.getElem_of_mem hc
  obtain ⟨j, hj, rfl⟩ := List.getElem_of_mem hd
  rcases Nat.lt_trichotomy i j with hij | rfl | hij
  · exact hstops i j hi hj hij
  · exact absurd rfl (Address.ne_of_lt hlt)
  · have := Address.lt_iff_toNat_lt.1 (hpairwise j i hj hi hij)
    rw [Address.lt_iff_toNat_lt] at hlt
    omega

/-- **The chunk that is found is the one that holds the address.** -/
theorem Ordered.find?_eq_some_iff (h : s.Ordered) :
    s.find? a = some c ↔ c ∈ s.chunks ∧ c.Holds a := by
  rw [find?, Option.filter_eq_some_iff, decide_eq_true_eq, chunkBefore?]
  constructor
  · rintro ⟨hlast, hroom⟩
    have hmem := List.mem_of_getLast? hlast
    have hstart : c.start ≤ a := by simpa using List.mem_takeWhile_imp hmem
    rw [Address.le_iff_toNat_le] at hstart
    exact ⟨(List.takeWhile_sublist _).subset hmem, (Chunk.room_pos_iff hstart).1 hroom⟩
  · rintro ⟨hmem, hholds⟩
    refine ⟨?_, (Chunk.room_pos_iff hholds.1).2 hholds⟩
    obtain ⟨before, after, heq⟩ := List.append_of_mem hmem
    have hrising := h.rising
    rw [Rising, heq, List.pairwise_append, List.pairwise_cons] at hrising
    obtain ⟨-, ⟨habove, -⟩, hbelow⟩ := hrising
    -- the chunks in front start at or below the address, and those behind start too late
    have hfront : ∀ d ∈ before ++ [c], decide (d.start ≤ a) = true := by
      intro d hd
      rw [decide_eq_true_eq, Address.le_iff_toNat_le]
      rcases List.mem_append.1 hd with hd | hd
      · have := Address.lt_iff_toNat_lt.1 (hbelow d hd c (List.mem_cons_self ..))
        have := hholds.1
        omega
      · rw [List.mem_singleton.1 hd]
        exact hholds.1
    have hback : after.takeWhile (fun d => d.start ≤ a) = [] := by
      cases after with
      | nil => rfl
      | cons d after =>
        refine List.takeWhile_cons_of_neg ?_
        have hd : d ∈ s.chunks := by rw [heq]; simp
        have := h.stop_le c hmem d hd (habove d (List.mem_cons_self ..))
        have := hholds.2
        rw [decide_eq_true_eq, Address.le_iff_toNat_le]
        omega
    rw [heq, List.append_cons, List.takeWhile_append_of_pos hfront, hback, List.append_nil,
      List.getLast?_concat]

theorem Ordered.find?_eq_none_iff (h : s.Ordered) :
    s.find? a = none ↔ ∀ c ∈ s.chunks, ¬c.Holds a := by
  simp only [Option.eq_none_iff_forall_ne_some, ne_eq, h.find?_eq_some_iff, not_and]

end Snapshot

end PointerChains
