import PointerChains.Proofs.Memory.Chunks

/-!
# Captured memory

Captured memory answers reads like the memory that was captured: from the chunk that holds the
address, as far as the buffer and the chunk go.  Bytes that are written stand there for all later
reads; since chunks do not reach into one another, no read of another chunk can meet them.

* `Chunk.answer` — what a read gives out of a chunk, and `Chunk.getElem?_answer`, byte by byte;
* `Snapshot.overlaid` — the answer of a read once bytes were replaced;
* `Chunk.answer_overwrite`, `Chunk.answer_apart` — in the chunk written to, and in the others;
* `Snapshot.Ordered.fill_insert` — what all reads give after a write;
* `Snapshot.faithful_of_apart` — **captured memory is faithful to its captures**, under reads and
  writes.
-/

namespace PointerChains

open Snapshot (Stands ofCaptures)

variable {s t : Snapshot} {c d : Chunk} {captures : List Chunk} {a x : Address}
  {bytes buffer : List UInt8}

/-! ### Reads -/

/-- What a read gives out of a chunk that holds the address: the number of bytes that the buffer
takes and the chunk has, and the buffer with these bytes in front of what it held behind them. -/
def Chunk.answer (c : Chunk) (a : Address) (buffer : List UInt8) : Nat × List UInt8 :=
  let n := min buffer.length (c.stop - a.toNat)
  (n, (c.bytes.toList.drop (a.toNat - c.start.toNat)).take n ++ buffer.drop n)

theorem Chunk.getElem?_answer (h : c.Holds a) (buffer : List UInt8) (i : Nat) :
    (c.answer a buffer).2[i]? = if i < (c.answer a buffer).1
      then c.bytes.toList[a.toNat + i - c.start.toNat]? else buffer[i]? := by
  obtain ⟨hstart, hstop⟩ := h
  have hlength : ((c.bytes.toList.drop (a.toNat - c.start.toNat)).take
      (c.answer a buffer).1).length = (c.answer a buffer).1 := by
    simp only [List.length_take, List.length_drop, Array.length_toList, answer]
    unfold stop
    omega
  show ((c.bytes.toList.drop (a.toNat - c.start.toNat)).take (c.answer a buffer).1 ++
    buffer.drop (c.answer a buffer).1)[i]? = _
  by_cases hi : i < (c.answer a buffer).1
  · rw [if_pos hi, List.getElem?_append_left (by rw [hlength]; exact hi),
      List.getElem?_take_of_lt hi, List.getElem?_drop]
    congr 1
    omega
  · rw [if_neg hi, List.getElem?_append_right (by rw [hlength]; omega), hlength,
      List.getElem?_drop]
    congr 1
    omega

namespace Snapshot

theorem fill_of_find? (hfind : s.find? a = some c) (h : c.Holds a) (buffer : List UInt8) :
    s.reader.fill a buffer = .ok (c.answer a buffer) := by
  have hread : s.reader a buffer.length = .ok (c.read a buffer.length) := by
    rw [reader, hfind]
  have hlength : (c.read a buffer.length).length = (c.answer a buffer).1 := by
    rw [Chunk.length_read, h.room_eq]
    rfl
  have htake : c.read a buffer.length =
      (c.bytes.toList.drop (a.toNat - c.start.toNat)).take (c.answer a buffer).1 := by
    rw [← hlength, Chunk.read_eq, List.length_take, List.take_eq_take_min]
    rfl
  rw [Reader.fill, hread]
  show Except.ok ((c.read a buffer.length).length,
    c.read a buffer.length ++ buffer.drop (c.read a buffer.length).length) = _
  rw [hlength, htake]
  rfl

theorem fill_of_find?_eq_none (hfind : s.find? a = none) (buffer : List UInt8) :
    s.reader.fill a buffer = .error (uncaptured a) := by
  have hread : s.reader a buffer.length = .error (uncaptured a) := by
    rw [reader, hfind]
  rw [Reader.fill, hread]
  rfl

end Snapshot

/-! ### Bytes in place of others -/

namespace Snapshot

/-- What stands at the address with the number `y` once `bytes` were written from `a` on, where `b`
stood before. -/
def patched (a : Address) (bytes : List UInt8) (y : Nat) (b : UInt8) : UInt8 :=
  if a.toNat ≤ y then (bytes[y - a.toNat]?).getD b else b

/-- The answer of a read at `x` with the bytes from `a` on replaced.  What the buffer holds behind
the bytes that were read is left as it is. -/
def overlaid (a : Address) (bytes : List UInt8) (x : Address) (answer : Nat × List UInt8) :
    Nat × List UInt8 :=
  (answer.1, answer.2.mapIdx fun i b =>
    if i < answer.1 then patched a bytes (x.toNat + i) b else b)

theorem patched_of_outside {y : Nat} (h : y < a.toNat ∨ a.toNat + bytes.length ≤ y) (b : UInt8) :
    patched a bytes y b = b := by
  rw [patched]
  split
  · rw [List.getElem?_eq_none (by omega), Option.getD_none]
  · rfl

theorem map_patched_of_outside {y : Nat} (h : y < a.toNat ∨ a.toNat + bytes.length ≤ y)
    (b? : Option UInt8) : b?.map (patched a bytes y) = b? := by
  cases b? with
  | none => rfl
  | some b => rw [Option.map_some, patched_of_outside h]

end Snapshot

namespace Chunk

open Snapshot (patched map_patched_of_outside overlaid)

/-- A chunk with bytes replaced gives the answers with these bytes replaced. -/
theorem answer_of_patched (hstart : d.start = c.start) (hsize : d.bytes.size = c.bytes.size)
    (hbytes : ∀ i, d.bytes.toList[i]? =
      (c.bytes.toList[i]?).map (patched a bytes (c.start.toNat + i)))
    (h : c.Holds x) (buffer : List UInt8) :
    d.answer x buffer = overlaid a bytes x (c.answer x buffer) := by
  have hstop : d.stop = c.stop := by rw [stop, stop, hstart, hsize]
  have hd : d.Holds x := by rwa [Holds, hstart, hstop]
  have hcount : (d.answer x buffer).1 = (c.answer x buffer).1 := by
    show min buffer.length (d.stop - x.toNat) = _
    rw [hstop]
    rfl
  refine Prod.ext hcount (List.ext_getElem? ?_)
  intro i
  show _ = ((c.answer x buffer).2.mapIdx _)[i]?
  rw [List.getElem?_mapIdx, getElem?_answer hd, getElem?_answer h, hcount]
  by_cases hi : i < (c.answer x buffer).1
  · have hplace : c.start.toNat + (x.toNat + i - c.start.toNat) = x.toNat + i := by
      have := h.1
      omega
    simp only [if_pos hi, hstart, hbytes, hplace]
  · simp only [if_neg hi, Option.map_id']

/-- The bytes of another chunk stay as they are. -/
theorem answer_apart (h : c.Holds x)
    (hapart : c.stop ≤ a.toNat ∨ a.toNat + bytes.length ≤ c.start.toNat) (buffer : List UInt8) :
    c.answer x buffer = overlaid a bytes x (c.answer x buffer) := by
  refine answer_of_patched rfl rfl ?_ h buffer
  intro i
  rcases Nat.lt_or_ge i c.bytes.size with hi | hi
  · unfold stop at hapart
    rw [map_patched_of_outside (by omega)]
  · rw [List.getElem?_eq_none (by rw [Array.length_toList]; exact hi), Option.map_none]

theorem toList_overwrite (h : bytes.length ≤ c.room a) :
    (c.overwrite a bytes).bytes.toList = c.bytes.toList.take (c.offset a) ++ bytes ++
      c.bytes.toList.drop (c.offset a + bytes.length) := by
  simp [overwrite, List.take_of_length_le h, List.extract_eq_take_drop, List.take_of_length_le]

theorem size_overwrite (h : c.Holds a) (hfits : bytes.length ≤ c.room a) :
    (c.overwrite a bytes).bytes.size = c.bytes.size := by
  have hlength := congrArg List.length (toList_overwrite hfits)
  simp only [List.length_append, List.length_take, List.length_drop, Array.length_toList] at hlength
  unfold room at hfits
  obtain ⟨hstart, hstop⟩ := h
  unfold stop at hstop
  unfold offset at hlength hfits
  omega

theorem getElem?_overwrite (h : c.Holds a) (hfits : bytes.length ≤ c.room a) (i : Nat) :
    (c.overwrite a bytes).bytes.toList[i]? =
      (c.bytes.toList[i]?).map (patched a bytes (c.start.toNat + i)) := by
  have hlength : (c.bytes.toList.take (c.offset a)).length = c.offset a := by
    rw [List.length_take, Array.length_toList]
    unfold room at hfits
    have := h.room_eq
    unfold room at this
    have := h.2
    omega
  rw [toList_overwrite hfits]
  have hplace : c.start.toNat + c.offset a = a.toNat := Nat.add_sub_cancel' h.1
  rcases Nat.lt_or_ge i (c.offset a) with hlt | hge
  · rw [map_patched_of_outside (.inl (by omega)), List.append_assoc,
      List.getElem?_append_left (by omega), List.getElem?_take_of_lt hlt]
  rcases Nat.lt_or_ge i (c.offset a + bytes.length) with hlt | hge'
  · -- the bytes that are written
    have hi : i < c.bytes.toList.length := by
      rw [Array.length_toList]
      unfold room at hfits
      omega
    rw [List.getElem?_append_left (by rw [List.length_append]; omega),
      List.getElem?_append_right (by omega), hlength, List.getElem?_eq_getElem hi, Option.map_some,
      patched, if_pos (by omega), show c.start.toNat + i - a.toNat = i - c.offset a by omega,
      List.getElem?_eq_getElem (by omega), Option.getD_some]
  · rw [map_patched_of_outside (.inr (by omega)),
      List.getElem?_append_right (by rw [List.length_append]; omega), List.length_append, hlength,
      List.getElem?_drop, Nat.add_sub_cancel' hge']

/-- What is written to a chunk is what stands in it. -/
theorem answer_overwrite (ha : c.Holds a) (hfits : bytes.length ≤ c.room a) (h : c.Holds x)
    (buffer : List UInt8) :
    (c.overwrite a bytes).answer x buffer = overlaid a bytes x (c.answer x buffer) :=
  have hstart : (c.overwrite a bytes).start = c.start := rfl
  answer_of_patched hstart (size_overwrite ha hfits) (getElem?_overwrite ha hfits) h buffer

end Chunk

/-! ### Writes -/

namespace Snapshot

theorem Ordered.apart (h : s.Ordered) : s.Apart :=
  (h.rising.imp_of_mem fun hc hd hlt => h.stop_le _ hc _ hd hlt).isChain

/-- A chunk of the same extent in place of another leaves the chunks apart. -/
theorem Ordered.insert (h : s.Ordered) (hc : c ∈ s.chunks) (hstart : d.start = c.start)
    (hsize : d.bytes.size = c.bytes.size) : (s.insert d.start d.bytes).Ordered := by
  refine ⟨h.rising.insertChunk d, ?_⟩
  have hstop : d.stop = c.stop := by rw [Chunk.stop, Chunk.stop, hstart, hsize]
  intro e he f hf hlt
  rcases (mem_insertChunk_iff h.rising).1 he with rfl | ⟨he, -⟩ <;>
    rcases (mem_insertChunk_iff h.rising).1 hf with rfl | ⟨hf, -⟩
  · exact absurd rfl (Address.ne_of_lt hlt)
  · rw [hstart] at hlt
    rw [hstop]
    exact h.stop_le c hc f hf hlt
  · rw [hstart] at hlt ⊢
    exact h.stop_le e he c hc hlt
  · exact h.stop_le e he f hf hlt

/-- **After a write all reads give what they gave before, with the bytes written in place.** -/
theorem Ordered.fill_insert (h : s.Ordered) (hc : c ∈ s.chunks) (ha : c.Holds a)
    (hfits : bytes.length ≤ c.room a) (x : Address) (buffer : List UInt8) :
    (s.insert c.start (c.overwrite a bytes).bytes).reader.fill x buffer =
      (s.reader.fill x buffer).map (overlaid a bytes x) := by
  have hstart : (c.overwrite a bytes).start = c.start := rfl
  have hsize := Chunk.size_overwrite ha hfits
  have hafter : (s.insert c.start (c.overwrite a bytes).bytes).Ordered := h.insert hc hstart hsize
  have hmem : ∀ e, e ∈ (s.insert c.start (c.overwrite a bytes).bytes).chunks ↔
      e = c.overwrite a bytes ∨ e ∈ s.chunks ∧ e.start ≠ c.start := by
    intro e
    exact mem_insertChunk_iff h.rising
  have hholds : ∀ y, (c.overwrite a bytes).Holds y ↔ c.Holds y := by
    intro y
    rw [Chunk.Holds, Chunk.Holds, Chunk.stop, Chunk.stop, hstart, hsize]
  cases hfind : s.find? x with
  | none =>
    have hnone := h.find?_eq_none_iff.1 hfind
    have hfind' : (s.insert c.start (c.overwrite a bytes).bytes).find? x = none := by
      rw [hafter.find?_eq_none_iff]
      intro e he
      rcases (hmem e).1 he with rfl | ⟨he, -⟩
      · exact mt (hholds x).1 (hnone c hc)
      · exact hnone e he
    rw [fill_of_find?_eq_none hfind, fill_of_find?_eq_none hfind']
    rfl
  | some d =>
    obtain ⟨hd, hx⟩ := h.find?_eq_some_iff.1 hfind
    rw [fill_of_find? hfind hx]
    by_cases hsame : d.start = c.start
    · obtain rfl := h.rising.eq_of_start_eq hd hc hsame
      have hfind' := hafter.find?_eq_some_iff.2 ⟨(hmem _).2 (.inl rfl), (hholds x).2 hx⟩
      rw [fill_of_find? hfind' ((hholds x).2 hx), Chunk.answer_overwrite ha hfits hx]
      rfl
    · have hfind' := hafter.find?_eq_some_iff.2 ⟨(hmem d).2 (.inr ⟨hd, hsame⟩), hx⟩
      rw [fill_of_find? hfind' hx]
      refine congrArg Except.ok (Chunk.answer_apart hx ?_ buffer)
      -- chunks with different starts do not reach into one another
      have hne := mt Address.toNat_injective hsame
      rw [ha.room_eq] at hfits
      have := ha.1
      have := ha.2
      rcases Nat.lt_or_gt_of_ne hne with hlt | hlt
      · have := h.stop_le d hd c hc (Address.lt_iff_toNat_lt.2 hlt)
        omega
      · have := h.stop_le c hc d hd (Address.lt_iff_toNat_lt.2 hlt)
        omega

/-! ### Faithful memory -/

/-- The memory is faithful to captures that were made one after the other. -/
structure Faithful (s : Snapshot) (captures : List Chunk) : Prop where
  /-- Each chunk is the last capture with its start. -/
  mem_chunks_iff : ∀ c, c ∈ s.chunks ↔ Stands captures c
  /-- Whatever search is used, a chunk is put where its start belongs, and the chunk that is looked
  at is the last one that starts at or below the address. -/
  searched : ∀ a (w : Sought), w.IsFor (s.chunks.map Chunk.start) a →
    (∀ bytes, (s.insert a bytes).chunks = w.put ⟨a, bytes⟩ s.chunks) ∧
    s.find? a = (w.last?.bind fun n => s.chunks[n]?).filter fun c => 0 < c.room a
  read_fails_iff : ∀ a buffer, (∃ cause, s.reader.fill a buffer = .error cause) ↔
    ∀ c, Stands captures c → ¬c.Holds a
  read : ∀ a buffer c, Stands captures c → c.Holds a →
    s.reader.fill a buffer = .ok (c.answer a buffer)
  write_fails_iff : ∀ a bytes, s.write? a bytes = none ↔ ∀ c, Stands captures c → ¬c.Holds a
  /-- As many bytes as the chunk has from the address on can be written.  That is like capturing
  the chunk once more with these bytes, and all later reads give them, and nothing else that is
  new. -/
  write : ∀ a bytes c, Stands captures c → c.Holds a → bytes.length ≤ c.stop - a.toNat →
    ∃ t, s.write? a bytes = some t ∧ t = ofCaptures (captures ++ [c.overwrite a bytes]) ∧ t.Apart ∧
      ∀ x buffer, t.reader.fill x buffer = (s.reader.fill x buffer).map (overlaid a bytes x)

/-- **Captured memory is faithful to its captures**, in whatever order they were made, unless one
chunk reaches into another. -/
theorem faithful_of_apart (captures : List Chunk) (h : (ofCaptures captures).Apart) :
    (ofCaptures captures).Faithful captures := by
  have hrising := rising_ofCaptures captures
  have hordered := h.ordered hrising
  have hfound : ∀ {a c},
      (ofCaptures captures).find? a = some c ↔ Stands captures c ∧ c.Holds a := by
    intro a c
    rw [hordered.find?_eq_some_iff, mem_ofCaptures_iff]
  have hnone : ∀ {a},
      (ofCaptures captures).find? a = none ↔ ∀ c, Stands captures c → ¬c.Holds a := by
    intro a
    simp only [hordered.find?_eq_none_iff, mem_ofCaptures_iff]
  refine ⟨fun c => mem_ofCaptures_iff, ?_, ?_, ?_, ?_, ?_⟩
  · intro a w hw
    refine ⟨fun bytes => insertChunk_eq_put hrising hw, ?_⟩
    rw [find?, chunkBefore?_eq hrising hw]
  · intro a buffer
    rw [← hnone]
    cases hfind : (ofCaptures captures).find? a with
    | none => simp [fill_of_find?_eq_none hfind]
    | some c => simp [fill_of_find? hfind (hfound.1 hfind).2]
  · intro a buffer c hc ha
    exact fill_of_find? (hfound.2 ⟨hc, ha⟩) ha buffer
  · intro a bytes
    rw [← hnone, write?, Option.map_eq_none_iff]
  · intro a bytes c hc ha hfits
    have hmem := mem_ofCaptures_iff.2 hc
    rw [← ha.room_eq] at hfits
    have hstart : (c.overwrite a bytes).start = c.start := rfl
    have hafter := hordered.insert hmem hstart (Chunk.size_overwrite ha hfits)
    refine ⟨(ofCaptures captures).insert c.start (c.overwrite a bytes).bytes, ?_, ?_, hafter.apart,
      hordered.fill_insert hmem ha hfits⟩
    · rw [write?, hfound.2 ⟨hc, ha⟩, Option.map_some]
    · rw [ofCaptures, ofCaptures, List.foldl_append]
      rfl

/-- A chunk that is captured a second time, one right behind it, and one at the end of memory. -/
def fourCaptures : List Chunk :=
  [⟨.ofNat (2 ^ 64 - 2), #[8, 9]⟩, ⟨.ofNat 0x1000, #[0]⟩, ⟨.ofNat 0x1004, #[5, 6]⟩,
    ⟨.ofNat 0x1000, #[1, 2, 3, 4]⟩]

theorem faithful_of_apart_fourCaptures :
    ((ofCaptures fourCaptures).Apart ∧ Stands fourCaptures ⟨.ofNat 0x1000, #[1, 2, 3, 4]⟩) ∧
    (ofCaptures fourCaptures).reader.fill (.ofNat 0x1002) [0, 0, 0] = .ok (2, [3, 4, 0]) ∧
    (∃ cause, (ofCaptures fourCaptures).reader.fill (.ofNat 0x1006) [0] = .error cause) ∧
    ∃ t, (ofCaptures fourCaptures).write? (.ofNat 0x1001) [7, 7] = some t ∧
      t.reader.fill (.ofNat 0x1002) [0, 0, 0] = .ok (2, [7, 4, 0]) ∧
      t.reader.fill (.ofNat (2 ^ 64 - 1)) [0, 0] = .ok (1, [9, 0]) := by
  have hapart : (ofCaptures fourCaptures).Apart := by decide
  have hfirst : Stands fourCaptures ⟨.ofNat 0x1000, #[1, 2, 3, 4]⟩ :=
    ⟨fourCaptures.take 3, [], rfl, by decide⟩
  have hlast : Stands fourCaptures ⟨.ofNat (2 ^ 64 - 2), #[8, 9]⟩ :=
    ⟨[], fourCaptures.drop 1, rfl, by decide⟩
  obtain ⟨hchunks, -, hfails, hread, -, hwrite⟩ := faithful_of_apart fourCaptures hapart
  obtain ⟨t, ht, -, -, hlater⟩ :=
    hwrite (.ofNat 0x1001) [7, 7] _ hfirst (by decide) (by decide)
  refine ⟨⟨hapart, hfirst⟩, ?_, ?_, t, ht, ?_, ?_⟩
  · rw [hread (.ofNat 0x1002) [0, 0, 0] _ hfirst (by decide)]
    decide
  · rw [hfails]
    intro c hc
    have hall : ∀ c ∈ (ofCaptures fourCaptures).chunks, ¬c.Holds (.ofNat 0x1006) := by decide
    exact hall c ((hchunks c).2 hc)
  · rw [hlater, hread (.ofNat 0x1002) [0, 0, 0] _ hfirst (by decide)]
    decide
  · rw [hlater, hread (.ofNat (2 ^ 64 - 1)) [0, 0] _ hlast (by decide)]
    decide

end Snapshot

end PointerChains
