import PointerChains.Proofs.Memory.Image
import PointerChains.Proofs.Sweep.Cursor

/-!
# What the read window shows

While a region is swept, the window of the cursor is a piece of the image that starts at the offset
to visit next.  Preparing a visit keeps that, whether it reads afresh or fills up behind the rest,
and leaves at least a pointer in the window unless the region ends first.

* `visitsOf` — the visits among the events of a sweep;
* `Cursor.exactly_request` — what preparing a visit reads in a served region;
* `Cursor.Bounded` — the cursor's two offsets fit the region and the buffer;
* `Cursor.Shows` — the window is the image between them;
* `Cursor.Shows.prepare`, `Cursor.Shows.moveTo` — the two steps of a sweep keep the window;
* `Cursor.Shows.exists_prepare` — inside a served region no visit fails to be prepared.
-/

namespace PointerChains

/-- The visits among events, in order. -/
def visitsOf (events : List Event) : List Visit := events.filterMap Event.visit?

@[simp] theorem visitsOf_append (events events' : List Event) :
    visitsOf (events ++ events') = visitsOf events ++ visitsOf events' :=
  List.filterMap_append ..

@[simp] theorem visitsOf_flatMap {α : Type} (l : List α) (f : α → List Event) :
    visitsOf (l.flatMap f) = l.flatMap fun a => visitsOf (f a) :=
  List.filterMap_flatMap

theorem Area.stop_eq {a : Area} {offset : Nat} (h : offset < a.size) :
    a.range.stop.toNat = a.start + a.size := by
  simp only [Area.size, AddressRange.size, Area.start] at h ⊢
  omega

theorem Area.toNat_address {a : Area} {offset : Nat} (h : offset < a.size) :
    (a.address offset).toNat = a.start + offset := by
  have hstop := Area.stop_eq h
  have hlt := a.range.stop.toNat_lt
  exact Address.toNat_advance (by simp only [Area.start] at hstop; omega)

namespace Cursor

variable {c filled : Cursor} {p : Plan} {read : Reader} {a : Area} {signals : Signals}
  {events : List Event} {image : Image}

/-- Preparing a visit is no visit. -/
theorem visitsOf_prepared (h : c.prepare p read a signals = (events, .ok filled)) (v : Visit) :
    visitsOf (events ++ [.visit v]) = [v] := by
  obtain ⟨-, rfl, -⟩ | ⟨request, bytes, -, -, rfl, -⟩ := prepare_cases h
  · rfl
  · rfl

/-- Nor is a visit that could not be prepared. -/
theorem visitsOf_unprepared {ending : Ending}
    (h : c.prepare p read a signals = (events, .error ending)) : visitsOf events = [] := by
  obtain ⟨request, -, rfl, -⟩ := prepare_eq_error h
  rfl

/-- A read that is due starts where the window ends, and stays inside the region and the
buffer. -/
theorem request_eq {request : Request} (h : c.request? p a = some request) :
    c.buffered < p.width.size ∧ c.reach < a.size ∧ request.address = a.address c.reach ∧
      request.length = min (p.bufferSize - c.buffered) (a.size - c.reach) := by
  rw [request?] at h
  split at h
  · rename_i hdue
    cases h
    exact ⟨hdue.1, hdue.2, rfl, rfl⟩
  · cases h

/-- A due read is one of something inside the region, behind the window. -/
theorem request_inside (hfit : 2 * p.width.size ≤ p.bufferSize) {request : Request}
    (h : c.request? p a = some request) :
    request.address.toNat = a.start + c.reach ∧ 0 < request.length ∧
      a.range.start.toNat ≤ request.address.toNat ∧
      request.address.toNat + request.length ≤ a.range.stop.toNat := by
  obtain ⟨hshort, hreach, haddress, hlength⟩ := request_eq h
  have hstop := Area.stop_eq hreach
  have hnat : request.address.toNat = a.start + c.reach := by
    rw [haddress, Area.toNat_address hreach]
  have hstart : a.range.start.toNat ≤ request.address.toNat := by
    rw [hnat]
    exact Nat.le_add_right ..
  exact ⟨hnat, by omega, hstart, by omega⟩

/-- A due read in a served region is answered with the image behind the window. -/
theorem exactly_request (hread : read.Serves image a.range)
    (hfit : 2 * p.width.size ≤ p.bufferSize) {request : Request}
    (hrequest : c.request? p a = some request) :
    read.exactly request.address request.length =
      .ok (image.read (a.start + c.reach) request.length) := by
  obtain ⟨hnat, hpos, hstart, hstop⟩ := request_inside hfit hrequest
  rw [← hnat]
  exact hread.exactly_eq request.address request.length hpos hstart hstop

/-- The offset lies below the reach, which ends in the region unless nothing is buffered, and the
buffer holds what lies between. -/
structure Bounded (c : Cursor) (p : Plan) (a : Area) : Prop where
  offset_le : c.offset ≤ c.reach
  reach_le : c.reach ≤ a.size ∨ c.reach = c.offset
  buffered_le : c.buffered ≤ p.bufferSize

theorem bounded_startAt (offset : Nat) : (startAt offset).Bounded p a where
  offset_le := Nat.le_refl _
  reach_le := .inr rfl
  buffered_le := by simp only [startAt, buffered]; omega

namespace Bounded

theorem extend (h : c.Bounded p a) {bytes : List UInt8}
    (hroom : c.buffered + bytes.length ≤ p.bufferSize)
    (hreach : c.reach + bytes.length ≤ a.size) : (c.extend bytes).Bounded p a where
  offset_le := Nat.le_trans h.offset_le (Nat.le_add_right ..)
  reach_le := .inl hreach
  buffered_le := by
    have hle := h.offset_le
    simp only [buffered, Cursor.extend] at hroom ⊢
    omega

theorem moveTo (h : c.Bounded p a) {offset : Nat} (hle : c.offset ≤ offset) :
    (c.moveTo offset).Bounded p a where
  offset_le := Nat.le_max_right ..
  reach_le := by
    have hreach := h.reach_le
    have hoffset := h.offset_le
    simp only [Cursor.moveTo]
    omega
  buffered_le := by
    have hroom := h.buffered_le
    simp only [buffered, Cursor.moveTo] at hroom ⊢
    omega

/-- Preparing a visit fills the buffer at most, and not from behind the region. -/
theorem prepare (h : c.Bounded p a) (hlt : c.offset < a.size)
    (hprepare : c.prepare p read a signals = (events, .ok filled)) :
    filled.Bounded p a ∧ filled.reach ≤ a.size := by
  have hreach := h.reach_le
  have hroom := h.buffered_le
  obtain ⟨-, -, rfl⟩ | ⟨request, bytes, hrequest, hbytes, -, rfl⟩ := prepare_cases hprepare
  · exact ⟨h, by omega⟩
  · obtain ⟨-, hbehind, -, hlength⟩ := request_eq hrequest
    have hcount : bytes.length = request.length := (Reader.exactly_eq_ok_iff.1 hbytes).2
    have hfilled : c.reach + bytes.length ≤ a.size := by omega
    exact ⟨h.extend (by omega) hfilled, hfilled⟩

end Bounded

/-- The window of the cursor is the image from the offset to visit next up to the offset that is
reached, which lies in the region unless nothing is buffered. -/
structure Shows (c : Cursor) (image : Image) (p : Plan) (a : Area) : Prop where
  window_eq : c.window = image.read (a.start + c.offset) (c.reach - c.offset)
  offset_le : c.offset ≤ c.reach
  reach_le : c.reach ≤ a.size ∨ c.reach = c.offset
  buffered_le : c.buffered ≤ p.bufferSize

theorem Bounded.shows (h : c.Bounded p a)
    (hwindow : c.window = image.read (a.start + c.offset) (c.reach - c.offset)) :
    c.Shows image p a :=
  ⟨hwindow, h.offset_le, h.reach_le, h.buffered_le⟩

theorem shows_startAt (image : Image) (offset : Nat) : (startAt offset).Shows image p a :=
  (bounded_startAt offset).shows (by rw [startAt, Nat.sub_self, Image.read_zero])

namespace Shows

theorem bounded (h : c.Shows image p a) : c.Bounded p a :=
  ⟨h.offset_le, h.reach_le, h.buffered_le⟩

/-- The bytes behind the window extend it by the image there. -/
theorem window_extend (h : c.Shows image p a) {bytes : List UInt8}
    (hbytes : bytes = image.read (a.start + c.reach) bytes.length) :
    (c.extend bytes).window =
      image.read (a.start + c.offset) (c.reach + bytes.length - c.offset) := by
  have hle := h.offset_le
  have hsplit : c.reach + bytes.length - c.offset = c.reach - c.offset + bytes.length := by omega
  have hstart : a.start + c.offset + (c.reach - c.offset) = a.start + c.reach := by omega
  show c.window ++ bytes = _
  rw [hsplit, Image.read_add, hstart, ← hbytes, ← h.window_eq]

/-- Moving on drops what lies before the new offset. -/
theorem moveTo (h : c.Shows image p a) {offset : Nat} (hle : c.offset ≤ offset) :
    (c.moveTo offset).Shows image p a := by
  refine (h.bounded.moveTo hle).shows ?_
  have hstart : a.start + c.offset + (offset - c.offset) = a.start + offset := by omega
  have hlength : c.reach - c.offset - (offset - c.offset) = max c.reach offset - offset := by
    omega
  show c.window.drop (offset - c.offset) =
    image.read (a.start + offset) (max c.reach offset - offset)
  rw [h.window_eq, Image.drop_read, hstart, hlength]

theorem length_window (h : c.Shows image p a) : c.window.length = c.buffered := by
  rw [h.window_eq, Image.length_read, buffered]

/-- Preparing a visit keeps the window, and leaves a pointer in it unless the region ends first. -/
theorem prepare (h : c.Shows image p a) (hread : read.Tells image a.range)
    (hfit : 2 * p.width.size ≤ p.bufferSize) (hlt : c.offset < a.size)
    (hprepare : c.prepare p read a signals = (events, .ok filled)) :
    filled.Shows image p a ∧ min p.width.size (a.size - filled.offset) ≤ filled.buffered ∧
      filled.reach ≤ a.size := by
  obtain ⟨hbounded, hinside⟩ := h.bounded.prepare hlt hprepare
  have hle := h.offset_le
  obtain ⟨hnone, -, rfl⟩ | ⟨request, bytes, hrequest, hbytes, -, rfl⟩ := prepare_cases hprepare
  · refine ⟨h, ?_, hinside⟩
    rw [request?] at hnone
    split at hnone
    · cases hnone
    · rename_i hdue
      simp only [buffered] at hdue ⊢
      omega
  · obtain ⟨hshort, -, -, hlength⟩ := request_eq hrequest
    obtain ⟨hnat, hpos, hstart, hstop⟩ := request_inside hfit hrequest
    have heq := hread request.address request.length bytes hpos hstart hstop hbytes
    rw [hnat] at heq
    have hcount : bytes.length = request.length := by rw [heq, Image.length_read]
    refine ⟨hbounded.shows (h.window_extend (hcount ▸ heq)), ?_, hinside⟩
    simp only [buffered, Cursor.extend] at hshort hlength ⊢
    omega

/-- Inside a served region a visit is prepared unless the pass was cancelled or given up. -/
theorem exists_prepare (hread : read.Serves image a.range)
    (hfit : 2 * p.width.size ≤ p.bufferSize) :
    ∃ events filled, c.prepare p read a {} = (events, .ok filled) := by
  cases hrequest : c.request? p a with
  | none => exact ⟨[], c, by rw [Cursor.prepare, hrequest]⟩
  | some request =>
    have hserved := exactly_request hread hfit hrequest
    refine ⟨[.read request], c.extend (image.read (a.start + c.reach) request.length), ?_⟩
    simp only [Cursor.prepare, hrequest, hserved, Bool.false_eq_true, and_false, if_false]

end Shows

end Cursor

end PointerChains
