import PointerChains.Sweep.Basic

/-!
# The cursor of a sweep

What a sweep does next depends on the read buffer only through three things: the offset to visit
next, the offset up to which memory is buffered, and the bytes between them.  The window may run
empty or less than a pointer may be left in it, and in either case the same is due: a read behind
what is buffered.  A sweep of a region is the same step by step whether it is told by the buffer or
by these three.

* `Cursor` — where a sweep stands in its region, with its window;
* `Cursor.request?`, `Cursor.extend`, `Cursor.moveTo`, `Cursor.visit`, `Cursor.prepare` — the steps;
* `Plan.sweepFrom` — the sweep from a cursor on;
* `Cursor.prepare_eq_ok`, `Cursor.prepare_eq_error` — all that preparing a visit does, and what
  keeps it from being prepared;
* `Buffer.cursor` — where a buffer stands;
* `Buffer.refill_of_lt` — refilling the buffer prepares the visit;
* `Plan.sweepBuffer_eq`, `Plan.sweep_eq` — the sweep of a region is the sweep from its cursor on.
-/

namespace PointerChains

/-- Where a sweep stands in its region. -/
structure Cursor where
  /-- The offset to visit next. -/
  offset : Nat
  /-- The offset up to which memory is buffered. -/
  reach : Nat
  /-- The buffered bytes from the one offset to the other. -/
  window : List UInt8
  deriving DecidableEq, Repr, Inhabited

namespace Cursor

/-- The cursor at an offset where nothing is buffered. -/
def startAt (offset : Nat) : Cursor := ⟨offset, offset, []⟩

/-- The number of buffered bytes. -/
def buffered (c : Cursor) : Nat := c.reach - c.offset

/-- The read that is due before the next visit: less than a pointer is buffered, and the region
goes on. -/
def request? (c : Cursor) (p : Plan) (a : Area) : Option Request :=
  if c.buffered < p.width.size ∧ c.reach < a.size then
    some ⟨a.address c.reach, min (p.bufferSize - c.buffered) (a.size - c.reach)⟩
  else none

/-- The cursor with more bytes behind its window. -/
def extend (c : Cursor) (bytes : List UInt8) : Cursor :=
  { c with reach := c.reach + bytes.length, window := c.window ++ bytes }

/-- The cursor at a later offset.  What lies before it leaves the window. -/
def moveTo (c : Cursor) (offset : Nat) : Cursor :=
  { offset, reach := max c.reach offset, window := c.window.drop (offset - c.offset) }

/-- What the visitor sees at the cursor. -/
def visit (c : Cursor) (a : Area) : Visit :=
  { address := a.address c.offset, region := a.region, offset := c.offset,
    remaining := c.buffered, bytes := c.window }

/-- Makes the bytes for the next visit available.  Once the window has run empty, the signals are
obeyed after the read. -/
def prepare (c : Cursor) (p : Plan) (read : Reader) (a : Area) (signals : Signals) :
    List Event × Except Ending Cursor :=
  match c.request? p a with
  | none => ([], .ok c)
  | some request =>
    ([.read request],
      match read.exactly request.address request.length with
      | .error cause => .error (.failed cause)
      | .ok bytes =>
        if c.buffered = 0 ∧ signals.cancelled then .error (.failed .cancelled)
        else if c.buffered = 0 ∧ signals.aborted then .error .stopped
        else .ok (c.extend bytes))

end Cursor

/-- The sweep of a region from a cursor on. -/
def Plan.sweepFrom (p : Plan) (read : Reader) (a : Area) (c : Cursor) (signals : Signals) :
    Sweep :=
  if _ : c.offset < a.size then
    match c.prepare p read a signals with
    | (events, .error ending) => { events, cancelled := signals.cancelled, ending }
    | (events, .ok filled) =>
      let visit := filled.visit a
      let events := events ++ [.visit visit]
      match p.visitor visit with
      | .fail cause => { events, cancelled := signals.cancelled, ending := .failed cause }
      | .crash => { events, cancelled := signals.cancelled, ending := .lost }
      | .advance 0 cancel =>
        { events, cancelled := signals.cancelled || cancel, ending := .failed .zeroAdvance }
      | .advance (count + 1) cancel =>
        let signals := { signals with cancelled := signals.cancelled || cancel }
        match _ : p.next? a c.offset (count + 1) with
        | none => { events, stats := ⟨1, 0⟩, cancelled := signals.cancelled, ending := .lost }
        | some next =>
          (p.sweepFrom read a (filled.moveTo next) signals).behind events ⟨1, 0⟩
  else { stats := ⟨0, a.size⟩, cancelled := signals.cancelled, ending := .complete }
termination_by a.size - c.offset
decreasing_by
  have := Plan.lt_of_next? ‹p.next? a c.offset (count + 1) = some next› ‹c.offset < a.size›
  simp only [Cursor.moveTo]
  omega

namespace Cursor

variable {c filled : Cursor} {p : Plan} {read : Reader} {a : Area} {signals : Signals}
  {events : List Event}

/-- All that preparing a visit does: nothing, or a read that extends the window.  If the window was
empty, the signals were clear. -/
theorem prepare_eq_ok (h : c.prepare p read a signals = (events, .ok filled)) :
    (c.request? p a = none ∧ events = [] ∧ filled = c) ∨
    ∃ request bytes, c.request? p a = some request ∧
      read.exactly request.address request.length = .ok bytes ∧
      (c.buffered = 0 → signals.cancelled = false ∧ signals.aborted = false) ∧
      events = [.read request] ∧ filled = c.extend bytes := by
  rw [prepare] at h
  split at h
  · rename_i hnone
    cases h
    exact .inl ⟨hnone, rfl, rfl⟩
  · rename_i request hsome
    rw [Prod.mk.injEq] at h
    obtain ⟨hevents, hfilled⟩ := h
    split at hfilled
    · cases hfilled
    · rename_i bytes hbytes
      split at hfilled
      · cases hfilled
      · rename_i hcancelled
        split at hfilled
        · cases hfilled
        · rename_i haborted
          cases hfilled
          refine .inr ⟨request, bytes, hsome, hbytes, ?_, hevents.symm, rfl⟩
          intro hempty
          simp only [hempty, true_and, Bool.not_eq_true] at hcancelled haborted
          exact ⟨hcancelled, haborted⟩

theorem prepare_cases (h : c.prepare p read a signals = (events, .ok filled)) :
    (c.request? p a = none ∧ events = [] ∧ filled = c) ∨
    ∃ request bytes, c.request? p a = some request ∧
      read.exactly request.address request.length = .ok bytes ∧
      events = [.read request] ∧ filled = c.extend bytes := by
  obtain hnone | ⟨request, bytes, hsome, hbytes, -, hevents, hfilled⟩ := prepare_eq_ok h
  · exact .inl hnone
  · exact .inr ⟨request, bytes, hsome, hbytes, hevents, hfilled⟩

/-- All that keeps a visit from being prepared: a due read fails, or the window was empty and the
signals are obeyed after the read. -/
theorem prepare_eq_error {ending : Ending}
    (h : c.prepare p read a signals = (events, .error ending)) :
    ∃ request, c.request? p a = some request ∧ events = [.read request] ∧
      ((∃ cause, read.exactly request.address request.length = .error cause ∧
          ending = .failed cause) ∨
        (∃ bytes, read.exactly request.address request.length = .ok bytes) ∧ c.buffered = 0 ∧
          (signals.cancelled = true ∧ ending = .failed .cancelled ∨
            signals.cancelled = false ∧ signals.aborted = true ∧ ending = .stopped)) := by
  rw [prepare] at h
  split at h
  · cases h
  · rename_i request hrequest
    rw [Prod.mk.injEq] at h
    obtain ⟨hevents, hending⟩ := h
    refine ⟨request, hrequest, hevents.symm, ?_⟩
    split at hending
    · rename_i cause hread
      cases hending
      exact .inl ⟨cause, hread, rfl⟩
    · rename_i bytes hread
      refine .inr ⟨⟨bytes, hread⟩, ?_⟩
      split at hending
      · rename_i hcancel
        cases hending
        exact ⟨hcancel.1, .inl ⟨hcancel.2, rfl⟩⟩
      · rename_i hcancel
        split at hending
        · rename_i habort
          cases hending
          have hclear : signals.cancelled = false := by
            rw [← Bool.not_eq_true]
            exact fun hset => hcancel ⟨habort.1, hset⟩
          exact ⟨habort.1, .inr ⟨hclear, habort.2, rfl⟩⟩
        · cases hending

theorem offset_of_prepare (h : c.prepare p read a signals = (events, .ok filled)) :
    filled.offset = c.offset := by
  obtain ⟨-, -, rfl⟩ | ⟨request, bytes, -, -, -, rfl⟩ := prepare_cases h
  · rfl
  · rfl

/-- A visit that could not be prepared does not complete the region. -/
theorem ne_complete_of_prepare {ending : Ending}
    (h : c.prepare p read a signals = (events, .error ending)) : ending ≠ .complete := by
  obtain ⟨request, -, -, ⟨cause, -, rfl⟩ | ⟨-, -, ⟨-, rfl⟩ | ⟨-, -, rfl⟩⟩⟩ := prepare_eq_error h
  · exact Ending.noConfusion
  · exact Ending.noConfusion
  · exact Ending.noConfusion

end Cursor

/-! ### The buffer -/

namespace Buffer

variable {a : Area} {p : Plan} {read : Reader} {signals : Signals}

/-- Where the buffer stands. -/
def cursor (b : Buffer a) : Cursor where
  offset := b.offset
  reach := max (b.base + b.bytes.length) b.offset
  window := b.left

theorem cursor_startAt (offset : Nat) : (startAt a offset).cursor = .startAt offset := by
  simp only [cursor, startAt, Cursor.startAt, Buffer.offset, left, List.drop_nil, List.length_nil,
    Nat.zero_add, Nat.zero_max]

theorem buffered_cursor (b : Buffer a) : b.cursor.buffered = b.left.length := by
  show max (b.base + b.bytes.length) (b.base + b.pos) - (b.base + b.pos) =
    (b.bytes.drop b.pos).length
  rw [List.length_drop]
  omega

theorem visit_cursor (b : Buffer a) : b.cursor.visit a = b.visit := by
  rw [Cursor.visit, buffered_cursor]
  rfl

theorem cursor_moveTo (b : Buffer a) {offset : Nat} (h : b.offset ≤ offset) :
    (b.moveTo offset).cursor = b.cursor.moveTo offset := by
  have hbase : b.base + (offset - b.base) = offset := by
    have hle : b.base ≤ b.offset := Nat.le_add_right ..
    omega
  have hdrop : b.pos + (offset - b.offset) = offset - b.base := by
    simp only [Buffer.offset] at h ⊢
    omega
  have hreach : max (b.base + b.bytes.length) offset =
      max (max (b.base + b.bytes.length) b.offset) offset := by
    omega
  simp only [cursor, moveTo, Cursor.moveTo, Buffer.offset, left, List.drop_drop, hbase] at *
  rw [hdrop, hreach]

/-- Nothing is left in the buffer exactly if nothing is buffered at its cursor. -/
theorem left_eq_nil_iff (b : Buffer a) : b.left = [] ↔ b.bytes.length ≤ b.pos :=
  List.drop_eq_nil_iff

/-- While something is left, the cursor reaches up to the end of the buffer. -/
theorem reach_cursor (b : Buffer a) (hleft : ¬ b.bytes.length ≤ b.pos) :
    b.cursor.reach = b.base + b.bytes.length ∧ b.cursor.reach = b.offset + b.left.length := by
  simp only [cursor, Buffer.offset, left, List.length_drop]
  omega

/-- Nothing is left, and the region goes on: the buffer is read afresh. -/
theorem request?_of_empty (b : Buffer a) (hleft : b.bytes.length ≤ b.pos)
    (hend : ¬ a.size ≤ b.offset) : b.cursor.request? p a = some (b.freshRequest p) := by
  have hempty : b.left = [] := b.left_eq_nil_iff.2 hleft
  have hreach : b.cursor.reach = b.offset := by
    simp only [cursor, Buffer.offset]
    omega
  have hdue : b.cursor.buffered < p.width.size ∧ b.cursor.reach < a.size := by
    rw [buffered_cursor, hempty, hreach]
    exact ⟨p.width.size_pos, Nat.lt_of_not_le hend⟩
  rw [Cursor.request?, if_pos hdue, buffered_cursor, hempty, hreach]
  rfl

/-- Something is left: the buffer is filled up exactly if that is due. -/
theorem request?_of_left (b : Buffer a) (hleft : ¬ b.bytes.length ≤ b.pos) :
    b.cursor.request? p a =
      if b.left.length < p.width.size ∧ b.base + b.bytes.length < a.size then
        some (b.tailRequest p)
      else none := by
  obtain ⟨hreach, hstop⟩ := b.reach_cursor hleft
  rw [Cursor.request?, buffered_cursor, tailRequest, Nat.sub_sub, ← hstop, hreach]

theorem cursor_refilled (b : Buffer a) {bytes : List UInt8}
    (hlength : bytes.length = (b.freshRequest p).length) (hend : ¬ a.size ≤ b.offset)
    (hleft : b.bytes.length ≤ b.pos) :
    (b.refilled bytes hlength hend).1.cursor = b.cursor.extend bytes := by
  have hempty : b.left = [] := b.left_eq_nil_iff.2 hleft
  have hreach : max (b.base + b.bytes.length) b.offset = b.offset := by
    simp only [Buffer.offset]
    omega
  simp only [cursor, refilled, Cursor.extend, Buffer.offset, left, List.drop_zero, Nat.add_zero]
    at hempty hreach ⊢
  rw [hempty, hreach, List.nil_append, Nat.max_eq_left (Nat.le_add_right ..)]

theorem cursor_filledUp (b : Buffer a) {bytes : List UInt8}
    (hlength : bytes.length = (b.tailRequest p).length) (hleft : ¬ b.bytes.length ≤ b.pos) :
    (b.filledUp bytes hlength hleft).1.cursor = b.cursor.extend bytes := by
  obtain ⟨-, hstop⟩ := b.reach_cursor hleft
  show Cursor.mk (b.offset + 0) (max (b.offset + (b.left ++ bytes).length) (b.offset + 0))
    ((b.left ++ bytes).drop 0) = ⟨b.offset, b.cursor.reach + bytes.length, b.left ++ bytes⟩
  rw [hstop, List.length_append, Nat.add_zero, Nat.max_eq_left (Nat.le_add_right ..),
    Nat.add_assoc, List.drop_zero]

/-- Past the region there is nothing left to read. -/
theorem refill_of_le (b : Buffer a) (h : a.size ≤ b.offset) :
    b.refill p read signals = ([], .error .complete) := by
  have hleft : b.bytes.length ≤ b.pos :=
    Decidable.byContradiction fun hsome => absurd (b.offset_lt hsome) (Nat.not_lt.2 h)
  rw [refill, dif_pos hleft, dif_pos h]

/-- Refilling the buffer prepares the visit. -/
theorem refill_of_lt (b : Buffer a) (h : b.offset < a.size) :
    b.cursor.prepare p read a signals =
      ((b.refill p read signals).1,
        (b.refill p read signals).2.map fun filled => filled.1.cursor) := by
  by_cases hleft : b.bytes.length ≤ b.pos
  · have hend : ¬ a.size ≤ b.offset := Nat.not_le.2 h
    have hempty : b.cursor.buffered = 0 := by
      rw [buffered_cursor, b.left_eq_nil_iff.2 hleft, List.length_nil]
    rw [Cursor.prepare, request?_of_empty b hleft hend, refill, dif_pos hleft, dif_neg hend]
    simp only [Reader.exactly_eq_map, hempty, true_and]
    cases hread : read.whole (b.freshRequest p).address (b.freshRequest p).length with
    | error cause => rfl
    | ok filled =>
      cases signals.cancelled with
      | true => rfl
      | false =>
        cases signals.aborted with
        | true => rfl
        | false =>
          exact congrArg (fun c => ([Event.read (b.freshRequest p)], Except.ok c))
            (cursor_refilled b filled.2 hend hleft).symm
  · have hbuffered : b.cursor.buffered ≠ 0 := by
      rw [buffered_cursor, Ne, List.length_eq_zero_iff, left_eq_nil_iff]
      exact hleft
    rw [Cursor.prepare, request?_of_left b hleft, refill, dif_neg hleft]
    by_cases hdue : b.left.length < p.width.size ∧ b.base + b.bytes.length < a.size
    · simp only [if_pos hdue, Reader.exactly_eq_map, hbuffered, false_and, if_false]
      cases hread : read.whole (b.tailRequest p).address (b.tailRequest p).length with
      | error cause => rfl
      | ok filled =>
        exact congrArg (fun c => ([Event.read (b.tailRequest p)], Except.ok c))
          (cursor_filledUp b filled.2 hleft).symm
    · simp only [if_neg hdue]
      rfl

theorem prepare_of_error {b : Buffer a} {events : List Event} {ending : Ending}
    (hlt : b.offset < a.size) (h : b.refill p read signals = (events, .error ending)) :
    b.cursor.prepare p read a signals = (events, .error ending) := by
  rw [refill_of_lt b hlt, h]
  rfl

theorem prepare_of_ready {b : Buffer a} {events : List Event} {filled : ReadyBuffer a b.offset}
    (h : b.refill p read signals = (events, .ok filled)) :
    b.cursor.offset < a.size ∧
      b.cursor.prepare p read a signals = (events, .ok filled.1.cursor) := by
  refine ⟨filled.2.2, ?_⟩
  rw [refill_of_lt b filled.2.2, h]
  rfl

end Buffer

/-! ### The sweep -/

/-- The sweep from what is buffered on is the sweep from the cursor on. -/
theorem Plan.sweepBuffer_eq (p : Plan) (read : Reader) {a : Area} (b : Buffer a)
    (signals : Signals) :
    p.sweepBuffer read b signals = p.sweepFrom read a b.cursor signals := by
  -- By the calls of the buffered sweep: one that ends before a visit, and one for each reply.  The
  -- visitor is shown the same on both sides, so that only the steps to the next visit differ.
  fun_induction Plan.sweepBuffer p read b signals with
  | case1 b signals events ending hrefill =>
    rw [sweepFrom]
    by_cases hlt : b.cursor.offset < a.size
    · have hprepare := Buffer.prepare_of_error hlt hrefill
      have hending := Cursor.ne_complete_of_prepare hprepare
      rw [dif_pos hlt, hprepare, if_neg hending]
    · rw [Buffer.refill_of_le b (Nat.not_lt.1 hlt)] at hrefill
      cases hrefill
      rw [dif_neg hlt]
      rfl
  | case2 b signals events filled hready hrefill visit events' cause hreply =>
    obtain ⟨hlt, hprepare⟩ := Buffer.prepare_of_ready hrefill
    rw [sweepFrom, dif_pos hlt, hprepare]
    simp only [filled.visit_cursor, hreply, visit, events']
  | case3 b signals events filled hready hrefill visit events' hreply =>
    obtain ⟨hlt, hprepare⟩ := Buffer.prepare_of_ready hrefill
    rw [sweepFrom, dif_pos hlt, hprepare]
    simp only [filled.visit_cursor, hreply, visit, events']
  | case4 b signals events filled hready hrefill visit events' cancel hreply =>
    obtain ⟨hlt, hprepare⟩ := Buffer.prepare_of_ready hrefill
    rw [sweepFrom, dif_pos hlt, hprepare]
    simp only [filled.visit_cursor, hreply, visit, events']
  | case5 b signals events filled hready hrefill visit events' count cancel hreply signals' hnext =>
    obtain ⟨hlt, hprepare⟩ := Buffer.prepare_of_ready hrefill
    rw [hready.1] at hnext
    rw [sweepFrom, dif_pos hlt, hprepare]
    simp only [filled.visit_cursor, hreply, visit, events', signals']
    split
    · rfl
    · rename_i next hsome
      cases hnext.symm.trans hsome
  | case6 b signals events filled hready hrefill visit events' count cancel hreply signals' next
      hnext ih =>
    obtain ⟨hlt, hprepare⟩ := Buffer.prepare_of_ready hrefill
    have hle := Nat.le_of_lt (lt_of_next? hnext (hready.1.symm ▸ hready.2))
    rw [hready.1] at hnext
    rw [sweepFrom, dif_pos hlt, hprepare]
    simp only [filled.visit_cursor, hreply, visit, events', signals', ih, filled.cursor_moveTo hle]
    split
    · rename_i hnone
      cases hnext.symm.trans hnone
    · rename_i next' hsome
      cases hnext.symm.trans hsome
      rfl

/-- **The sweep of a region through the buffer is the sweep from its first aligned offset on.** -/
theorem Plan.sweep_eq (p : Plan) (read : Reader) (a : Area) (signals : Signals) :
    p.sweep read a signals =
      p.sweepFrom read a (.startAt (alignUp a.start 0 p.alignment)) signals := by
  rw [Plan.sweep, sweepBuffer_eq, Buffer.cursor_startAt]

end PointerChains
