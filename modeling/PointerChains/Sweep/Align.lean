import PointerChains.Sweep.Plan

/-!
# Aligned offsets

* `alignUp` — the least offset from a given one on at which an address is aligned; the three lemmas
  say that it is one, and that there is none before it;
* `Plan.next?` — where a sweep goes on after a step.
-/

namespace PointerChains

/-- The least offset from `offset` on at which an address is aligned. -/
def alignUp (start offset alignment : Nat) : Nat :=
  offset + (alignment - (start + offset) % alignment) % alignment

theorem le_alignUp (start offset alignment : Nat) : offset ≤ alignUp start offset alignment :=
  Nat.le_add_right ..

theorem dvd_alignUp (start offset : Nat) {alignment : Nat} (h : 0 < alignment) :
    alignment ∣ start + alignUp start offset alignment := by
  unfold alignUp
  have hlt := Nat.mod_lt (start + offset) h
  rcases Nat.eq_zero_or_pos ((start + offset) % alignment) with h0 | h0
  · rw [h0, Nat.sub_zero, Nat.mod_self, Nat.add_zero]
    exact Nat.dvd_of_mod_eq_zero h0
  · rw [Nat.mod_eq_of_lt (Nat.sub_lt h h0)]
    refine Nat.dvd_of_mod_eq_zero ?_
    have hdiv := Nat.div_add_mod (start + offset) alignment
    have : start + (offset + (alignment - (start + offset) % alignment)) =
        alignment * ((start + offset) / alignment + 1) := by
      rw [Nat.mul_add, Nat.mul_one]
      omega
    rw [this]
    exact Nat.mul_mod_right ..

theorem alignUp_le_of_dvd {start offset other alignment : Nat} (h : 0 < alignment)
    (hle : offset ≤ other) (hdvd : alignment ∣ start + other) :
    alignUp start offset alignment ≤ other := by
  unfold alignUp
  have hlt := Nat.mod_lt (start + offset) h
  rcases Nat.eq_zero_or_pos ((start + offset) % alignment) with h0 | h0
  · rw [h0, Nat.sub_zero, Nat.mod_self]
    exact hle
  · rw [Nat.mod_eq_of_lt (Nat.sub_lt h h0)]
    obtain ⟨k, hk⟩ := hdvd
    have hdiv := Nat.div_add_mod (start + offset) alignment
    have hlt' : (start + offset) / alignment < k := by
      rcases Nat.lt_or_ge ((start + offset) / alignment) k with hk' | hk'
      · exact hk'
      · have := Nat.mul_le_mul_left alignment hk'
        omega
    have := Nat.mul_le_mul_left alignment (Nat.succ_le_of_lt hlt')
    rw [Nat.mul_succ] at this
    omega

/-- The offset to visit next after a step of `count` bytes, which ends at the last word if it goes
beyond; `none` if there is no aligned word from there on. -/
def Plan.next? (p : Plan) (a : Area) (offset count : Nat) : Option Nat :=
  let target := alignUp a.start (min (offset + count) (2 ^ 64 - 1)) p.alignment
  if target < 2 ^ 64 then some target else none

theorem Plan.lt_of_next? {p : Plan} {a : Area} {offset count next : Nat}
    (h : p.next? a offset (count + 1) = some next) (hlt : offset < a.size) : offset < next := by
  have hsize : a.size < 2 ^ 64 := a.range.size_lt
  simp only [Plan.next?] at h
  split at h
  · have := le_alignUp a.start (min (offset + (count + 1)) (2 ^ 64 - 1)) p.alignment
    simp only [Option.some.injEq] at h
    omega
  · cases h

end PointerChains
