import Mathlib.Data.List.Nodup
import PointerChains.Pool.Basic

/-!
# Sessions and workers

A session is idle or a worker has it.  Workers are started for all sessions at once and end
together, so the sessions of a pool that runs are those of its workers, and those of a pool that
does not are idle.  Taking the workers down gives back the sessions of those that were not lost, in
their order.  Starting them hands out all sessions, unless one worker cannot be started: then that
session and the ones behind it are gone.

* `Pool.crew_eq_sessions`, `Pool.idle_eq_sessions` — who has the sessions;
* `Pool.survivors` — the sessions whose workers were not lost;
* `Pool.takeDown_of_running`, `Pool.shutdown_eq` — what is left without workers;
* `Pool.started`, `Pool.spawn_cases` — what a start of the workers comes to.
-/

namespace PointerChains.Pool

variable {ρ : Type} {pool : Pool ρ}

/-! ### Who has the sessions -/

theorem running_iff : pool.running = true ↔ pool.crew ≠ [] := by
  rw [running, Bool.not_eq_true', List.isEmpty_eq_false_iff]

theorem running_eq_false_iff : pool.running = false ↔ pool.crew = [] := by
  rw [running, Bool.not_eq_false', List.isEmpty_iff]

theorem length_sessions (pool : Pool ρ) : pool.sessions.length = pool.workers := by
  rw [sessions, List.length_append, Nat.add_comm, workers]

/-- The workers of a pool that runs have all of its sessions. -/
theorem crew_eq_sessions (h : pool.running = true) : pool.crew = pool.sessions := by
  have hidle : pool.idle = [] := pool.apart.resolve_left (running_iff.1 h)
  rw [sessions, hidle, List.nil_append]

/-- The sessions of a pool that does not run are idle. -/
theorem idle_eq_sessions (h : pool.running = false) : pool.idle = pool.sessions := by
  rw [sessions, running_eq_false_iff.1 h, List.append_nil]

/-- A pool that runs, said field by field. -/
theorem eq_of_running (h : pool.running = true) : pool =
    { idle := [], crew := pool.sessions, partition := pool.partition, plans := pool.plans
      cancel := pool.cancel, apart := .inr rfl } :=
  Pool.ext (pool.apart.resolve_left (running_iff.1 h)) (crew_eq_sessions h) rfl rfl rfl

/-! ### Survivors -/

/-- The sessions whose workers were not lost. -/
def survivors (sessions : List ρ) (lost : List Nat) : List ρ :=
  (sessions.zipIdx.filter fun s => !lost.contains s.2).map Prod.fst

theorem survivors_nil (sessions : List ρ) : survivors sessions [] = sessions := by
  simp [survivors]

/-- The workers give their sessions back one after the other, those from number `n` on here. -/
theorem join_snd (lost : List Nat) (idle crew : List ρ) (last : Option Nat) (n : Nat) :
    (join lost idle last n crew).2 =
      idle ++ ((crew.zipIdx n).filter fun s => !lost.contains s.2).map Prod.fst := by
  induction crew generalizing idle last n with
  | nil => exact (List.append_nil idle).symm
  | cons session crew ih =>
    rw [join, List.zipIdx_cons]
    by_cases hlost : lost.contains n = true
    · rw [if_pos hlost, ih, List.filter_cons_of_neg (by simp only [hlost]; decide)]
    · rw [if_neg hlost, ih, List.filter_cons_of_pos (by simp only [hlost]; decide),
        List.map_cons, List.append_assoc, List.singleton_append]

/-- Taken down, a pool has the sessions of the workers that were not lost, idle and in their
order. -/
theorem takeDown_of_running (h : pool.running = true) (lost : List Nat) :
    (pool.takeDown lost).2 = { idle := survivors pool.sessions lost, partition := pool.partition
                               cancel := pool.cancel } := by
  have hidle : pool.idle = [] := pool.apart.resolve_left (running_iff.1 h)
  have hjoin : (join lost pool.idle none 0 pool.crew).2 = survivors pool.sessions lost := by
    rw [join_snd, hidle, crew_eq_sessions h]
    rfl
  rw [takeDown, if_pos h]
  exact Pool.ext hjoin rfl rfl rfl rfl

theorem takeDown_of_idle (h : pool.running = false) (lost : List Nat) :
    pool.takeDown lost = (.ok (), pool) := by
  rw [takeDown, h]
  rfl

/-- A shutdown gives all sessions back. -/
theorem shutdown_of_running (h : pool.running = true) :
    pool.shutdown = { idle := pool.sessions, partition := pool.partition
                      cancel := pool.cancel } := by
  rw [shutdown, takeDown_of_running h, survivors_nil]

theorem shutdown_of_idle (h : pool.running = false) : pool.shutdown = pool := by
  rw [shutdown, takeDown_of_idle h]

theorem sessions_shutdown (pool : Pool ρ) : pool.shutdown.sessions = pool.sessions := by
  cases h : pool.running with
  | false => rw [shutdown_of_idle h]
  | true =>
    rw [shutdown_of_running h]
    exact List.append_nil _

theorem partition_shutdown (pool : Pool ρ) : pool.shutdown.partition = pool.partition := by
  cases h : pool.running with
  | false => rw [shutdown_of_idle h]
  | true => rw [shutdown_of_running h]

theorem running_shutdown (pool : Pool ρ) : pool.shutdown.running = false := by
  cases h : pool.running with
  | false => rw [shutdown_of_idle h, h]
  | true =>
    rw [shutdown_of_running h]
    rfl

theorem cancel_shutdown (pool : Pool ρ) : pool.shutdown.cancel = pool.cancel := by
  cases h : pool.running with
  | false => rw [shutdown_of_idle h]
  | true => rw [shutdown_of_running h]

/-! ### Starting the workers -/

/-- How many of so many workers are started before one cannot be. -/
def started (faults : StartFaults) (count : Nat) : Nat :=
  ((List.range count).takeWhile fun n => (faults n).isNone).length

/-- Workers are started up to the first that cannot be. -/
theorem launch_cases (faults : StartFaults) (crew idle : List ρ) :
    ((∀ i < idle.length, faults (crew.length + i) = none) ∧
      launch faults crew idle = (none, crew ++ idle)) ∨
    ∃ n source, n < idle.length ∧ (∀ i < n, faults (crew.length + i) = none) ∧
      faults (crew.length + n) = some source ∧
      launch faults crew idle = (some source, crew ++ idle.take n) := by
  induction idle generalizing crew with
  | nil => exact .inl ⟨fun i hi => absurd hi (Nat.not_lt_zero i), by rw [List.append_nil]; rfl⟩
  | cons session idle ih =>
    rw [launch]
    cases hfirst : faults crew.length with
    | some source =>
      refine .inr ⟨0, source, Nat.succ_pos _, fun i hi => absurd hi (Nat.not_lt_zero i), hfirst, ?_⟩
      rw [List.take_zero, List.append_nil]
    | none =>
      have hlength : ∀ i, (crew ++ [session]).length + i = crew.length + (i + 1) := by
        intro i
        rw [List.length_append, List.length_singleton]
        omega
      simp only
      obtain ⟨hrest, hlaunch⟩ | ⟨n, source, hn, hbefore, hfault, hlaunch⟩ := ih (crew ++ [session])
      · refine .inl ⟨?_, ?_⟩
        · intro i hi
          cases i with
          | zero => exact hfirst
          | succ i =>
            rw [← hlength]
            exact hrest i (Nat.lt_of_succ_lt_succ hi)
        · rw [hlaunch, List.append_assoc, List.singleton_append]
      · refine .inr ⟨n + 1, source, Nat.succ_lt_succ hn, ?_, ?_, ?_⟩
        · intro i hi
          cases i with
          | zero => exact hfirst
          | succ i =>
            rw [← hlength]
            exact hbefore i (Nat.lt_of_succ_lt_succ hi)
        · rw [← hlength]
          exact hfault
        · rw [hlaunch, List.append_assoc, List.singleton_append, List.take_succ_cons]

/-- The first worker that cannot be started has the number of those that can. -/
theorem started_of_first {faults : StartFaults} {count n : Nat} {source : String} (hn : n < count)
    (hbefore : ∀ i < n, faults i = none) (hfault : faults n = some source) :
    started faults count = n := by
  have hsplit : List.range count = List.range n ++ n :: List.range' (n + 1) (count - n - 1) := by
    have happend := List.range'_append_1 (s := 0) (m := n) (n := count - n - 1 + 1)
    rw [Nat.zero_add, List.range'_succ, ← List.range_eq_range', ← List.range_eq_range'] at happend
    rw [happend]
    congr 1
    omega
  have hall : ∀ i ∈ List.range n, (faults i).isNone = true := by
    intro i hi
    rw [hbefore i (List.mem_range.1 hi)]
    rfl
  rw [started, hsplit, List.takeWhile_append_of_pos hall,
    List.takeWhile_cons_of_neg (by simp [hfault]), List.append_nil, List.length_range]

/-- Workers that are all started have the sessions. -/
theorem spawn_of_launched {faults : StartFaults} {crew : List ρ} (h : pool.running = false)
    (hlaunch : launch faults [] pool.sessions = (none, crew)) :
    pool.spawn faults = (.ok (), { pool with idle := [], crew, apart := .inr rfl }) := by
  rw [spawn, h, idle_eq_sessions h, hlaunch]
  rfl

/-- If a worker cannot be started, those that were are taken down. -/
theorem spawn_of_fault {faults : StartFaults} {source : String} {crew : List ρ}
    (h : pool.running = false)
    (hlaunch : launch faults [] pool.sessions = (some source, crew)) :
    pool.spawn faults = (.error (.spawn source),
      ({ pool with idle := [], crew, apart := .inr rfl } : Pool ρ).shutdown) := by
  rw [spawn, h, idle_eq_sessions h, hlaunch]
  rfl

/-- All that a start of the workers can do: they run already, or all of them are started, or one of
them is the first that cannot be, and only the sessions in front of it are left. -/
theorem spawn_cases (pool : Pool ρ) (faults : StartFaults) :
    (pool.running = true ∧ pool.spawn faults = (.ok (), pool)) ∨
    (pool.running = false ∧ (∀ i < pool.sessions.length, faults i = none) ∧
      pool.spawn faults = (.ok (), { pool with idle := [], crew := pool.sessions
                                               apart := .inr rfl })) ∨
    ∃ source after, pool.running = false ∧
      started faults pool.sessions.length < pool.sessions.length ∧
      pool.spawn faults = (.error (.spawn source), after) ∧ after.running = false ∧
      after.sessions = pool.sessions.take (started faults pool.sessions.length) ∧
      after.partition = pool.partition ∧ after.cancel = pool.cancel := by
  cases h : pool.running with
  | true =>
    left
    rw [spawn, if_pos h]
    exact ⟨rfl, rfl⟩
  | false =>
    right
    obtain ⟨hall, hlaunch⟩ | ⟨n, source, hn, hbefore, hfault, hlaunch⟩ :=
      launch_cases faults [] pool.sessions
    · left
      refine ⟨rfl, ?_, spawn_of_launched h hlaunch⟩
      intro i hi
      rw [← Nat.zero_add i]
      exact hall i hi
    · right
      have hstarted : started faults pool.sessions.length = n := by
        have hfault : faults n = some source := by
          rw [← Nat.zero_add n]
          exact hfault
        refine started_of_first hn ?_ hfault
        intro i hi
        rw [← Nat.zero_add i]
        exact hbefore i hi
      rw [hstarted]
      refine ⟨source, _, rfl, hn, spawn_of_fault h hlaunch, running_shutdown _, ?_,
        partition_shutdown _, cancel_shutdown _⟩
      rw [sessions_shutdown]
      rfl

theorem started_of_startable {faults : StartFaults} (hfaults : ∀ n, faults n = none)
    (count : Nat) : started faults count = count := by
  have hall : ∀ n ∈ List.range count, (faults n).isNone = true := by
    intro n _
    rw [hfaults]
    rfl
  rw [started, ← List.append_nil (List.range count), List.takeWhile_append_of_pos hall,
    List.takeWhile_nil, List.append_nil, List.length_range]

/-- With no fault in the way, the sessions of a pool that does not run go to new workers. -/
theorem spawn_of_startable {faults : StartFaults} (hfaults : ∀ n, faults n = none) :
    pool.spawn faults = (.ok (), { pool with idle := [], crew := pool.sessions
                                             apart := .inr rfl }) := by
  obtain ⟨hrunning, hspawn⟩ | ⟨-, -, hspawn⟩ | ⟨source, after, -, hlt, -⟩ :=
    pool.spawn_cases faults
  · rw [hspawn, ← eq_of_running hrunning]
  · exact hspawn
  · rw [started_of_startable hfaults] at hlt
    exact absurd hlt (Nat.lt_irrefl _)

end PointerChains.Pool
