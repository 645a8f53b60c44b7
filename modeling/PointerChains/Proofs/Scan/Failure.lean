import PointerChains.Proofs.Scan.Search

/-!
# Scans that fail

A scan asks for its settings before it discards earlier results.  Once all of them are there, every
failure leaves it idle: the target may be in no region, the pool may refuse a pass or fail in one,
a level may not fit, or the chains may not come out.  A scan that misses a setting fails before,
and keeps what it had.

* `PointerScan.IsIdle` — a scan without results;
* `PointerScan.Configured` — all settings are there, and none of them is being updated;
* `PointerScan.scan_isIdle_iff` — **a scan that fails is left idle exactly if it was configured, or
  idle before.**
-/

namespace PointerChains

variable {ρ : Type}

/-! ### Settings that are there -/

/-- Whether no update holds the value. -/
def Guarded.IsFree {α : Type} (g : Guarded α) : Prop := g.holders ≠ .update

theorem Guarded.exists_get_iff {α : Type} {g : Guarded α} :
    (∃ a, g.get = .ok a) ↔ g.IsFree := by
  rw [Guarded.get, Guarded.IsFree]
  cases g.holders with
  | scans count => simp
  | update => simp

theorem Guarded.get_of_isFree {α : Type} {g : Guarded α} (h : g.IsFree) : g.get = .ok g.value := by
  obtain ⟨a, ha⟩ := Guarded.exists_get_iff.2 h
  rw [ha, Guarded.get_eq_ok ha]

namespace PointerScanOptions

variable {o : PointerScanOptions}

theorem exists_params_iff : (∃ p, o.params = .ok p) ↔
    o.target.isSome ∧ o.alignment.isSome ∧ o.maxObjSize.isSome ∧ o.maxDepth.isSome := by
  constructor
  · intro h
    obtain ⟨p, hp⟩ := h
    obtain ⟨htarget, halignment, hsize, hdepth, -, -⟩ := params_eq_ok hp
    exact ⟨Option.isSome_of_mem htarget, Option.isSome_of_mem halignment,
      Option.isSome_of_mem hsize, Option.isSome_of_mem hdepth⟩
  · intro h
    obtain ⟨htarget, halignment, hsize, hdepth⟩ := h
    obtain ⟨target, htarget⟩ := Option.isSome_iff_exists.1 htarget
    obtain ⟨alignment, halignment⟩ := Option.isSome_iff_exists.1 halignment
    obtain ⟨size, hsize⟩ := Option.isSome_iff_exists.1 hsize
    obtain ⟨depth, hdepth⟩ := Option.isSome_iff_exists.1 hdepth
    refine ⟨⟨target, alignment, size, depth, o.smartScan, o.presets⟩, ?_⟩
    rw [params, htarget, halignment, hsize, hdepth]
    rfl

end PointerScanOptions

/-! ### Trees without nodes -/

theorem Tree.isEmpty_empty (depth : Nat) : (Tree.empty depth).isEmpty := by
  rw [Tree.isEmpty, Tree.empty, Array.all_eq_true']
  intro level hlevel
  rw [Array.eq_of_mem_replicate hlevel]
  rfl

theorem Tree.isEmpty_reset (t : Tree) : t.reset.isEmpty := by
  simp [Tree.isEmpty, Tree.reset]

namespace PointerScan

variable {scan : PointerScan} {options : Guarded Options} {settings : Guarded PointerScanOptions}
  {areas : Guarded AreaSet} {pool : Pool ρ} {read : ρ → Reader} {search : Search} {cause : Error}

/-- A scan without results. -/
structure IsIdle (scan : PointerScan) : Prop where
  state : scan.state = .idle
  tree : scan.tree.isEmpty
  chains : scan.chains.isEmpty

theorem isIdle_reset (scan : PointerScan) : scan.reset.IsIdle := ⟨rfl, scan.tree.isEmpty_reset, rfl⟩

theorem isIdle_empty (depth : Nat) : ({ tree := .empty depth } : PointerScan).IsIdle :=
  ⟨rfl, Tree.isEmpty_empty depth, rfl⟩

/-- All that a scan asks for is there, and no part of it is being updated. -/
structure Configured (options : Guarded Options) (settings : Guarded PointerScanOptions)
    (areas : Guarded AreaSet) : Prop where
  freeOptions : options.IsFree
  freeSettings : settings.IsFree
  freeAreas : areas.IsFree
  target : settings.value.target.isSome
  alignment : settings.value.alignment.isSome
  maxObjSize : settings.value.maxObjSize.isSome
  maxDepth : settings.value.maxDepth.isSome
  map : options.value.map.isSome

theorem exists_prepare_iff :
    (∃ search, prepare options settings areas = .ok search) ↔
      Configured options settings areas := by
  constructor
  · intro h
    obtain ⟨search, hprepare⟩ := h
    obtain ⟨-, -, hparams, hmap⟩ := prepare_eq_ok hprepare
    obtain ⟨target, alignment, size, depth⟩ := PointerScanOptions.exists_params_iff.1 ⟨_, hparams⟩
    rw [prepare] at hprepare
    obtain ⟨o, hoptions, hprepare⟩ := exists_of_bind_eq_ok hprepare
    obtain ⟨ps, hsettings, hprepare⟩ := exists_of_bind_eq_ok hprepare
    obtain ⟨a, hareas, -⟩ := exists_of_bind_eq_ok hprepare
    exact ⟨Guarded.exists_get_iff.1 ⟨o, hoptions⟩, Guarded.exists_get_iff.1 ⟨ps, hsettings⟩,
      Guarded.exists_get_iff.1 ⟨a, hareas⟩, target, alignment, size, depth,
      Option.isSome_of_mem hmap⟩
  · intro h
    obtain ⟨params, hparams⟩ :=
      PointerScanOptions.exists_params_iff.2 ⟨h.target, h.alignment, h.maxObjSize, h.maxDepth⟩
    obtain ⟨map, hmap⟩ := Option.isSome_iff_exists.1 h.map
    refine ⟨⟨options.value, params, areas.value, map⟩, ?_⟩
    rw [prepare, Guarded.get_of_isFree h.freeOptions,
      Guarded.get_of_isFree h.freeSettings, Guarded.get_of_isFree h.freeAreas]
    show (settings.value.params >>= fun params => options.value.getMap >>= fun map =>
      .ok (Search.mk options.value params areas.value map)) = _
    rw [hparams, Options.getMap, hmap]
    rfl

/-! ### Failures -/

/-- What fails before the settings are all there leaves everything as it was. -/
theorem scan_of_prepare_eq_error (h : prepare options settings areas = .error cause) :
    scan.scan options settings areas pool read = (.error cause, scan, pool) := by
  rw [PointerScan.scan, h]

/-- What fails later leaves no results. -/
theorem isIdle_of_prepare_eq_ok (h : prepare options settings areas = .ok search)
    (hfail : (scan.scan options settings areas pool read).1 = .error cause) :
    (scan.scan options settings areas pool read).2.1.IsIdle := by
  rw [PointerScan.scan, h] at hfail ⊢
  cases hroot : search.rootTree with
  | error cause =>
    simp only [hroot]
    exact scan.isIdle_reset
  | ok root =>
    simp only [hroot] at hfail ⊢
    split
    · exact isIdle_empty _
    · rename_i tree after hgrow
      rw [hgrow] at hfail
      cases hflatten : tree.flatten search.map with
      | error cause => exact isIdle_empty _
      | ok chains =>
        simp only [hflatten] at hfail
        cases hfail

/-- **A scan that fails is left idle exactly if it was configured, or idle before.**  One that was
not configured keeps the results that it had. -/
theorem scan_isIdle_iff (hfail : (scan.scan options settings areas pool read).1 = .error cause) :
    ((scan.scan options settings areas pool read).2.1.IsIdle ↔
      Configured options settings areas ∨ scan.IsIdle) ∧
    (¬Configured options settings areas →
      scan.scan options settings areas pool read = (.error cause, scan, pool)) := by
  by_cases hconfigured : Configured options settings areas
  · obtain ⟨search, hprepare⟩ := exists_prepare_iff.2 hconfigured
    have hidle := isIdle_of_prepare_eq_ok hprepare hfail
    simp [hconfigured, hidle]
  · have hkept : scan.scan options settings areas pool read = (.error cause, scan, pool) := by
      cases hprepare : prepare options settings areas with
      | ok search => exact absurd (exists_prepare_iff.1 ⟨search, hprepare⟩) hconfigured
      | error first =>
        rw [scan_of_prepare_eq_error hprepare] at hfail ⊢
        cases hfail
        rfl
    simp [hconfigured, hkept]

/-- A scan with a chain of unknown origin, as after loading one. -/
def loaded : PointerScan := ({} : PointerScan).setChains (ChainTable.empty.push "a" none [1])

/-- The loaded scan is started with nothing configured. -/
def unconfigured : Except Error Unit × PointerScan × Pool Unit :=
  loaded.scan { name := "options", value := {} } { name := "pointer scan options", value := {} }
    { name := "area set", value := {} } .twoWorkers fun _ => Image.onePointer.reader

theorem scan_isIdle_iff_unconfigured :
    unconfigured.1 = .error (.missingOption .target) ∧
    (unconfigured.2.1.IsIdle ↔
      Configured { name := "options", value := {} } { name := "pointer scan options", value := {} }
        { name := "area set", value := {} } ∨ loaded.IsIdle) ∧
    (¬Configured { name := "options", value := {} }
        { name := "pointer scan options", value := {} } { name := "area set", value := {} } →
      unconfigured = (.error (.missingOption .target), loaded, .twoWorkers)) := by
  have hfail : unconfigured.1 = .error (.missingOption .target) := by decide
  exact ⟨hfail, scan_isIdle_iff hfail⟩

/-- It fails, and the loaded chain stays. -/
theorem unconfigured_not_isIdle :
    unconfigured.1 = .error (.missingOption .target) ∧ unconfigured.2.1.state = .flattened ∧
      unconfigured.2.1.chains.size = 1 ∧ ¬unconfigured.2.1.IsIdle := by
  refine ⟨by decide, by decide, by decide +kernel, ?_⟩
  intro h
  cases h.state

end PointerScan

end PointerChains
