import Mathlib
import PointerChains.Options.PointerScan
import PointerChains.Proofs.Pool.Setup

/-!
# Settings of a pointer scan under changes

A setter takes a value or refuses it, and a refusal leaves all settings as they are.  The largest
distance and the preset offsets bound each other, and either may come first or be changed again; so
each of the two setters looks at what the other has set.

* `PointerScanOptions.setAlignment_cases` and its like — what a setter takes, and what it leaves;
* `PointerScanOptions.change` — a call of any setter, with the settings afterwards;
* `PointerScanOptions.answers` — an admitted value is set, and any other is refused;
* `PointerScanOptions.Valid.change` — one call keeps the settings valid;
* `PointerScanOptions.valid_run` — **settings are valid after any calls, and so are the parameters
  that a scan takes from them.**
-/

namespace PointerChains

namespace PointerScanOptions

variable {o o' : PointerScanOptions}

/-! ### Presets by depth -/

/-- The offset required at a depth, if there is one. -/
def preset? (o : PointerScanOptions) (depth : Nat) : Option UInt64 := o.presets[depth]?.join

/-- A placed preset is found at its depth, and the others where they were. -/
theorem join_of_placePreset? {presets placed : List (Option UInt64)} {depth : Nat}
    {offset : Option UInt64} (h : placePreset? presets depth offset = some placed) (e : Nat) :
    placed[e]?.join = if e = depth then offset else presets[e]?.join := by
  rw [placePreset?] at h
  split at h
  · cases h
    rw [List.getElem?_set]
    by_cases heq : e = depth
    · subst heq
      have hlt : e < (presets ++ List.replicate (e + 1 - presets.length) none).length := by
        rw [List.length_append, List.length_replicate]
        omega
      rw [if_pos rfl, if_pos rfl, if_pos hlt, Option.join_some]
    · rw [if_neg (Ne.symm heq), if_neg heq]
      rcases Nat.lt_or_ge e presets.length with hlt | hge
      · rw [List.getElem?_append_left hlt]
      · -- behind the presets there are only entries made for want of one
        rw [List.getElem?_append_right hge, List.getElem?_eq_none hge, List.getElem?_replicate]
        split <;> rfl
  · cases h

theorem placePreset?_eq_none_iff {presets : List (Option UInt64)} {depth : Nat}
    {offset : Option UInt64} : placePreset? presets depth offset = none ↔
      presets.length ≤ depth ∧ largestPresetCount ≤ depth := by
  rw [placePreset?]
  split
  · rename_i hfits
    simp only [reduceCtorEq, false_iff]
    omega
  · rename_i hlarge
    simp only [true_iff]
    omega

theorem presetAbove?_eq_none_iff {size : UInt64} :
    o.presetAbove? size = none ↔ ∀ depth x, o.preset? depth = some x → x ≤ size := by
  simp only [presetAbove?, List.find?_eq_none, decide_eq_true_eq, UInt64.not_lt,
    List.mem_filterMap, id_eq, exists_eq_right, preset?, Option.join_eq_some_iff]
  constructor
  · intro h depth x hx
    exact h x (List.mem_of_getElem? hx)
  · intro h x hx
    obtain ⟨depth, hdepth⟩ := List.mem_iff_getElem?.1 hx
    exact h depth x hdepth

/-! ### What each setter takes -/

theorem setAlignment_cases (o : PointerScanOptions) (n : Nat) :
    (isPowerOfTwo n ∧ o.setAlignment n = (.ok (), { o with alignment := some n })) ∨
      (¬isPowerOfTwo n ∧ ∃ cause, o.setAlignment n = (.error cause, o)) := by
  rw [setAlignment]
  by_cases hpower : isPowerOfTwo n
  · exact .inl ⟨hpower, if_pos hpower⟩
  · exact .inr ⟨hpower, _, if_neg hpower⟩

theorem setMaxObjSize_cases (o : PointerScanOptions) (size : UInt64) :
    ((0 < size ∧ ∀ depth x, o.preset? depth = some x → x ≤ size) ∧
        o.setMaxObjSize size = (.ok (), { o with maxObjSize := some size })) ∨
      (¬(0 < size ∧ ∀ depth x, o.preset? depth = some x → x ≤ size) ∧
        ∃ cause, o.setMaxObjSize size = (.error cause, o)) := by
  rw [setMaxObjSize, ← presetAbove?_eq_none_iff, UInt64.pos_iff_ne_zero]
  by_cases hzero : size = 0
  · exact .inr ⟨fun h => h.1 hzero, _, if_pos hzero⟩
  · rw [if_neg hzero]
    cases o.presetAbove? size with
    | none => exact .inl ⟨⟨hzero, rfl⟩, rfl⟩
    | some offset => exact .inr ⟨fun h => Option.some_ne_none offset h.2, _, rfl⟩

theorem setMaxDepth_cases (o : PointerScanOptions) (depth : Nat) :
    (2 ≤ depth ∧ o.setMaxDepth depth = (.ok (), { o with maxDepth := some depth })) ∨
      (¬2 ≤ depth ∧ ∃ cause, o.setMaxDepth depth = (.error cause, o)) := by
  rw [setMaxDepth]
  by_cases hlt : depth < 2
  · exact .inr ⟨Nat.not_le.2 hlt, _, if_pos hlt⟩
  · exact .inl ⟨Nat.le_of_not_lt hlt, if_neg hlt⟩

/-- An offset that may be set at a depth is on its way to be put there, and any other is refused. -/
theorem setPreset_cases (o : PointerScanOptions) (depth : Nat) (offset : Option UInt64) :
    ((0 < depth ∧ ∀ x size, offset = some x → o.maxObjSize = some size → x ≤ size) ∧
        o.setPreset depth offset = o.putPreset depth offset) ∨
      (¬(0 < depth ∧ ∀ x size, offset = some x → o.maxObjSize = some size → x ≤ size) ∧
        ∃ cause, o.setPreset depth offset = (some (.error cause), o)) := by
  unfold setPreset
  by_cases hzero : depth = 0
  · exact .inr ⟨fun h => Nat.ne_of_gt h.1 hzero, _, if_pos hzero⟩
  · have hpos : 0 < depth := Nat.pos_of_ne_zero hzero
    rw [if_neg hzero]
    cases offset with
    | none => exact .inl ⟨⟨hpos, nofun⟩, rfl⟩
    | some x =>
      cases hsize : o.maxObjSize with
      | none => exact .inl ⟨⟨hpos, nofun⟩, rfl⟩
      | some size =>
        by_cases hlt : size < x
        · refine .inr ⟨?_, _, if_pos hlt⟩
          intro h
          exact UInt64.not_le.2 hlt (h.2 x size rfl rfl)
        · refine .inl ⟨⟨hpos, ?_⟩, if_neg hlt⟩
          intro y size' hy hsize'
          cases hy
          cases hsize'
          exact UInt64.not_lt.1 hlt

/-- The required settings are taken as they are. -/
theorem params_eq_ok {p : PointerScanParams} (h : o.params = .ok p) :
    o.target = some p.target ∧ o.alignment = some p.alignment ∧
      o.maxObjSize = some p.maxObjSize ∧ o.maxDepth = some p.maxDepth ∧
      p.smartScan = o.smartScan ∧ p.presets = o.presets := by
  rw [params] at h
  obtain ⟨target, htarget, h⟩ := exists_of_bind_eq_ok h
  obtain ⟨alignment, halignment, h⟩ := exists_of_bind_eq_ok h
  obtain ⟨size, hsize, h⟩ := exists_of_bind_eq_ok h
  obtain ⟨depth, hdepth, h⟩ := exists_of_bind_eq_ok h
  cases h
  exact ⟨Options.require_eq_ok htarget, Options.require_eq_ok halignment,
    Options.require_eq_ok hsize, Options.require_eq_ok hdepth, rfl, rfl⟩

/-! ### Calls of setters -/

/-- A call of a setter. -/
inductive Change where
  | target (target : Address)
  | alignment (alignment : Nat)
  | maxObjSize (size : UInt64)
  | maxDepth (depth : Nat)
  | smartScan (smart : Bool)
  | preset (depth : Nat) (offset : Option UInt64)
  | staticAreas (areas : Option (List RegionId))

/-- The answer to a call, which is missing if the call breaks down, and the settings after it. -/
def change (o : PointerScanOptions) : Change → Option (Except Error Unit) × PointerScanOptions
  | .target target => (some (.ok ()), { o with target := some target })
  | .alignment alignment => (o.setAlignment alignment).map some id
  | .maxObjSize size => (o.setMaxObjSize size).map some id
  | .maxDepth depth => (o.setMaxDepth depth).map some id
  | .smartScan smart => (some (.ok ()), { o with smartScan := smart })
  | .preset depth offset => o.setPreset depth offset
  | .staticAreas areas => (some (.ok ()), o.setStaticAreas areas)

/-- The settings after calls on the defaults. -/
def run (changes : List Change) : PointerScanOptions :=
  changes.foldl (fun o c => (o.change c).2) {}

/-- The values that may be set. -/
def Admits (o : PointerScanOptions) : Change → Prop
  | .alignment alignment => ∃ k, alignment = 2 ^ k
  | .maxObjSize size => 0 < size ∧ ∀ depth x, o.preset? depth = some x → x ≤ size
  | .maxDepth depth => 2 ≤ depth
  | .preset depth offset =>
    0 < depth ∧ ∀ x size, offset = some x → o.maxObjSize = some size → x ≤ size
  | .target _ | .smartScan _ | .staticAreas _ => True

/-- The second settings are the first ones but for the value that was to be set. -/
def Sets (o : PointerScanOptions) (c : Change) (o' : PointerScanOptions) : Prop :=
  match c with
  | .target target => o' = { o with target := some target }
  | .alignment alignment => o' = { o with alignment := some alignment }
  | .maxObjSize size => o' = { o with maxObjSize := some size }
  | .maxDepth depth => o' = { o with maxDepth := some depth }
  | .smartScan smart => o' = { o with smartScan := smart }
  | .preset depth offset => o' = { o with presets := o'.presets } ∧
      ∀ e, o'.preset? e = if e = depth then offset else o.preset? e
  | .staticAreas areas => o' = { o with staticAreas := o'.staticAreas } ∧
      ∀ id, (∃ ids, o'.staticAreas = some ids ∧ id ∈ ids) ↔ ∃ ids, areas = some ids ∧ id ∈ ids

/-- There is no list with room for what was to be set. -/
def Overruns (o : PointerScanOptions) : Change → Prop
  | .preset depth _ => o.presets.length ≤ depth ∧ largestPresetCount ≤ depth
  | _ => False

/-- A call does what it may, is refused, or breaks down for want of room. -/
def Answers (o : PointerScanOptions) (c : Change) : Prop :=
  (o.Admits c ∧ ¬o.Overruns c ∧ ∃ o', o.change c = (some (.ok ()), o') ∧ o.Sets c o') ∨
  (¬o.Admits c ∧ ∃ cause, o.change c = (some (.error cause), o)) ∨
  (o.Admits c ∧ o.Overruns c ∧ o.change c = (none, o))

/-- A value that may be set is set and leaves the rest; any other is refused and changes nothing.
Nor does a call that breaks down. -/
theorem answers (o : PointerScanOptions) (c : Change) : o.Answers c := by
  cases c with
  | target target => exact .inl ⟨trivial, not_false, _, rfl, rfl⟩
  | smartScan smart => exact .inl ⟨trivial, not_false, _, rfl, rfl⟩
  | alignment n =>
    rcases o.setAlignment_cases n with ⟨hpower, hset⟩ | ⟨hpower, cause, hset⟩
    · exact .inl ⟨isPowerOfTwo_iff.1 hpower, not_false, _, by rw [change, hset]; rfl, rfl⟩
    · exact .inr (.inl ⟨fun h => hpower (isPowerOfTwo_iff.2 h), cause, by rw [change, hset]; rfl⟩)
  | maxObjSize size =>
    rcases o.setMaxObjSize_cases size with ⟨hadmits, hset⟩ | ⟨hadmits, cause, hset⟩
    · exact .inl ⟨hadmits, not_false, _, by rw [change, hset]; rfl, rfl⟩
    · exact .inr (.inl ⟨hadmits, cause, by rw [change, hset]; rfl⟩)
  | maxDepth depth =>
    rcases o.setMaxDepth_cases depth with ⟨hadmits, hset⟩ | ⟨hadmits, cause, hset⟩
    · exact .inl ⟨hadmits, not_false, _, by rw [change, hset]; rfl, rfl⟩
    · exact .inr (.inl ⟨hadmits, cause, by rw [change, hset]; rfl⟩)
  | preset depth offset =>
    rcases o.setPreset_cases depth offset with ⟨hadmits, hset⟩ | ⟨hadmits, cause, hset⟩
    · cases hplaced : placePreset? o.presets depth offset with
      | none =>
        have hroom := placePreset?_eq_none_iff.1 hplaced
        exact .inr (.inr ⟨hadmits, hroom, by rw [change, hset, putPreset, hplaced]⟩)
      | some placed =>
        have hroom : ¬(o.presets.length ≤ depth ∧ largestPresetCount ≤ depth) := by
          intro hroom
          rw [placePreset?_eq_none_iff.2 hroom] at hplaced
          cases hplaced
        refine .inl ⟨hadmits, hroom, _, by rw [change, hset, putPreset, hplaced], rfl, ?_⟩
        exact fun e => join_of_placePreset? hplaced e
    · exact .inr (.inl ⟨hadmits, cause, hset⟩)
  | staticAreas areas =>
    refine .inl ⟨trivial, not_false, _, rfl, rfl, ?_⟩
    intro id
    cases areas with
    | none => simp [setStaticAreas]
    | some ids => simp [setStaticAreas]

/-! ### Valid settings -/

/-- What is set is within its bounds, and a largest distance bounds the presets of all depths. -/
structure Valid (o : PointerScanOptions) : Prop where
  alignment : ∀ n, o.alignment = some n → ∃ k, n = 2 ^ k
  maxObjSize : ∀ size, o.maxObjSize = some size → 0 < size
  maxDepth : ∀ depth, o.maxDepth = some depth → 2 ≤ depth
  preset_zero : o.preset? 0 = none
  preset_le : ∀ size, o.maxObjSize = some size → ∀ depth x, o.preset? depth = some x → x ≤ size

theorem valid_default : Valid {} where
  alignment := nofun
  maxObjSize := nofun
  maxDepth := nofun
  preset_zero := rfl
  preset_le := nofun

/-- A value that may be set leaves the settings valid. -/
theorem Valid.sets {c : Change} (h : o.Valid) (hadmits : o.Admits c) (hsets : o.Sets c o') :
    o'.Valid := by
  cases c with
  | target target =>
    cases hsets
    exact { h with }
  | alignment n =>
    cases hsets
    refine { h with alignment := ?_ }
    intro n' hn
    cases hn
    exact hadmits
  | maxObjSize size =>
    cases hsets
    refine { h with maxObjSize := ?_, preset_le := ?_ }
    · intro size' hsize
      cases hsize
      exact hadmits.1
    · intro size' hsize
      cases hsize
      exact hadmits.2
  | maxDepth depth =>
    cases hsets
    refine { h with maxDepth := ?_ }
    intro depth' hdepth
    cases hdepth
    exact hadmits
  | smartScan smart =>
    cases hsets
    exact { h with }
  | preset depth offset =>
    obtain ⟨hrest, hpreset⟩ := hsets
    obtain ⟨hpos, hle⟩ := hadmits
    have halign : o'.alignment = o.alignment := by rw [hrest]
    have hsize : o'.maxObjSize = o.maxObjSize := by rw [hrest]
    have hdepth : o'.maxDepth = o.maxDepth := by rw [hrest]
    refine ⟨by rw [halign]; exact h.alignment, by rw [hsize]; exact h.maxObjSize,
      by rw [hdepth]; exact h.maxDepth, ?_, ?_⟩
    · rw [hpreset, if_neg (Nat.ne_of_lt hpos)]
      exact h.preset_zero
    · intro size hsome e x hx
      rw [hsize] at hsome
      rw [hpreset] at hx
      split at hx
      · exact hle x size hx hsome
      · exact h.preset_le size hsome e x hx
  | staticAreas areas =>
    obtain ⟨hrest, -⟩ := hsets
    rw [hrest]
    exact { h with }

/-- One call keeps the settings valid. -/
theorem Valid.change (h : o.Valid) (c : Change) : (o.change c).2.Valid := by
  rcases o.answers c with ⟨hadmits, -, o', hchange, hsets⟩ | ⟨-, cause, hchange⟩ | ⟨-, -, hchange⟩
  · rw [hchange]
    exact h.sets hadmits hsets
  · rw [hchange]
    exact h
  · rw [hchange]
    exact h

theorem Valid.run (changes : List Change) : (PointerScanOptions.run changes).Valid := by
  induction changes using List.reverseRecOn with
  | nil => exact valid_default
  | append_singleton changes c ih =>
    rw [PointerScanOptions.run, List.foldl_append]
    exact ih.change c

end PointerScanOptions

/-- The parameters of a scan are within their bounds, and the presets within the largest
distance. -/
structure PointerScanParams.Valid (p : PointerScanParams) : Prop where
  alignment : ∃ k, p.alignment = 2 ^ k
  maxObjSize : 0 < p.maxObjSize
  maxDepth : 2 ≤ p.maxDepth
  preset_zero : p.preset? 0 = none
  preset_le : ∀ depth x, p.preset? depth = some x → x ≤ p.maxObjSize

namespace PointerScanOptions

variable {o : PointerScanOptions}

theorem Valid.params {p : PointerScanParams} (h : o.Valid) (hparams : o.params = .ok p) :
    p.Valid := by
  obtain ⟨-, halignment, hsize, hdepth, -, hpresets⟩ := params_eq_ok hparams
  have hpreset : p.preset? = o.preset? := by
    funext depth
    rw [PointerScanParams.preset?, preset?, hpresets]
  exact {
    alignment := h.alignment _ halignment
    maxObjSize := h.maxObjSize _ hsize
    maxDepth := h.maxDepth _ hdepth
    preset_zero := by rw [hpreset]; exact h.preset_zero
    preset_le := by rw [hpreset]; exact h.preset_le _ hsize }

/-- **Settings are valid after any calls of setters, and so are the parameters that a scan takes
from them.**  Of each further call the value is set if it may be and there is room for it, and
refused without any change if it may not be. -/
theorem valid_run (changes : List Change) :
    (run changes).Valid ∧
    (∀ p, (run changes).params = .ok p → p.Valid ∧
      (run changes).target = some p.target ∧ (run changes).alignment = some p.alignment ∧
      (run changes).maxObjSize = some p.maxObjSize ∧ (run changes).maxDepth = some p.maxDepth ∧
      p.smartScan = (run changes).smartScan ∧ p.preset? = (run changes).preset?) ∧
    ∀ c, (run changes).Answers c := by
  have hvalid : (run changes).Valid := Valid.run changes
  refine ⟨hvalid, ?_, (run changes).answers⟩
  intro p hparams
  obtain ⟨htarget, halignment, hsize, hdepth, hsmart, hpresets⟩ := params_eq_ok hparams
  refine ⟨hvalid.params hparams, htarget, halignment, hsize, hdepth, hsmart, ?_⟩
  funext depth
  rw [PointerScanParams.preset?, preset?, hpresets]

/-- A preset before there is a largest distance, one distance below it, one above it, a preset above
that one, and the other settings, one alignment among them that is no power of two. -/
def mixedChanges : List Change :=
  [.preset 2 (some 0x10), .maxObjSize 0x8, .maxObjSize 0x20, .preset 1 (some 0x40), .alignment 8,
    .alignment 12, .maxDepth 3, .target (.ofNat 0x1000)]

theorem valid_run_mixedChanges :
    (run mixedChanges).params =
      .ok ⟨.ofNat 0x1000, 8, 0x20, 3, false, [none, none, some 0x10]⟩ ∧
    PointerScanParams.Valid ⟨.ofNat 0x1000, 8, 0x20, 3, false, [none, none, some 0x10]⟩ ∧
    ∃ cause, (run mixedChanges).change (.maxObjSize 0xF) =
      (some (.error cause), run mixedChanges) := by
  have hparams : (run mixedChanges).params =
      .ok ⟨.ofNat 0x1000, 8, 0x20, 3, false, [none, none, some 0x10]⟩ := by cbv
  have hpreset : (run mixedChanges).preset? 2 = some 0x10 := by cbv
  obtain ⟨-, hvalid, hcases⟩ := valid_run mixedChanges
  refine ⟨hparams, (hvalid _ hparams).1, ?_⟩
  rcases hcases (.maxObjSize 0xF) with ⟨⟨-, hle⟩, -⟩ | ⟨-, hrefused⟩ | ⟨-, hover, -⟩
  · exact absurd (hle 2 0x10 hpreset) (by decide)
  · exact hrefused
  · exact hover.elim

end PointerScanOptions

end PointerChains
