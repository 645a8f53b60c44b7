import PointerChains.Options.Guarded
import PointerChains.Pool.Basic
import PointerChains.Scan.Flatten
import PointerChains.Scan.Matcher

/-!
# Pointer scans

A scan starts with the target, and finds level by level the places whose pointers lead to the
level before.  The places that objects own make the chains.

* `PointerScan`, `PointerScan.reset`, `PointerScan.setChains`;
* `PointerScan.scan` — searches, and leaves the tree and the chains, or nothing if it fails on the
  way;
* `PointerScan.verify` — keeps the chains that still lead to the target.
-/

namespace PointerChains

variable {ρ : Type}

/-- What a scan has to show. -/
inductive ScanState where
  | idle
  | flattened
  /-- Chains that were found to lead to the target. -/
  | verified
  deriving DecidableEq, Repr, Inhabited

/-- The results of a scan. -/
structure PointerScan where
  tree : Tree := .empty 0
  chains : ChainTable := .empty
  state : ScanState := .idle
  deriving DecidableEq, Repr, Inhabited

/-- What a search needs to know, once everything is there. -/
structure Search where
  options : Options
  /-- What to look for. -/
  params : PointerScanParams
  /-- Where to look. -/
  areas : AreaSet
  map : MemoryMap

namespace Search

/-- What counts as a match at the level in the making. -/
def matcher (s : Search) (level : LevelBuilder) : Matcher :=
  { level, width := s.options.width, maxObjSize := s.params.maxObjSize,
    preset := s.params.preset? level.depth, smartScan := s.params.smartScan }

/-- A pass for a level, whose candidates are collected. -/
def collectLevel (s : Search) (pool : Pool ρ) (read : ρ → Reader) (level : LevelBuilder) :
    Except Error LevelBuilder × Pool ρ :=
  let step := s.params.alignment
  match pool.setup s.options s.areas (fun _ => .advance step) step {} with
  | (.error cause, pool) => (.error cause, pool)
  | (.ok (), pool) =>
    let (pass, pool) := pool.runPass read
    (pass.result.map fun _ => level.flush (pass.logs.flatMap (s.matcher level).collect), pool)

/-- Adds so many levels, from the given depth on, as long as there are nodes to extend. -/
def grow (s : Search) (read : ρ → Reader) (t : Tree) (pool : Pool ρ) (depth : Nat) :
    (levels : Nat) → Except Error Tree × Pool ρ
  | 0 => (.ok t, pool)
  | levels + 1 =>
    match t.levelBuilder depth with
    | .error cause => (.error cause, pool)
    | .ok level =>
      if level.previous.isEmpty then (.ok t, pool)
      else
        match s.collectLevel pool read level with
        | (.error cause, pool) => (.error cause, pool)
        | (.ok level, pool) =>
          match t.commit level with
          | (.error cause, _, _) => (.error cause, pool)
          | (.ok _, t, _) => s.grow read t pool (depth + 1) levels

/-- The tree that stands for the target alone. -/
def rootTree (s : Search) : Except Error Tree :=
  match s.map.findRegion? s.params.target with
  | none => .error (.targetNotMapped s.params.target)
  | some region =>
    match (Tree.empty s.params.maxDepth).addNode none region.id s.params.target .null 0 with
    | (.error cause, _) => .error cause
    | (.ok _, t) => .ok t

end Search

namespace PointerScan

/-- The scan without its results. -/
def reset (s : PointerScan) : PointerScan := { tree := s.tree.reset }

/-- The scan with other chains, such as loaded ones. -/
def setChains (s : PointerScan) (chains : ChainTable) : PointerScan :=
  { tree := s.tree.reset, chains, state := .flattened }

/-- What a search needs to know, from settings that are not in use by others. -/
def prepare (options : Guarded Options) (pointerScan : Guarded PointerScanOptions)
    (areas : Guarded AreaSet) : Except Error Search := do
  let options ← options.get
  let pointerScan ← pointerScan.get
  let areas ← areas.get
  let params ← pointerScan.params
  let map ← options.getMap
  return { options, params, areas, map }

/-- Searches for chains to the target.  Earlier results are discarded once all settings are found
to be there; from then on a failure leaves no results. -/
def scan (s : PointerScan) (options : Guarded Options) (pointerScan : Guarded PointerScanOptions)
    (areas : Guarded AreaSet) (pool : Pool ρ) (read : ρ → Reader) :
    Except Error Unit × PointerScan × Pool ρ :=
  match prepare options pointerScan areas with
  | .error cause => (.error cause, s, pool)
  | .ok search =>
    match search.rootTree with
    | .error cause => (.error cause, s.reset, pool)
    | .ok root =>
      match search.grow read root pool 1 (search.params.maxDepth - 1) with
      | (.error cause, pool) => (.error cause, { tree := .empty search.params.maxDepth }, pool)
      | (.ok tree, pool) =>
        match tree.flatten search.map with
        | .error cause => (.error cause, { tree := .empty search.params.maxDepth }, pool)
        | .ok chains => (.ok (), { tree, chains, state := .flattened }, pool)

/-! ### Verification -/

/-- The bases of the objects that chains start at, which are counted from `n`.  All of them must
start at an object of the map. -/
def bases (m : MemoryMap) (n : Nat) : List Chain → Except Error (List Address)
  | [] => .ok []
  | c :: rest =>
    match c.object.bind m.object? with
    | none => .error (.unresolvedChain n)
    | some object => do
      let others ← bases m (n + 1) rest
      return object.base :: others

/-- Whether a walk from the base leads to the target. -/
def arrives (read : Reader) (w : PointerWidth) (target : Address) (c : Chain) (base : Address) :
    Bool :=
  match walk read w base c.offsets with
  | .ok a => a == target
  | .error _ => false

/-- The target, the map and the pointer width, if the settings are not in use by others. -/
def prepareVerify (options : Guarded Options) (pointerScan : Guarded PointerScanOptions) :
    Except Error (Address × MemoryMap × PointerWidth) := do
  let options ← options.get
  let pointerScan ← pointerScan.get
  let target ← Options.require .target pointerScan.target
  let map ← options.getMap
  return (target, map, options.width)

/-- Keeps the chains that lead to the target.  All of them are walked before the first is dropped,
and the answers are then gone through in step with the chains. -/
def verify (s : PointerScan) (read : Reader) (options : Guarded Options)
    (pointerScan : Guarded PointerScanOptions) : Except Error Unit × PointerScan :=
  match prepareVerify options pointerScan with
  | .error cause => (.error cause, s)
  | .ok (target, map, width) =>
    match bases map 0 s.chains.chains.toList with
    | .error cause => (.error cause, s)
    | .ok bases =>
      let keep := (s.chains.chains.toList.zip bases).map fun (c, base) =>
        arrives read width target c base
      let chains := s.chains.retainFrom keep fun keep _ => (keep.head?.getD false, keep.tail)
      (.ok (), { s with chains, state := .verified })

end PointerScan

end PointerChains
