import PointerChains.Proofs.Chain.Saving
import PointerChains.Proofs.Scan.Verification

/-!
# Verifications with another map

A chain has the pathname of its object and the position that the object had in the map that the
chain was resolved in.  A verification goes by the position.  In another map, such as a later one of
the same process, there can be another object at that position, and then the chain is walked from
the base of that one.

* `PointerScan.Resolved` — scans and loads that resolved their chains in a map;
* `Chain.LeadsFrom` — from a base a chain leads to the target;
* `PointerScan.verify_by_position` — **a chain is kept just if it leads to the target from the base
  of the object at its position, which is the object that it names only if the pathnames agree.**
-/

namespace PointerChains

variable {m now : MemoryMap} {t : ChainTable} {read : Reader} {w : PointerWidth} {target : Address}

/-! ### Chains that were resolved -/

theorem ChainTable.ResolvedIn.retain (h : t.ResolvedIn m) (p : Chain → Bool) :
    (t.retain p).ResolvedIn m := by
  rw [ChainTable.retain_eq]
  intro c hc
  exact h c (Array.mem_filter.1 hc).1

/-- What is loaded with the objects looked up is resolved in the map of the options. -/
theorem FileStore.resolvedIn_of_load {store : FileStore} {o : Options} (hmap : o.map = some m)
    (h : store.load o false = .ok t) : t.ResolvedIn m := by
  obtain ⟨name, bytes, found, -, hfound, -, hdecode⟩ := FileStore.load_eq_ok h
  rw [hmap] at hfound
  rw [← hfound rfl] at hdecode
  rw [Format.decode_eq] at hdecode
  obtain ⟨stored, -, hstored⟩ := exists_of_bind_eq_ok hdecode
  cases hstored
  exact (stored.resolvedIn_toTable m).2

namespace PointerScan

variable {options : Guarded Options} {settings : Guarded PointerScanOptions}

/-- The scans whose chains were resolved in a map: by a search, by a load, or before verifications
with whatever map. -/
inductive Resolved (m : MemoryMap) : PointerScan → Prop where
  | scan {ρ : Type} (s : PointerScan) (options : Guarded Options)
      (settings : Guarded PointerScanOptions) (areas : Guarded AreaSet) (pool : Pool ρ)
      (read : ρ → Reader) :
      options.value.map = some m → (s.scan options settings areas pool read).1 = .ok () →
      Resolved m (s.scan options settings areas pool read).2.1
  | load (s : PointerScan) (store : FileStore) (o : Options) (t : ChainTable) :
      o.map = some m → store.load o false = .ok t → Resolved m (s.setChains t)
  | verify {s : PointerScan} (read : Reader) (options : Guarded Options)
      (settings : Guarded PointerScanOptions) :
      Resolved m s → Resolved m (s.verify read options settings).2

/-- A verification keeps some of the chains. -/
theorem chains_verify (s : PointerScan) (read : Reader) (options : Guarded Options)
    (settings : Guarded PointerScanOptions) :
    ∃ p, (s.verify read options settings).2.chains = s.chains.retain p := by
  have hself : s.chains = s.chains.retain fun _ => true :=
    (ChainTable.retain_eq_self fun _ _ => rfl).symm
  rw [verify_eq]
  split
  · exact ⟨_, hself⟩
  · split
    · exact ⟨_, hself⟩
    · exact ⟨_, rfl⟩

/-- Each chain names an object of the map that it was resolved in, and has its position there. -/
theorem Resolved.resolvedIn {s : PointerScan} (h : s.Resolved m) (hm : m.Built) :
    s.chains.ResolvedIn m := by
  induction h with
  | scan s options settings areas pool read hmap hok =>
    obtain ⟨search, root, tree, after, chains, hprepare, -, -, hflatten, heq⟩ := scan_cases hok
    obtain ⟨-, -, -, hsame⟩ := prepare_eq_ok hprepare
    rw [hmap, Option.some.injEq] at hsame
    rw [← hsame] at hflatten
    rw [heq]
    exact (Tree.resolvedIn_of_flatten hm hflatten).2
  | load s store o t hmap hload => exact FileStore.resolvedIn_of_load hmap hload
  | verify read options settings _ ih =>
    obtain ⟨p, hp⟩ := chains_verify _ read options settings
    rw [hp]
    exact ih.retain p

end PointerScan

/-! ### Walks from a base -/

/-- From the base the chain leads over its offsets to the target. -/
def Chain.LeadsFrom (c : Chain) (read : Reader) (w : PointerWidth) (base target : Address) : Prop :=
  ∃ first rest start, c.offsets = first :: rest ∧ start.toNat = base.toNat + first.toNat ∧
    read.Leads w start rest target

theorem Chain.leadsFrom_iff {c : Chain} {base : Address} :
    c.LeadsFrom read w base target ↔ walk read w base c.offsets = .ok target :=
  walk_eq_ok_iff.symm

theorem Chain.resolvesTo_iff {c : Chain} {id : ObjectId} {object : MappedObject}
    (hid : c.object = some id) (hobject : now.object? id = some object) :
    c.ResolvesTo read w now target ↔ c.LeadsFrom read w object.base target := by
  constructor
  · rintro ⟨id', object', first, rest, start, hid', hobject', hleads⟩
    rw [hid, Option.some.injEq] at hid'
    rw [← hid', hobject, Option.some.injEq] at hobject'
    rw [hobject']
    exact ⟨first, rest, start, hleads⟩
  · rintro ⟨first, rest, start, hleads⟩
    exact ⟨id, object, first, rest, start, hid, hobject, hleads⟩

/-- In a built map an object is the one that its pathname finds, and no other pathname does. -/
theorem MemoryMap.Built.findObject?_iff (h : now.Built) {id : ObjectId} {object : MappedObject}
    (hobject : now.object? id = some object) {pathname : String} :
    now.findObject? pathname = some object ↔ object.pathname = pathname := by
  constructor
  · intro hfind
    exact (h.findObject?_eq_some hfind).2
  · rintro rfl
    exact h.findObject?_pathname hobject

namespace PointerScan

variable {scan : PointerScan} {options : Guarded Options} {settings : Guarded PointerScanOptions}

/-- **A verification goes by the positions that objects had when the chains were resolved.**  It
fails if the map has fewer objects now.  If not, it keeps each chain just if the chain leads to the
target from the base of the object that is at its position now; that is the object that the chain
names if the pathnames agree, as they do in the map that the chains were resolved in, and another
one if they do not. -/
theorem verify_by_position (hscan : scan.Resolved m) (hm : m.Built) (hnow : now.Built)
    (hoptions : options.IsFree) (hsettings : settings.IsFree)
    (htarget : settings.value.target = some target) (hmap : options.value.map = some now) :
    (∃ n, (∃ c, scan.chains.chains[n]? = some c ∧ ¬c.StartsIn now) ∧
      scan.verify read options settings = (.error (.unresolvedChain n), scan)) ∨
    ∃ kept, scan.verify read options settings = (.ok (), kept) ∧
      kept.chains.pathnames = scan.chains.pathnames ∧
      (∀ c ∈ kept.chains.chains, c ∈ scan.chains.chains) ∧
      ∀ c ∈ scan.chains.chains, ∃ pathname named object,
        scan.chains.pathname? c = some pathname ∧ m.findObject? pathname = some named ∧
        c.object = some named.id ∧ now.object? named.id = some object ∧
        (c ∈ kept.chains.chains ↔
          c.LeadsFrom read options.value.width object.base target) ∧
        (now.findObject? pathname = some object ↔ object.pathname = pathname) ∧
        (now = m → object.pathname = pathname) := by
  obtain ⟨hfails, hkeeps⟩ : _ ∧ ((∀ c ∈ scan.chains.chains, c.StartsIn now) →
      scan.verify read options settings = _) :=
    verify_keeps hoptions hsettings htarget hmap
  by_cases hstart : ∀ c ∈ scan.chains.chains, c.StartsIn now
  · refine .inr ⟨_, hkeeps hstart, rfl, fun c hc => (Array.mem_filter.1 hc).1, ?_⟩
    intro c hc
    obtain ⟨pathname, named, hpathname, hfind, hid⟩ := hscan.resolvedIn hm c hc
    obtain ⟨id, hid', hlt⟩ := hstart c hc
    rw [hid, Option.some.injEq] at hid'
    subst hid'
    have hobject : now.object? named.id = some now.objects[named.id.index] :=
      Array.getElem?_eq_getElem hlt
    refine ⟨pathname, named, _, hpathname, hfind, hid, hobject, ?_,
      hnow.findObject?_iff hobject, ?_⟩
    · rw [← Chain.resolvesTo_iff hid hobject, Array.mem_filter, decide_eq_true_eq]
      exact and_iff_right hc
    · intro hsame
      have hnamed := (hm.findObject?_eq_some hfind).1
      rw [← hsame, hobject, Option.some.injEq] at hnamed
      subst hsame
      rw [← hnow.findObject?_iff hobject, hnamed]
      exact hfind
  · simp only [not_forall, exists_prop] at hstart
    obtain ⟨n, hfirst, -, hverify⟩ := hfails hstart
    exact .inl ⟨n, hfirst, hverify⟩

end PointerScan

/-- The same process later: an object was loaded where the other was, which has moved. -/
def MemoryMap.reloaded : MemoryMap where
  regions := #[⟨⟨0⟩, ⟨.ofNat 0x1000, .ofNat 0x1020⟩, .none, some ⟨0⟩⟩,
    ⟨⟨1⟩, ⟨.ofNat 0x2000, .ofNat 0x2010⟩, .none, none⟩,
    ⟨⟨2⟩, ⟨.ofNat 0x3000, .ofNat 0x3020⟩, .none, some ⟨1⟩⟩]
  objects := #[⟨⟨0⟩, "/bin/new", [⟨0⟩], .ofNat 0x1000⟩, ⟨⟨1⟩, "/bin/one", [⟨2⟩], .ofNat 0x3000⟩]

theorem MemoryMap.built_reloaded : MemoryMap.reloaded.Built :=
  ⟨[⟨⟨.ofNat 0x1000, .ofNat 0x1020⟩, .none, "/bin/new"⟩,
    ⟨⟨.ofNat 0x2000, .ofNat 0x2010⟩, .none, ""⟩,
    ⟨⟨.ofNat 0x3000, .ofNat 0x3020⟩, .none, "/bin/one"⟩], by cbv⟩

/-- The options of the scan with the map of the process later. -/
def Options.reloaded : Options := { Options.twoRegions with map := some .reloaded }

namespace PointerScan

theorem resolved_twoRegions : twoRegions.2.1.Resolved .twoRegions := by
  have hok : twoRegions.1 = .ok () := by cbv
  exact .scan {} _ _ _ _ _ rfl hok

theorem chains_twoRegions : twoRegions.2.1.chains = ⟨#["/bin/one"], #[⟨0, some ⟨0⟩, [8, 0]⟩]⟩ := by
  cbv

theorem verify_by_position_reloaded :
    (twoRegions.2.1.Resolved .twoRegions ∧ MemoryMap.twoRegions.Built ∧
      MemoryMap.reloaded.Built ∧
      ({ name := "options", value := .reloaded } : Guarded Options).IsFree ∧
      ({ name := "settings", value := .twoRegions } : Guarded PointerScanOptions).IsFree ∧
      PointerScanOptions.twoRegions.target = some (.ofNat 0x2000) ∧
      Options.reloaded.map = some .reloaded) ∧
    ((∃ n, (∃ c, twoRegions.2.1.chains.chains[n]? = some c ∧ ¬c.StartsIn .reloaded) ∧
      twoRegions.2.1.verify Image.onePointer.reader { name := "options", value := .reloaded }
        { name := "settings", value := .twoRegions } =
          (.error (.unresolvedChain n), twoRegions.2.1)) ∨
    ∃ kept, twoRegions.2.1.verify Image.onePointer.reader { name := "options", value := .reloaded }
        { name := "settings", value := .twoRegions } = (.ok (), kept) ∧
      kept.chains.pathnames = #["/bin/one"]) := by
  have hoptions : ({ name := "options", value := .reloaded } : Guarded Options).IsFree :=
    Holders.noConfusion
  have hsettings :
      ({ name := "settings", value := .twoRegions } : Guarded PointerScanOptions).IsFree :=
    Holders.noConfusion
  refine ⟨⟨resolved_twoRegions, MemoryMap.built_twoRegions, MemoryMap.built_reloaded, hoptions,
    hsettings, rfl, rfl⟩, ?_⟩
  refine Or.imp_right ?_ (verify_by_position resolved_twoRegions MemoryMap.built_twoRegions
    MemoryMap.built_reloaded hoptions hsettings rfl rfl)
  rintro ⟨kept, hverify, hpathnames, -⟩
  exact ⟨kept, hverify, by rw [hpathnames, chains_twoRegions]⟩

/-- **A chain can be kept for the base of another object**: the object that it names has moved, and
from there the chain does not lead to the target. -/
theorem kept_elsewhere_reloaded :
    twoRegions.2.1.Resolved .twoRegions ∧ MemoryMap.reloaded.Built ∧
    ∃ kept, twoRegions.2.1.verify Image.onePointer.reader { name := "options", value := .reloaded }
        { name := "settings", value := .twoRegions } = (.ok (), kept) ∧
      ∃ c ∈ kept.chains.chains, kept.chains.pathname? c = some "/bin/one" ∧
        ∃ object, MemoryMap.reloaded.findObject? "/bin/one" = some object ∧
          ¬c.LeadsFrom Image.onePointer.reader .eight object.base (.ofNat 0x2000) := by
  have hleads : ∀ c ∈ twoRegions.2.1.chains.chains,
      leadsTo Image.onePointer.reader .eight .reloaded (.ofNat 0x2000) c = true := by
    intro c hc
    rw [chains_twoRegions] at hc
    rw [Array.mem_singleton.1 hc]
    decide +kernel
  have hnone : twoRegions.2.1.chains.chains.findIdx? (fun c => (base? .reloaded c).isNone) =
      none := by
    rw [chains_twoRegions]
    decide +kernel
  have hverify : twoRegions.2.1.verify Image.onePointer.reader
      { name := "options", value := .reloaded } { name := "settings", value := .twoRegions } =
        (.ok (), { twoRegions.2.1 with state := .verified }) := by
    rw [verify_eq, prepareVerify_eq_ok Holders.noConfusion Holders.noConfusion rfl rfl]
    simp only [hnone]
    exact congrArg
      (fun chains => (Except.ok (), { twoRegions.2.1 with chains, state := .verified }))
      (ChainTable.retain_eq_self hleads)
  refine ⟨resolved_twoRegions, MemoryMap.built_reloaded, _, hverify, ⟨0, some ⟨0⟩, [8, 0]⟩, ?_, ?_,
    _, rfl, ?_⟩
  · rw [chains_twoRegions]
    exact Array.mem_singleton.2 rfl
  · rw [chains_twoRegions]
    rfl
  · rw [Chain.leadsFrom_iff]
    decide +kernel

end PointerScan

end PointerChains
