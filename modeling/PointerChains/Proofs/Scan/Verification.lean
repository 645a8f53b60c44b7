import PointerChains.Proofs.Scan.Chains
import PointerChains.Proofs.Scan.Failure

/-!
# What a verification keeps

Where a chain leads is said by memory alone, one pointer after the other.  A walk that breaks off,
since a pointer cannot be read, is read in part or lies too far up for its offset, leads nowhere,
and so does a chain without offsets.

* `Reader.Leads` — memory leads from an address over offsets to another one;
* `follow_eq_ok_iff`, `walk_eq_ok_iff` — a walk arrives exactly where memory leads;
* `Chain.StartsIn`, `Chain.ResolvesTo` — a chain starts at an object of a map, and leads from its
  base to a target; both can be decided;
* `PointerScan.verify_keeps` — **a verification names the first chain that starts nowhere, or keeps
  just the chains that lead to the target.**
-/

namespace PointerChains

variable {read : Reader} {w : PointerWidth} {a target : Address} {offsets : List UInt64}

/-! ### Where memory leads -/

/-- At each address a whole pointer is read, and the sum of it and the next offset is an address,
which is the next one.  The last one is not read. -/
inductive Reader.Leads (read : Reader) (w : PointerWidth) : Address → List UInt64 → Address → Prop
  | here (a : Address) : Leads read w a [] a
  | hop {a b target : Address} {bytes : List UInt8} {offset : UInt64} {rest : List UInt64} :
      read a w.size = .ok bytes → bytes.length = w.size →
      b.toNat = (w.decode bytes).toNat + offset.toNat → Leads read w b rest target →
      Leads read w a (offset :: rest) target

theorem Address.add_eq_ok_iff {b : Address} {offset : UInt64} :
    a.add offset = .ok b ↔ b.toNat = a.toNat + offset.toNat := by
  rw [Address.add, ← Address.add?_eq_some_iff]
  cases a.add? offset with
  | none => simp
  | some sum => simp

theorem Reader.pointer_eq_ok_iff {p : Address} : read.pointer w a = .ok p ↔
    ∃ bytes, read a w.size = .ok bytes ∧ bytes.length = w.size ∧ w.decode bytes = p := by
  simp only [← and_assoc, ← Reader.exactly_eq_ok_iff]
  rw [Reader.pointer]
  cases read.exactly a w.size with
  | error cause => simp [Functor.map, Except.map]
  | ok bytes => simp [Functor.map, Except.map]

/-- What is followed to its end arrives where memory leads. -/
theorem follow_eq_ok_iff :
    follow read w a offsets = .ok target ↔ read.Leads w a offsets target := by
  induction offsets generalizing a with
  | nil =>
    rw [follow, Except.ok.injEq]
    constructor
    · rintro rfl
      exact .here a
    · rintro ⟨⟩
      rfl
  | cons offset rest ih =>
    constructor
    · intro h
      rw [follow] at h
      obtain ⟨p, hp, hsum⟩ := exists_of_bind_eq_ok h
      obtain ⟨b, hb, hrest⟩ := exists_of_bind_eq_ok hsum
      obtain ⟨bytes, hbytes, hwhole, hdecode⟩ := Reader.pointer_eq_ok_iff.1 hp
      rw [← hdecode] at hb
      exact .hop hbytes hwhole (Address.add_eq_ok_iff.1 hb) (ih.1 hrest)
    · rintro (_ | ⟨hbytes, hwhole, hsum, hrest⟩)
      have hp := Reader.pointer_eq_ok_iff.2 ⟨_, hbytes, hwhole, rfl⟩
      rw [follow, hp]
      show ((w.decode _).add offset >>= fun next => follow read w next rest) = _
      rw [Address.add_eq_ok_iff.2 hsum]
      exact ih.2 hrest

/-- A walk starts at the base plus the first offset, which it needs. -/
theorem walk_eq_ok_iff {base : Address} : walk read w base offsets = .ok target ↔
    ∃ first rest start, offsets = first :: rest ∧ start.toNat = base.toNat + first.toNat ∧
      read.Leads w start rest target := by
  cases offsets with
  | nil => simp [walk]
  | cons first rest =>
    constructor
    · intro h
      obtain ⟨start, hstart, h⟩ := exists_of_bind_eq_ok h
      exact ⟨first, rest, start, rfl, Address.add_eq_ok_iff.1 hstart, follow_eq_ok_iff.1 h⟩
    · rintro ⟨_, _, start, heq, hstart, hleads⟩
      cases heq
      rw [walk, Address.add_eq_ok_iff.2 hstart]
      exact follow_eq_ok_iff.2 hleads

/-! ### Chains that start and lead somewhere -/

namespace Chain

variable {c : Chain} {m : MemoryMap}

/-- The chain has an object, and the map has one at this position. -/
def StartsIn (c : Chain) (m : MemoryMap) : Prop :=
  ∃ id, c.object = some id ∧ id.index < m.objects.size

/-- From the base of its object the chain leads over its offsets to the target. -/
def ResolvesTo (c : Chain) (read : Reader) (w : PointerWidth) (m : MemoryMap) (target : Address) :
    Prop :=
  ∃ id object first rest start, c.object = some id ∧ m.object? id = some object ∧
    c.offsets = first :: rest ∧ start.toNat = object.base.toNat + first.toNat ∧
    read.Leads w start rest target

theorem isSome_base?_iff : (PointerScan.base? m c).isSome ↔ c.StartsIn m := by
  rw [PointerScan.base?, Option.isSome_map, StartsIn]
  cases c.object with
  | none => simp
  | some id => simp [MemoryMap.object?]

theorem leadsTo_iff : PointerScan.leadsTo read w m target c ↔ c.ResolvesTo read w m target := by
  have hwalk : PointerScan.leadsTo read w m target c ↔ ∃ object,
      c.object.bind m.object? = some object ∧ walk read w object.base c.offsets = .ok target := by
    rw [PointerScan.leadsTo, PointerScan.base?]
    cases c.object.bind m.object? with
    | none => simp
    | some object =>
      cases hwalk : walk read w object.base c.offsets <;> simp [PointerScan.arrives, hwalk]
  rw [hwalk]
  simp only [Option.bind_eq_some_iff, walk_eq_ok_iff, ResolvesTo]
  constructor
  · rintro ⟨object, ⟨id, hid, hobject⟩, first, rest, start, hoffsets, hstart, hleads⟩
    exact ⟨id, object, first, rest, start, hid, hobject, hoffsets, hstart, hleads⟩
  · rintro ⟨id, object, first, rest, start, hid, hobject, hoffsets, hstart, hleads⟩
    exact ⟨object, ⟨id, hid, hobject⟩, first, rest, start, hoffsets, hstart, hleads⟩

instance (c : Chain) (read : Reader) (w : PointerWidth) (m : MemoryMap) (target : Address) :
    Decidable (c.ResolvesTo read w m target) :=
  decidable_of_iff _ leadsTo_iff

end Chain

namespace PointerScan

variable {scan : PointerScan} {options : Guarded Options} {settings : Guarded PointerScanOptions}
  {m : MemoryMap}

theorem prepareVerify_eq_ok (hoptions : options.IsFree) (hsettings : settings.IsFree)
    (htarget : settings.value.target = some target) (hmap : options.value.map = some m) :
    prepareVerify options settings = .ok (target, m, options.value.width) := by
  rw [prepareVerify, Guarded.get_of_isFree hoptions, Guarded.get_of_isFree hsettings]
  show (Options.require .target settings.value.target >>= fun target =>
    options.value.getMap >>= fun map => pure (target, map, options.value.width)) = _
  rw [htarget, Options.getMap, hmap]
  rfl

/-- The first chain that does not start at an object of the map. -/
theorem exists_first_unresolved {chains : Array Chain} (h : ∃ c ∈ chains, ¬c.StartsIn m) :
    ∃ n, chains.findIdx? (fun c => (base? m c).isNone) = some n ∧
      (∃ c, chains[n]? = some c ∧ ¬c.StartsIn m) ∧
      ∀ k d, k < n → chains[k]? = some d → d.StartsIn m := by
  have hstarts : ∀ d : Chain, (base? m d).isNone = true ↔ ¬d.StartsIn m := by
    intro d
    rw [← Chain.isSome_base?_iff]
    simp
  cases hfind : chains.findIdx? fun c => (base? m c).isNone with
  | none =>
    obtain ⟨c, hc, hnowhere⟩ := h
    have hsome := Array.findIdx?_eq_none_iff.1 hfind c hc
    rw [(hstarts c).2 hnowhere] at hsome
    cases hsome
  | some n =>
    obtain ⟨hn, hnone, hbefore⟩ := Array.findIdx?_eq_some_iff_getElem.1 hfind
    refine ⟨n, rfl, ⟨chains[n], Array.getElem?_eq_getElem hn, (hstarts _).1 hnone⟩, ?_⟩
    intro k d hk hd
    obtain ⟨hk', rfl⟩ := Array.getElem?_eq_some_iff.1 hd
    by_contra hnowhere
    exact hbefore k hk ((hstarts _).2 hnowhere)

/-- **A verification names the first chain that starts nowhere, and changes nothing then.**  If all
chains start at objects of the map, it keeps just the chains that lead to the target, in their
order. -/
theorem verify_keeps (hoptions : options.IsFree) (hsettings : settings.IsFree)
    (htarget : settings.value.target = some target) (hmap : options.value.map = some m) :
    ((∃ c ∈ scan.chains.chains, ¬c.StartsIn m) →
      ∃ n, (∃ c, scan.chains.chains[n]? = some c ∧ ¬c.StartsIn m) ∧
        (∀ k d, k < n → scan.chains.chains[k]? = some d → d.StartsIn m) ∧
        scan.verify read options settings = (.error (.unresolvedChain n), scan)) ∧
    ((∀ c ∈ scan.chains.chains, c.StartsIn m) →
      scan.verify read options settings = (.ok (), { scan with
        chains := ⟨scan.chains.pathnames, scan.chains.chains.filter fun c =>
          c.ResolvesTo read options.value.width m target⟩
        state := .verified })) := by
  have hprepare := prepareVerify_eq_ok hoptions hsettings htarget hmap
  rw [verify_eq, hprepare]
  constructor
  · intro h
    obtain ⟨n, hfind, hfirst, hbefore⟩ := exists_first_unresolved h
    exact ⟨n, hfirst, hbefore, by simp only [hfind]⟩
  · intro h
    have hfind : scan.chains.chains.findIdx? (fun c => (base? m c).isNone) = none := by
      rw [Array.findIdx?_eq_none_iff]
      intro c hc
      rw [← Option.not_isSome, Chain.isSome_base?_iff.2 (h c hc)]
      rfl
    have hkeep : leadsTo read options.value.width m target = fun c =>
        decide (c.ResolvesTo read options.value.width m target) := by
      funext c
      rw [Bool.eq_iff_iff, decide_eq_true_eq]
      exact Chain.leadsTo_iff
    simp only [hfind, hkeep, ChainTable.retain_eq]

/-- Chains of one object: to the second region, to nowhere, without offsets, and past the last
address. -/
def fourChains : PointerScan where
  chains := ⟨#["/bin/one"], #[⟨0, some ⟨0⟩, [8, 0]⟩, ⟨0, some ⟨0⟩, [16, 0]⟩, ⟨0, some ⟨0⟩, []⟩,
    ⟨0, some ⟨0⟩, [0xFFFFFFFFFFFFFFFF, 0]⟩]⟩
  state := .flattened

/-- The same behind a chain of an object that the map does not have. -/
def unresolvedChains : PointerScan where
  chains := ⟨#["/bin/one"], #[⟨0, some ⟨7⟩, [8, 0]⟩] ++ fourChains.chains.chains⟩
  state := .flattened

theorem verify_keeps_fourChains :
    (({ name := "options", value := .twoRegions } : Guarded Options).IsFree ∧
      ({ name := "settings", value := .twoRegions } : Guarded PointerScanOptions).IsFree ∧
      PointerScanOptions.twoRegions.target = some (.ofNat 0x2000) ∧
      Options.twoRegions.map = some .twoRegions) ∧
    (∃ n, (∃ c, unresolvedChains.chains.chains[n]? = some c ∧ ¬c.StartsIn .twoRegions) ∧
      (∀ k d, k < n → unresolvedChains.chains.chains[k]? = some d → d.StartsIn .twoRegions) ∧
      unresolvedChains.verify Image.onePointer.reader { name := "options", value := .twoRegions }
        { name := "settings", value := .twoRegions } =
          (.error (.unresolvedChain n), unresolvedChains)) ∧
    fourChains.verify Image.onePointer.reader { name := "options", value := .twoRegions }
        { name := "settings", value := .twoRegions } =
      (.ok (), { fourChains with
        chains := ⟨#["/bin/one"], fourChains.chains.chains.filter fun c =>
          c.ResolvesTo Image.onePointer.reader .eight .twoRegions (.ofNat 0x2000)⟩
        state := .verified }) := by
  have hoptions : ({ name := "options", value := .twoRegions } : Guarded Options).IsFree :=
    Holders.noConfusion
  have hsettings :
      ({ name := "settings", value := .twoRegions } : Guarded PointerScanOptions).IsFree :=
    Holders.noConfusion
  have hnowhere : ∃ c ∈ unresolvedChains.chains.chains, ¬c.StartsIn .twoRegions := by
    refine ⟨⟨0, some ⟨7⟩, [8, 0]⟩, by decide +kernel, ?_⟩
    rintro ⟨_, ⟨⟩, hlt⟩
    exact absurd hlt (by decide)
  have hstart : ∀ c ∈ fourChains.chains.chains, c.StartsIn .twoRegions := by
    intro c hc
    have hobject : c.object = some ⟨0⟩ := by
      revert c
      decide +kernel
    exact ⟨⟨0⟩, hobject, by decide⟩
  exact ⟨⟨hoptions, hsettings, rfl, rfl⟩, (verify_keeps hoptions hsettings rfl rfl).1 hnowhere,
    (verify_keeps hoptions hsettings rfl rfl).2 hstart⟩

/-- The first chain leads to the target, and no other. -/
example : fourChains.chains.chains.map (fun c =>
    decide (c.ResolvesTo Image.onePointer.reader .eight .twoRegions (.ofNat 0x2000))) =
      #[true, false, false, false] := by
  decide +kernel

end PointerScan

end PointerChains
