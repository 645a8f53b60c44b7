import PointerChains.Chain.Storage
import PointerChains.Proofs.Chain.Loading

/-!
# Rejected saves

A save creates its file before it looks at the chains.  If these cannot be stored, the file holds
what was written by then: nothing, if a pathname or a chain is to blame, and a part of the headers,
if it is a word of them.  Neither can be loaded, whatever the file held before.

* `Format.encode_eq_write` — what is written is the stored form, or a part of it and the reason why
  there is none;
* `Format.length_write_lt` — a table that cannot be stored leaves less than the headers;
* `FileStore.save_rejected` — **a save of such a table replaces the file by one that cannot be
  loaded.**
-/

namespace PointerChains

namespace Format

variable {t : ChainTable} {parts rest : List (Except Error (List UInt8))} {cause : Error}

/-! ### What is written -/

/-- All that is written, if nothing fails. -/
def whole (w : List UInt8 × Except Error Unit) : Except Error (List UInt8) := w.2.map fun _ => w.1

theorem whole_cons (part : Except Error (List UInt8)) (rest : List (Except Error (List UInt8))) :
    whole (writeParts (part :: rest)) = (do
      let bytes ← part
      let others ← whole (writeParts rest)
      return bytes ++ others) := by
  cases part with
  | error cause => rfl
  | ok bytes =>
    show ((writeParts rest).2.map fun _ => bytes ++ (writeParts rest).1) =
      ((writeParts rest).2.map fun _ => (writeParts rest).1) >>= fun others =>
        pure (bytes ++ others)
    cases (writeParts rest).2 with
    | error cause => rfl
    | ok _ => rfl

/-- The parts of chains make their bytes, in front of the end marker. -/
theorem whole_chains (chains : List Chain) :
    whole (writeParts (chains.flatMap (fun c => [word c.pathname, .ok (offsetBytes c.offsets)]) ++
      [.ok [endMark]])) = (do
        let others ← chainBytes chains
        return others ++ [endMark]) := by
  induction chains with
  | nil => rfl
  | cons c rest ih =>
    simp only [List.flatMap_cons, List.cons_append, List.nil_append, whole_cons, ih, chainBytes,
      bind_assoc, pure_bind, List.append_assoc]
    rfl

/-- **What is written is the stored form**, unless there is none. -/
theorem encode_eq_write (t : ChainTable) : encode t = whole (write t) := by
  rw [encode, write]
  by_cases hall : t.pathnames.all isStorable
  · rw [if_pos hall, if_pos hall]
    cases checkChains 0 t.chains.toList with
    | error cause => rfl
    | ok _ =>
      show _ = whole (writeParts (parts t))
      simp only [Format.parts, List.cons_append, List.nil_append, whole_cons, whole_chains,
        bind_assoc, pure_bind, List.append_assoc]
      rfl
  · rw [if_neg hall, if_neg hall]
    rfl

/-! ### What is left of a rejected table -/

theorem length_writeParts_ok (bytes : List UInt8) (rest : List (Except Error (List UInt8))) :
    (writeParts (.ok bytes :: rest)).1.length = bytes.length + (writeParts rest).1.length :=
  List.length_append

/-- Words in front of a file can all be stored, or not all of their bytes are written. -/
theorem words_or_length_lt (numbers : List Nat) (rest : List (Except Error (List UInt8))) :
    (∀ n ∈ numbers, ∃ bytes, word n = .ok bytes) ∨
      (writeParts (numbers.map word ++ rest)).1.length < 4 * numbers.length := by
  induction numbers with
  | nil => exact .inl (by simp)
  | cons n others ih =>
    rw [List.map_cons, List.cons_append, List.length_cons]
    cases hword : word n with
    | error cause =>
      refine .inr ?_
      show 0 < 4 * (others.length + 1)
      omega
    | ok bytes =>
      have hbytes : bytes.length = 4 := by
        rw [(word_eq_ok hword).2, length_littleEndian]
      rw [length_writeParts_ok, hbytes]
      refine ih.imp ?_ fun hlt => by omega
      intro hall
      exact List.forall_mem_cons.2 ⟨⟨bytes, hword⟩, hall⟩

/-- Nothing is written for a pathname or a chain that cannot be stored. -/
theorem write_eq_nil (h : ¬((∀ p ∈ t.pathnames.toList, isStorable p) ∧
    ∀ c ∈ t.chains.toList, c.Fits)) : (write t).1 = [] := by
  rw [write]
  by_cases hall : t.pathnames.all isStorable
  · rw [if_pos hall]
    cases hcheck : checkChains 0 t.chains.toList with
    | error cause => rfl
    | ok _ =>
      rw [Array.all_eq_true'] at hall
      exact absurd ⟨by simpa using hall, checkChains_eq_ok_iff.1 hcheck⟩ h
  · rw [if_neg hall]

/-- A table that cannot be stored leaves less than the headers: what fails behind the checks is a
word of them, since pathnames that can be counted can be referred to. -/
theorem length_write_lt (ht : t.WellFormed) (h : encode t = .error cause) :
    (write t).1.length < headerSize := by
  by_cases hfits : (∀ p ∈ t.pathnames.toList, isStorable p) ∧ ∀ c ∈ t.chains.toList, c.Fits
  swap
  · rw [write_eq_nil hfits]
    decide
  have hwrite : (write t).1 = (writeParts (parts t)).1 := by
    have hall : t.pathnames.all isStorable := by
      rw [Array.all_eq_true']
      simpa using hfits.1
    rw [write, if_pos hall, checkChains_eq_ok_iff.2 hfits.2]
  have hnot : ¬Storable t := by
    intro hstorable
    obtain ⟨bytes, hok⟩ := (exists_encode_iff ht).2 hstorable
    rw [h] at hok
    cases hok
  have hparts : parts t = .ok (magic ++ [version, kindTag .pointerScan]) ::
      ([t.pathnames.size, headerSize, t.chains.size,
        headerSize + (pathnameTable t.pathnames.toList).length].map word ++
      .ok (pathnameTable t.pathnames.toList) ::
      (t.chains.toList.flatMap (fun c => [word c.pathname, .ok (offsetBytes c.offsets)]) ++
        [.ok [endMark]])) := rfl
  rw [hwrite, hparts, length_writeParts_ok]
  obtain hwords | hlt := words_or_length_lt [t.pathnames.size, headerSize, t.chains.size,
    headerSize + (pathnameTable t.pathnames.toList).length] _
  · simp only [List.forall_mem_cons] at hwords
    obtain ⟨⟨_, hpathnames⟩, -, ⟨_, hchains⟩, ⟨_, hoffset⟩, -⟩ := hwords
    exact absurd ⟨hfits.1, hfits.2, (word_eq_ok hpathnames).1, (word_eq_ok hchains).1,
      (word_eq_ok hoffset).1⟩ hnot
  · exact Nat.add_lt_add_left hlt 6

end Format

namespace FileStore

variable {store : FileStore} {name other : String} {bytes : List UInt8}

theorem content?_put (h : name ∉ store.unreachable) :
    (store.put name bytes).content? name = some bytes := by
  rw [put, if_neg (by simpa using h), content?]
  simp

theorem content?_put_of_ne (h : other ≠ name) :
    (store.put name bytes).content? other = store.content? other := by
  have hkept : ∀ files : List (String × List UInt8),
      (files.filter fun file => file.1 != name).lookup other = files.lookup other := by
    intro files
    induction files with
    | nil => rfl
    | cons file rest ih =>
      obtain ⟨key, content⟩ := file
      by_cases hkey : key = name
      · simp [hkey, List.lookup_cons, beq_false_of_ne h, ih]
      · simp [hkey, List.lookup_cons, ih]
  rw [put]
  split
  · rfl
  · simp [content?, List.lookup_cons, beq_false_of_ne h, hkept]

variable {t : ChainTable} {o : Options} {shallow : Bool} {cause : Error}

/-- What is loaded was read from the input file, with the map of the options unless the load is
shallow. -/
theorem load_eq_ok (h : store.load o shallow = .ok t) :
    ∃ name bytes m, o.getInput = .ok name ∧ (shallow = false → o.map = m) ∧
      store.content? name = some bytes ∧ Format.decode bytes m = .ok t := by
  rw [load] at h
  obtain ⟨name, hname, h⟩ := exists_of_bind_eq_ok h
  have hread : ∀ m, (store.read name >>= fun bytes => Format.decode bytes m) = .ok t →
      ∃ bytes, store.content? name = some bytes ∧ Format.decode bytes m = .ok t := by
    intro m hm
    obtain ⟨bytes, hbytes, hdecode⟩ := exists_of_bind_eq_ok hm
    rw [read] at hbytes
    split at hbytes
    · rename_i hcontent
      cases hbytes
      exact ⟨bytes, hcontent, hdecode⟩
    · cases hbytes
  cases shallow with
  | true =>
    obtain ⟨bytes, hbytes, hdecode⟩ := hread none h
    exact ⟨name, bytes, none, hname, Bool.noConfusion, hbytes, hdecode⟩
  | false =>
    obtain ⟨found, hfound, h⟩ := exists_of_bind_eq_ok h
    obtain ⟨bytes, hbytes, hdecode⟩ := hread found h
    refine ⟨name, bytes, found, hname, ?_, hbytes, hdecode⟩
    intro _
    rw [Options.getMap] at hfound
    cases hmap : o.map with
    | none =>
      rw [hmap] at hfound
      cases hfound
    | some m =>
      rw [hmap] at hfound
      cases hfound
      rfl

/-- A file that is shorter than the headers cannot be loaded. -/
theorem load_of_short (hinput : o.getInput = .ok name) (hcontent : store.content? name = some bytes)
    (hshort : bytes.length < Format.headerSize) : store.load o shallow ≠ .ok t := by
  intro h
  obtain ⟨name', content, m, hname, -, hcontent', hdecode⟩ := load_eq_ok h
  rw [hinput, Except.ok.injEq] at hname
  rw [← hname, hcontent, Option.some.injEq] at hcontent'
  subst hcontent'
  rw [Format.decode_eq] at hdecode
  obtain ⟨stored, hstored, -⟩ := exists_of_bind_eq_ok hdecode
  obtain ⟨headers, hheaders, -⟩ := exists_of_bind_eq_ok hstored
  obtain ⟨-, -, -, front, after, hfront, rfl⟩ := Format.readHeaders_eq_ok hheaders
  rw [List.length_append, List.length_append, hfront, length_littleEndian,
    Format.headerSize] at hshort
  omega

/-- **A save of a table that cannot be stored replaces the file by one that cannot be loaded.**  It
fails for the reason why the table cannot be stored, once the file could be created.  What the file
held is gone: it holds less than the headers now, and nothing if a pathname or a chain is to blame.
The other files stay. -/
theorem save_rejected (ht : t.Reachable) (hencode : Format.encode t = .error cause)
    (hname : o.getOutput = .ok name) :
    (name ∈ store.unreachable ∧ store.save t o = (.error .file, store)) ∨
    (name ∉ store.unreachable ∧ ∃ after left, store.save t o = (.error cause, after) ∧
      after.content? name = some left ∧ left.length < Format.headerSize ∧
      (¬((∀ p ∈ t.pathnames.toList, Format.isStorable p) ∧ ∀ c ∈ t.chains.toList, c.Fits) →
        left = []) ∧
      (∀ other, other ≠ name → after.content? other = store.content? other) ∧
      ∀ input shallow chains, input.getInput = .ok name →
        after.load input shallow ≠ .ok chains) := by
  by_cases hunreachable : name ∈ store.unreachable
  · refine .inl ⟨hunreachable, ?_⟩
    simp [save, hname, create, hunreachable]
  have hresult : (Format.write t).2 = .error cause := by
    rw [Format.encode_eq_write, Format.whole] at hencode
    cases hwrite : (Format.write t).2 with
    | error other =>
      rw [hwrite] at hencode
      cases hencode
      rfl
    | ok _ =>
      rw [hwrite] at hencode
      cases hencode
  have hsave : store.save t o =
      (.error cause, (store.put name []).put name (Format.write t).1) := by
    simp [save, hname, create, hunreachable, hresult]
  have hcreated : name ∉ (store.put name []).unreachable := by
    rw [put, if_neg (by simpa using hunreachable)]
    exact hunreachable
  have hcontent : ((store.put name []).put name (Format.write t).1).content? name = some _ :=
    content?_put hcreated
  have hshort := Format.length_write_lt ht.wellFormed hencode
  refine .inr ⟨hunreachable, _, _, hsave, hcontent, hshort, Format.write_eq_nil, ?_, ?_⟩
  · intro other hother
    rw [content?_put_of_ne hother, content?_put_of_ne hother]
  · intro input shallow chains hinput
    exact load_of_short hinput hcontent hshort

end FileStore

/-- A file that holds a chain. -/
def FileStore.oneFile : FileStore := { files := [("out", Format.oneChain)] }

/-- Settings to save to this file, and to load from it. -/
def Options.oneFile : Options := { input := some "out", output := some "out" }

/-- Two chains, the second of which has no offsets. -/
def ChainTable.emptyChain : ChainTable :=
  (ChainTable.empty.push "game" none [8]).push "game" none []

theorem Format.encode_emptyChain : encode .emptyChain = .error (.emptyChain 1) := by cbv

theorem FileStore.save_rejected_emptyChain :
    (ChainTable.emptyChain.Reachable ∧ Format.encode .emptyChain = .error (.emptyChain 1) ∧
      Options.oneFile.getOutput = .ok "out") ∧
    (("out" ∈ oneFile.unreachable ∧ oneFile.save .emptyChain .oneFile = (.error .file, oneFile)) ∨
      ("out" ∉ oneFile.unreachable ∧ ∃ after left,
        oneFile.save .emptyChain .oneFile = (.error (.emptyChain 1), after) ∧
        after.content? "out" = some left ∧ left.length < Format.headerSize)) := by
  have hreachable : ChainTable.emptyChain.Reachable :=
    (ChainTable.Reachable.empty.push "game" none [8]).push "game" none []
  have hname : Options.oneFile.getOutput = .ok "out" := rfl
  refine ⟨⟨hreachable, Format.encode_emptyChain, hname⟩, ?_⟩
  refine Or.imp_right ?_ (save_rejected hreachable Format.encode_emptyChain hname)
  rintro ⟨hcreated, after, left, hsave, hcontent, hshort, -⟩
  exact ⟨hcreated, after, left, hsave, hcontent, hshort⟩

/-- **A rejected save can destroy a file**: what could be loaded before is gone. -/
theorem FileStore.save_destroys_oneFile :
    oneFile.content? "out" = some Format.oneChain ∧
      oneFile.load .oneFile true = .ok ChainTable.oneChain.withoutObjects ∧
      (oneFile.save .emptyChain .oneFile).1 = .error (.emptyChain 1) ∧
      (oneFile.save .emptyChain .oneFile).2.content? "out" = some [] ∧
      (oneFile.save .emptyChain .oneFile).2.load .oneFile true =
        .error (.corrupt .truncatedHeader) := by
  refine ⟨rfl, ?_, ?_, ?_, ?_⟩
  · cbv
  · cbv
  · cbv
  · cbv

end PointerChains
