import PointerChains.Proofs.Causes
import PointerChains.Proofs.Chain.Slices

/-!
# How files are rejected

The first six bytes of a file decide on their own whether it is refused for its magic bytes, its
version or its kind, in this order.  Whatever else may be wrong with a file makes it corrupt.

* `Format.refusal?` — what the first six bytes are refused for;
* `Format.failsOnly_readStored` — a file that they do not refuse is read or is corrupt;
* `Format.rejects_or_accepts` — **any bytes are rejected for a cause that is theirs, or hold what
  their headers say, and reading them stays within them.**
-/

namespace PointerChains

/-- The error says that a file is corrupt. -/
def Error.IsCorrupt (cause : Error) : Prop :=
  ∃ corruption, cause = .corrupt corruption

namespace Format

variable {bytes : List UInt8}

/-! ### The first six bytes -/

/-- What the first six bytes of a file are refused for, if they are. -/
def refusal? : List UInt8 → Option Error
  | [a, b, c, d, found, tag] =>
    if [a, b, c, d] ≠ magic then some (.badMagic [a, b, c, d])
    else if found ≠ version then some (.unsupportedVersion found)
    else if tag ≠ kindTag .pointerScan then some (.unsupportedScanKind tag)
    else none
  | _ => none

/-! ### Parts -/

theorem failsOnly_corrupt {α : Type} {corruption : Corruption} :
    FailsOnly Error.IsCorrupt (.error (.corrupt corruption) : Except Error α) :=
  failsOnly_error ⟨corruption, rfl⟩

theorem failsOnly_readWord (bytes : List UInt8) : FailsOnly Error.IsCorrupt (readWord bytes) := by
  unfold readWord
  split
  · exact failsOnly_ok
  · exact failsOnly_corrupt

theorem failsOnly_bytesFrom (bytes : List UInt8) (position : Nat) :
    FailsOnly Error.IsCorrupt (bytesFrom bytes position) := by
  rw [bytesFrom]
  split
  · exact failsOnly_ok
  · exact failsOnly_corrupt

theorem failsOnly_readPathnames (count : Nat) (bytes : List UInt8) :
    FailsOnly Error.IsCorrupt (readPathnames count bytes) := by
  fun_induction readPathnames count bytes with
  | case1 => exact failsOnly_ok
  | case2 | case3 | case4 => exact failsOnly_corrupt
  | case5 =>
    rename_i ih
    exact ih.bind fun _ _ => failsOnly_ok

theorem failsOnly_readTableEnd (bytes : List UInt8) :
    FailsOnly Error.IsCorrupt (readTableEnd bytes) := by
  rw [readTableEnd_eq]
  split
  · exact failsOnly_ok
  · exact failsOnly_corrupt

theorem failsOnly_readOffsets (bytes : List UInt8) :
    FailsOnly Error.IsCorrupt (readOffsets bytes) := by
  fun_induction readOffsets bytes with
  | case1 =>
    rename_i ih
    exact ih.bind fun _ _ => failsOnly_ok
  | case2 => exact failsOnly_ok
  | case3 | case4 => exact failsOnly_corrupt

theorem failsOnly_readChains (pathnames : List String) (count : Nat) (bytes : List UInt8) :
    FailsOnly Error.IsCorrupt (readChains pathnames count bytes) := by
  induction count generalizing bytes with
  | zero => exact failsOnly_ok
  | succ count ih =>
    refine (failsOnly_readWord bytes).bind fun word _ => ?_
    obtain ⟨index, afterIndex⟩ := word
    simp only
    cases pathnames[index]? with
    | none => exact failsOnly_corrupt
    | some pathname =>
      refine (failsOnly_readOffsets afterIndex).bind fun offsets _ => ?_
      exact (ih offsets.2).bind fun _ _ => failsOnly_ok

theorem failsOnly_readEnd (bytes : List UInt8) : FailsOnly Error.IsCorrupt (readEnd bytes) := by
  unfold readEnd
  split
  · exact failsOnly_corrupt
  · split
    · exact failsOnly_ok
    · exact failsOnly_corrupt

/-! ### Files -/

/-- The headers are refused if their first six bytes are, and are read or cut short otherwise. -/
theorem readHeaders_cases (bytes : List UInt8) :
    (∃ cause, refusal? (bytes.take 6) = some cause ∧ readHeaders bytes = .error cause) ∨
      (refusal? (bytes.take 6) = none ∧ FailsOnly Error.IsCorrupt (readHeaders bytes)) := by
  match bytes with
  | [] | [_] | [_, _] | [_, _, _] | [_, _, _, _] | [_, _, _, _, _] =>
    exact .inr ⟨rfl, failsOnly_corrupt⟩
  | a :: b :: c :: d :: found :: tag :: rest =>
    show (∃ cause, refusal? [a, b, c, d, found, tag] = some cause ∧ _) ∨
      (refusal? [a, b, c, d, found, tag] = none ∧ _)
    rw [readHeaders, refusal?]
    by_cases hmagic : [a, b, c, d] = magic
    swap
    · rw [if_pos hmagic, if_neg hmagic]
      exact .inl ⟨.badMagic [a, b, c, d], rfl, rfl⟩
    rw [if_neg (not_not.2 hmagic), if_pos hmagic]
    by_cases hversion : found = version
    swap
    · rw [if_pos hversion, if_neg hversion]
      exact .inl ⟨.unsupportedVersion found, rfl, rfl⟩
    rw [if_neg (not_not.2 hversion), if_pos hversion, readKind]
    by_cases htag : tag = kindTag .pointerScan
    swap
    · rw [if_pos htag, if_neg htag]
      exact .inl ⟨.unsupportedScanKind tag, rfl, rfl⟩
    rw [if_neg (not_not.2 htag), if_pos htag]
    refine .inr ⟨rfl, failsOnly_ok.bind fun kind _ => ?_⟩
    refine (failsOnly_readWord rest).bind fun pathnames _ => ?_
    refine (failsOnly_readWord pathnames.2).bind fun start _ => ?_
    refine (failsOnly_readWord start.2).bind fun chains _ => ?_
    exact (failsOnly_readWord chains.2).bind fun _ _ => failsOnly_ok

theorem failsOnly_readHeaders (h : refusal? (bytes.take 6) = none) :
    FailsOnly Error.IsCorrupt (readHeaders bytes) := by
  obtain ⟨cause, hcause, -⟩ | ⟨-, hfails⟩ := readHeaders_cases bytes
  · rw [h] at hcause
    cases hcause
  · exact hfails

/-- What the first six bytes are refused for is what the file is refused for. -/
theorem readStored_of_refusal? {cause : Error} (h : refusal? (bytes.take 6) = some cause) :
    readStored bytes = .error cause := by
  obtain ⟨other, hother, hheaders⟩ | ⟨hnone, -⟩ := readHeaders_cases bytes
  · rw [h] at hother
    cases hother
    rw [readStored, hheaders]
    rfl
  · rw [h] at hnone
    cases hnone

/-- A file that its first six bytes are not refused for is read, or is corrupt. -/
theorem failsOnly_readStored (h : refusal? (bytes.take 6) = none) :
    FailsOnly Error.IsCorrupt (readStored bytes) := by
  refine (failsOnly_readHeaders h).bind fun headers _ => ?_
  refine (failsOnly_bytesFrom _ _).bind fun table _ => ?_
  refine (failsOnly_readPathnames _ _).bind fun pathnames _ => ?_
  refine (failsOnly_readTableEnd pathnames.2).bind fun rest _ => ?_
  by_cases hoffset : bytes.length - rest.length = headers.chainsOffset
  swap
  · rw [if_neg hoffset]
    exact failsOnly_corrupt
  rw [if_pos hoffset]
  refine (failsOnly_readChains _ _ _).bind fun chains _ => ?_
  exact (failsOnly_readEnd chains.2).bind fun _ _ => failsOnly_ok

/-- The chains start right behind the end of the table. -/
theorem LaidOut.drop_chainsOffset {headers : Headers} {pathnames : List String}
    {chains : List Chain} (h : LaidOut bytes headers pathnames chains) :
    ∃ front after, chainBytes chains = .ok front ∧
      bytes.drop headers.chainsOffset = front ++ endMark :: after ∧
        bytes.drop headers.pathnamesOffset =
          pathnameTable pathnames ++ bytes.drop headers.chainsOffset := by
  obtain ⟨front, after, hfront, hbytes⟩ := h.bytes_eq
  have hchains : bytes.drop headers.chainsOffset = front ++ endMark :: after := by
    rw [h.chainsOffset_eq, ← List.drop_drop, hbytes, List.drop_left]
  exact ⟨front, after, hfront, hchains, by rw [hbytes, hchains]⟩

/-- **Any bytes are rejected for a cause that is theirs, or hold what their headers say.**  Reading
them stays within them.  What is refused is refused for the first six bytes, whatever follows them;
any other failure says that the file is corrupt.  What is read has as many pathnames and chains as
the headers say, and the chains start behind the end of the table. -/
theorem rejects_or_accepts (bytes : List UInt8) (m : Option MemoryMap) :
    (decodeBySlices bytes m).run = some (decode bytes m) ∧
    (∀ cause, refusal? (bytes.take 6) = some cause → decode bytes m = .error cause) ∧
    (∀ cause, decode bytes m = .error cause →
      refusal? (bytes.take 6) = some cause ∨ cause.IsCorrupt) ∧
    ∀ t, decode bytes m = .ok t → ∃ headers pathnames chains front after,
      readHeaders bytes = .ok headers ∧ pathnames.length = headers.pathnamesCount ∧
      chains.length = headers.chainsCount ∧
      headers.chainsOffset = headers.pathnamesOffset + (pathnameTable pathnames).length ∧
      bytes.drop headers.pathnamesOffset =
        pathnameTable pathnames ++ bytes.drop headers.chainsOffset ∧
      chainBytes chains = .ok front ∧
      bytes.drop headers.chainsOffset = front ++ endMark :: after ∧
      t = (StoredChains.mk pathnames (chains.map (Chain.stored pathnames))).toTable m := by
  refine ⟨run_decodeBySlices bytes m, ?_, ?_, ?_⟩
  · intro cause h
    rw [decode_eq, readStored_of_refusal? h]
    rfl
  · intro cause h
    cases hrefusal : refusal? (bytes.take 6) with
    | some other =>
      rw [decode_eq, readStored_of_refusal? hrefusal] at h
      exact .inl (congrArg some (Except.error.inj h))
    | none =>
      have hfails : FailsOnly Error.IsCorrupt (decode bytes m) := by
        rw [decode_eq]
        exact (failsOnly_readStored hrefusal).bind fun _ _ => failsOnly_ok
      exact .inr (hfails cause h)
  · intro t h
    rw [decode_eq] at h
    obtain ⟨stored, hstored, ht⟩ := exists_of_bind_eq_ok h
    obtain ⟨headers, pathnames, chains, hlaid, rfl⟩ := readStored_eq_ok_iff.1 hstored
    obtain ⟨front, after, hfront, hchains, htable⟩ := hlaid.drop_chainsOffset
    exact ⟨headers, pathnames, chains, front, after, hlaid.headers_eq,
      hlaid.pathnamesCount_eq.symm, hlaid.chainsCount_eq.symm, hlaid.chainsOffset_eq, htable,
      hfront, hchains, (Except.ok.inj ht).symm⟩

end Format

end PointerChains
