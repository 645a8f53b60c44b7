import PointerChains.Proofs.Chain.Rejection

/-!
# Files that are cut short or run on

Each part of a file says itself where it ends: the headers by their size, a pathname by its zero
byte, the table by one more, a chain by the mark behind its last offset, and the file by its end
marker.  So a file that lacks its last bytes is told from a whole one wherever it is cut, and bytes
behind the end marker are not looked at.

* `Format.readHeaders_extend`, `Format.LaidOut.drop_append` — what is read of a file stays where it
  is if more follows;
* `Format.pathnameTable_append_inj`, `Format.chainBytes_append_inj` — where the table and the chains
  end does not depend on what follows them;
* `Format.readChains_written` — written chains are read, or found to start at no pathname, whatever
  follows them;
* `Format.decode_prefix_and_append` — **a file that was written is corrupt if it is cut short
  anywhere, and is read as it is if anything follows it.**
-/

namespace PointerChains

namespace Format

variable {bytes rest : List UInt8} {t : ChainTable} {pathnames : List String}

/-! ### Longer files -/

theorem readWord_extend {n : Nat} (h : readWord bytes = .ok (n, rest)) (more : List UInt8) :
    readWord (bytes ++ more) = .ok (n, rest ++ more) := by
  obtain ⟨hlt, rfl⟩ := readWord_eq_ok h
  rw [List.append_assoc]
  exact readWord_littleEndian hlt (rest ++ more)

theorem readHeaders_extend {headers : Headers} (h : readHeaders bytes = .ok headers)
    (more : List UInt8) : readHeaders (bytes ++ more) = .ok headers := by
  obtain ⟨a, b, c, d, tag, others, rest₁, rest₂, rest₃, rest₄, rfl, hmagic, hversion, hkind, h₁,
    h₂, h₃, h₄⟩ := readHeaders_parts h
  show readHeaders (a :: b :: c :: d :: headers.version :: tag :: (others ++ more)) = _
  rw [readHeaders, if_pos hmagic, if_pos hversion]
  simp only [hkind, readWord_extend h₁, readWord_extend h₂, readWord_extend h₃,
    readWord_extend h₄, bind, Except.bind]
  rfl

/-- What follows a file that can be read stands behind its end marker, and what stood there. -/
theorem LaidOut.drop_append {headers : Headers} {chains : List Chain}
    (h : LaidOut bytes headers pathnames chains) :
    ∃ front after, chainBytes chains = .ok front ∧ ∀ more,
      (bytes ++ more).drop headers.pathnamesOffset =
        pathnameTable pathnames ++ (front ++ endMark :: (after ++ more)) := by
  obtain ⟨front, after, hfront, hbytes⟩ := h.bytes_eq
  have hinside : ¬bytes.length ≤ headers.pathnamesOffset := by
    rw [← List.drop_eq_nil_iff, hbytes]
    simp
  refine ⟨front, after, hfront, fun more => ?_⟩
  rw [List.drop_append_of_le_length (by omega), hbytes]
  simp

/-! ### Written chains -/

/-- One chain that starts at no pathname. -/
theorem readChains_outside {index count : Nat} {afterIndex : List UInt8}
    (hindex : readWord bytes = .ok (index, afterIndex)) (hpathname : pathnames[index]? = none) :
    readChains pathnames (count + 1) bytes = .error (.corrupt .pathnameIndex) := by
  simp only [readChains, hindex, bind, Except.bind, hpathname]
  rfl

/-- A chain that is read, in front of others that are not. -/
theorem readChains_error {index count : Nat} {pathname : String} {offsets : List UInt64}
    {afterIndex others : List UInt8} {cause : Error}
    (hindex : readWord bytes = .ok (index, afterIndex))
    (hpathname : pathnames[index]? = some pathname)
    (hoffsets : readOffsets afterIndex = .ok (offsets, others))
    (hchains : readChains pathnames count others = .error cause) :
    readChains pathnames (count + 1) bytes = .error cause := by
  simp only [readChains, hindex, bind, Except.bind, hpathname, hoffsets, hchains]

/-- If a chain starts behind the table, then this is what is found, and nothing behind the chains is
looked at. -/
theorem readChains_of_outside {cs : List Chain} {chains : List UInt8} (hfits : ∀ c ∈ cs, c.Fits)
    (h : chainBytes cs = .ok chains) (houtside : ∃ c ∈ cs, pathnames.length ≤ c.pathname)
    (rest : List UInt8) :
    readChains pathnames cs.length (chains ++ rest) = .error (.corrupt .pathnameIndex) := by
  induction cs generalizing chains with
  | nil =>
    obtain ⟨c, hc, -⟩ := houtside
    cases hc
  | cons c cs ih =>
    obtain ⟨hindex, others, hothers, rfl⟩ := chainBytes_cons h
    obtain ⟨⟨hne, hoffsets⟩, hcs⟩ := List.forall_mem_cons.1 hfits
    rw [List.append_assoc, List.append_assoc]
    have hword := readWord_littleEndian hindex (offsetBytes c.offsets ++ (others ++ rest))
    cases hpathname : pathnames[c.pathname]? with
    | none => exact readChains_outside hword hpathname
    | some pathname =>
      have hlt := (List.getElem?_eq_some_iff.1 hpathname).1
      have hlater : ∃ d ∈ cs, pathnames.length ≤ d.pathname := by
        obtain ⟨d, hd, hout⟩ := houtside
        rcases List.mem_cons.1 hd with rfl | hd
        · exact absurd hout (Nat.not_le_of_lt hlt)
        · exact ⟨d, hd, hout⟩
      exact readChains_error hword hpathname (readOffsets_append hne hoffsets _)
        (ih hcs hothers hlater)

/-- Written chains are read, or are found to start at no pathname, whatever follows them. -/
theorem readChains_written {cs : List Chain} {chains : List UInt8} (hfits : ∀ c ∈ cs, c.Fits)
    (h : chainBytes cs = .ok chains) (pathnames : List String) :
    (∀ rest, readChains pathnames cs.length (chains ++ rest) =
      .ok (cs.map (Chain.stored pathnames), rest)) ∨
    ∀ rest, readChains pathnames cs.length (chains ++ rest) =
      .error (.corrupt .pathnameIndex) := by
  by_cases hinside : ∀ c ∈ cs, c.pathname < pathnames.length
  · exact .inl (readChains_append hfits hinside h)
  · have houtside : ∃ c ∈ cs, pathnames.length ≤ c.pathname := by
      simpa using hinside
    exact .inr (readChains_of_outside hfits h houtside)

/-! ### Where a part ends -/

/-- A table is told from what follows it. -/
theorem pathnameTable_append_inj {ps qs : List String} {after after' : List UInt8}
    (hps : ∀ p ∈ ps, isStorable p) (hqs : ∀ q ∈ qs, isStorable q) (hlength : ps.length = qs.length)
    (h : pathnameTable ps ++ after = pathnameTable qs ++ after') : after = after' := by
  have hread := readPathnames_table hps after
  rw [h, hlength, readPathnames_table hqs] at hread
  obtain ⟨-, hafter⟩ := Prod.mk.inj (Except.ok.inj hread)
  exact (List.cons.inj hafter).2.symm

/-- Chains are told from what follows them. -/
theorem chainBytes_append_inj {cs ds : List Chain} {front front' after after' : List UInt8}
    (hcs : ∀ c ∈ cs, c.Fits) (hds : ∀ d ∈ ds, d.Fits) (hlength : cs.length = ds.length)
    (hfront : chainBytes cs = .ok front) (hfront' : chainBytes ds = .ok front')
    (h : front ++ after = front' ++ after') : after = after' := by
  induction cs generalizing ds front front' with
  | nil =>
    obtain rfl := List.length_eq_zero_iff.1 hlength.symm
    cases hfront
    cases hfront'
    exact h
  | cons c cs ih =>
    obtain ⟨d, ds, rfl⟩ := List.exists_cons_of_length_eq_add_one hlength.symm
    obtain ⟨hindex, others, hothers, rfl⟩ := chainBytes_cons hfront
    obtain ⟨hindex', others', hothers', rfl⟩ := chainBytes_cons hfront'
    obtain ⟨⟨hne, hoffsets⟩, hcs⟩ := List.forall_mem_cons.1 hcs
    obtain ⟨⟨hne', hoffsets'⟩, hds⟩ := List.forall_mem_cons.1 hds
    simp only [List.append_assoc] at h
    have hword := readWord_littleEndian hindex (offsetBytes c.offsets ++ (others ++ after))
    rw [h, readWord_littleEndian hindex'] at hword
    obtain ⟨-, hword⟩ := Prod.mk.inj (Except.ok.inj hword)
    have hread := readOffsets_append hne hoffsets (others ++ after)
    rw [← hword, readOffsets_append hne' hoffsets'] at hread
    obtain ⟨-, hread⟩ := Prod.mk.inj (Except.ok.inj hread)
    exact ih hcs hds (Nat.succ.inj hlength) hothers hothers' hread.symm

/-! ### Written files -/

/-- Whatever follows a written file, reading it comes to its chains. -/
theorem readStored_written (h : encode t = .ok bytes) :
    ∃ chains, chainBytes t.chains.toList = .ok chains ∧ ∀ more,
      readStored (bytes ++ more) = do
        let (stored, rest) ← readChains t.pathnames.toList t.chains.toList.length
          (chains ++ endMark :: more)
        readEnd rest
        return ⟨t.pathnames.toList, stored⟩ := by
  obtain ⟨hstorable, chains, hchains, rfl⟩ := encode_eq_ok h
  refine ⟨chains, hchains, fun more => ?_⟩
  have hbytes (front : List UInt8) : front ++ (pathnameTable t.pathnames.toList ++
      (chains ++ [endMark])) ++ more = front ++ (pathnameTable t.pathnames.toList ++
        (chains ++ endMark :: more)) := by
    simp
  have hoffset : (headerBytes t.pathnames.toList.length t.chains.toList.length
      (headerSize + (pathnameTable t.pathnames.toList).length) ++
        (pathnameTable t.pathnames.toList ++ (chains ++ endMark :: more))).length -
          (chains ++ endMark :: more).length =
            headerSize + (pathnameTable t.pathnames.toList).length := by
    rw [List.length_append, List.length_append, length_headerBytes, ← Nat.add_assoc,
      Nat.add_sub_cancel]
  rw [hbytes, readStored, readHeaders_append hstorable.pathnamesCount_lt
    hstorable.chainsCount_lt hstorable.chainsOffset_lt]
  simp only [bind, Except.bind, bytesFrom_append (length_headerBytes ..),
    readPathnames_table hstorable.pathnames, readTableEnd, hoffset, if_true]

/-- What is read of a written file does not depend on what follows it. -/
theorem exists_readStored_append (h : encode t = .ok bytes) :
    ∃ result, ∀ more, readStored (bytes ++ more) = result := by
  obtain ⟨chains, hchains, hread⟩ := readStored_written h
  have hfits := (encode_eq_ok h).1.chains
  rcases readChains_written hfits hchains t.pathnames.toList with hok | herror
  · refine ⟨.ok (.of t), fun more => ?_⟩
    rw [hread, hok]
    rfl
  · refine ⟨.error (.corrupt .pathnameIndex), fun more => ?_⟩
    rw [hread, herror]
    rfl

/-- A written file that can be read without its last bytes lacks none. -/
theorem LaidOut.eq_nil_of_encode {headers : Headers} {cs : List Chain} {more : List UInt8}
    (hlaid : LaidOut bytes headers pathnames cs) (h : encode t = .ok (bytes ++ more)) :
    more = [] := by
  obtain ⟨hstorable, chains, hchains, hwritten⟩ := encode_eq_ok h
  obtain ⟨front, after, hfront, hbytes⟩ := hlaid.drop_append
  have hheaders := readHeaders_extend hlaid.headers_eq more
  rw [hwritten, readHeaders_append hstorable.pathnamesCount_lt hstorable.chainsCount_lt
    hstorable.chainsOffset_lt] at hheaders
  cases hheaders
  have htable : pathnameTable t.pathnames.toList ++ (chains ++ [endMark]) =
      pathnameTable pathnames ++ (front ++ endMark :: (after ++ more)) := by
    rw [← hbytes more, hwritten, List.drop_left' (length_headerBytes ..)]
  have hrest := pathnameTable_append_inj hstorable.pathnames hlaid.storable
    hlaid.pathnamesCount_eq htable
  have hend := chainBytes_append_inj hstorable.chains (fun c hc => (hlaid.chains_fit c hc).1)
    hlaid.chainsCount_eq hchains hfront hrest
  exact (List.append_eq_nil_iff.1 (List.cons.inj hend).2.symm).2

/-- Fewer than six bytes are not refused, and otherwise it is the same six. -/
theorem refusal?_of_cut {front : List UInt8} (hcut : front <+: bytes)
    (h : refusal? (bytes.take 6) = none) : refusal? (front.take 6) = none := by
  obtain ⟨more, rfl⟩ := hcut
  match front with
  | [] | [_] | [_, _] | [_, _, _] | [_, _, _, _] | [_, _, _, _, _] => rfl
  | a :: b :: c :: d :: found :: tag :: rest => exact h

theorem refusal?_of_encode (h : encode t = .ok bytes) : refusal? (bytes.take 6) = none := by
  obtain ⟨-, chains, -, rfl⟩ := encode_eq_ok h
  rfl

/-- **A file that was written is corrupt if it is cut short anywhere, and is read as it is if
anything follows it.** -/
theorem decode_prefix_and_append (h : encode t = .ok bytes) (m : Option MemoryMap) :
    (∀ front, front <+: bytes → front ≠ bytes →
      ∃ corruption, decode front m = .error (.corrupt corruption)) ∧
    ∀ more, decode (bytes ++ more) m = decode bytes m := by
  refine ⟨?_, ?_⟩
  · intro front hcut hne
    cases hdecode : decode front m with
    | ok other =>
      rw [decode_eq] at hdecode
      obtain ⟨stored, hstored, -⟩ := exists_of_bind_eq_ok hdecode
      obtain ⟨headers, pathnames, chains, hlaid, -⟩ := readStored_eq_ok_iff.1 hstored
      obtain ⟨more, rfl⟩ := hcut
      have hmore := hlaid.eq_nil_of_encode h
      rw [hmore, List.append_nil] at hne
      exact absurd rfl hne
    | error cause =>
      have hrefusal := refusal?_of_cut hcut (refusal?_of_encode h)
      have hfails : FailsOnly Error.IsCorrupt (decode front m) := by
        rw [decode_eq]
        exact (failsOnly_readStored hrefusal).bind fun _ _ => failsOnly_ok
      obtain ⟨corruption, rfl⟩ := hfails cause hdecode
      exact ⟨corruption, rfl⟩
  · intro more
    obtain ⟨result, hresult⟩ := exists_readStored_append h
    have hbytes := hresult []
    rw [List.append_nil] at hbytes
    rw [decode_eq, hresult more, decode_eq, hbytes]

theorem decode_prefix_and_append_oneChain :
    encode .oneChain = .ok oneChain ∧
    (∃ corruption, decode (oneChain.take 45) none = .error (.corrupt corruption)) ∧
    decode (oneChain ++ [0xBB, 0]) none = decode oneChain none := by
  have hencode : encode .oneChain = .ok oneChain := by cbv
  obtain ⟨hcut, hmore⟩ := decode_prefix_and_append hencode none
  exact ⟨hencode, hcut _ (List.take_prefix ..) (by decide), hmore _⟩

end Format

end PointerChains
