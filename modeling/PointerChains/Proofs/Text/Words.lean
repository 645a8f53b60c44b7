import Mathlib.Data.List.Basic
import Mathlib.Data.List.TakeWhile
import PointerChains.Text.Blank

/-!
# Words and margins

Words are told apart by blanks alone, so that blanks in front of a text, behind it, or in place of
other blanks between two words change nothing but the margins.

* `Text.IsWord`, `Text.words` — words, and those of a text in order;
* `Text.word?_of_isWord` — the first word, behind blanks and in front of a blank or the end;
* `Text.word?_concat_blanks`, `Text.trim_concat_blanks` — blanks at the end;
* `Text.words_of_word?` — taking words off one by one gives the words.
-/

namespace PointerChains.Text

variable {cs gap word rest pad : List Char}

/-- The characters are white space. -/
def IsBlanks (cs : List Char) : Prop := ∀ c ∈ cs, isBlank c = true

/-- There are characters, and none is white space. -/
def IsWord (cs : List Char) : Prop := cs ≠ [] ∧ ∀ c ∈ cs, isBlank c = false

/-- Neither the first character nor the last one is white space. -/
def IsTrimmed (cs : List Char) : Prop :=
  (∀ c ∈ cs.head?, isBlank c = false) ∧ ∀ c ∈ cs.getLast?, isBlank c = false

instance : Decidable (IsBlanks cs) :=
  decidable_of_iff (cs.all isBlank = true) List.all_eq_true

instance : Decidable (IsWord cs) :=
  decidable_of_iff (cs ≠ [] ∧ cs.all (!isBlank ·) = true) (by simp [IsWord])

instance : Decidable (IsTrimmed cs) :=
  decidable_of_iff (cs.head?.all (!isBlank ·) = true ∧ cs.getLast?.all (!isBlank ·) = true)
    (by simp [IsTrimmed, Option.all_eq_true])

/-- The words of a text. -/
def words (cs : List Char) : List (List Char) :=
  (cs.splitOnP isBlank).filter fun word => word ≠ []

/-! ### Margins -/

theorem dropWhile_blanks (h : IsBlanks gap) (cs : List Char) :
    (gap ++ cs).dropWhile isBlank = cs.dropWhile isBlank :=
  List.dropWhile_append_of_pos h

theorem dropWhile_of_head? (h : ∀ c ∈ cs.head?, isBlank c = false) : cs.dropWhile isBlank = cs := by
  cases cs with
  | nil => rfl
  | cons c cs => rw [List.dropWhile_cons_of_neg (by simp [h c rfl])]

theorem trimStart_blanks (h : IsBlanks gap) (cs : List Char) :
    trimStart (gap ++ cs) = trimStart cs :=
  dropWhile_blanks h cs

theorem trimEnd_concat_blanks (h : IsBlanks pad) (cs : List Char) :
    trimEnd (cs ++ pad) = trimEnd cs := by
  have hreverse : IsBlanks pad.reverse := fun c hc => h c (List.mem_reverse.1 hc)
  rw [trimEnd, trimEnd, List.reverse_append, dropWhile_blanks hreverse]

/-- Blanks at the end do not matter to a text, unless there is nothing else. -/
theorem trim_concat_blanks (h : IsBlanks pad) (cs : List Char) : trim (cs ++ pad) = trim cs := by
  rw [trim, trim, trimStart, List.dropWhile_append]
  split
  · rename_i hnil
    rw [List.isEmpty_iff] at hnil
    have hpad : pad.dropWhile isBlank = [] := List.dropWhile_eq_nil_iff.2 h
    rw [hpad, trimStart, hnil]
  · exact trimEnd_concat_blanks h _

/-- The text between two margins. -/
theorem trim_margins (hgap : IsBlanks gap) (hcs : IsTrimmed cs) (hpad : IsBlanks pad) :
    trim (gap ++ cs ++ pad) = cs := by
  rw [trim_concat_blanks hpad, trim, trimStart_blanks hgap, trimStart, dropWhile_of_head? hcs.1,
    trimEnd, dropWhile_of_head? (by rw [List.head?_reverse]; exact hcs.2), List.reverse_reverse]

theorem isTrimmed_of_isWord (h : IsWord cs) : IsTrimmed cs :=
  ⟨fun c hc => h.2 c (List.mem_of_mem_head? hc), fun c hc => h.2 c (List.mem_of_mem_getLast? hc)⟩

theorem trim_of_isWord (h : IsWord cs) : trim cs = cs := by
  have hmargins : trim ([] ++ cs ++ []) = cs := trim_margins nofun (isTrimmed_of_isWord h) nofun
  rwa [List.nil_append, List.append_nil] at hmargins

/-! ### The first word -/

theorem word?_eq_none_iff : word? cs = none ↔ IsBlanks cs := by
  rw [word?, trimStart]
  cases hrest : cs.dropWhile isBlank with
  | nil => exact iff_of_true rfl (List.dropWhile_eq_nil_iff.1 hrest)
  | cons c rest =>
    refine iff_of_false (Option.some_ne_none _) fun h => ?_
    rw [List.dropWhile_eq_nil_iff.2 h] at hrest
    cases hrest

/-- The first word stands behind blanks, and in front of a blank or the end. -/
theorem word?_of_isWord (hgap : IsBlanks gap) (hword : IsWord word)
    (hrest : ∀ c ∈ rest.head?, isBlank c = true) :
    word? (gap ++ (word ++ rest)) = some (word, rest) := by
  obtain ⟨hne, hword⟩ := hword
  have hstart : trimStart (gap ++ (word ++ rest)) = word ++ rest := by
    rw [trimStart_blanks hgap, trimStart]
    refine dropWhile_of_head? ?_
    rw [List.head?_append_of_ne_nil word hne]
    exact fun c hc => hword c (List.mem_of_mem_head? hc)
  have hkeep : ∀ c ∈ word, (!isBlank c) = true := by
    intro c hc
    rw [hword c hc]
    rfl
  have hstop : rest.takeWhile (!isBlank ·) = [] ∧ rest.dropWhile (!isBlank ·) = rest := by
    cases rest with
    | nil => exact ⟨rfl, rfl⟩
    | cons c rest => simp [hrest c rfl]
  rw [word?, hstart]
  cases hall : word ++ rest with
  | nil => exact absurd (List.append_eq_nil_iff.1 hall).1 hne
  | cons c cs =>
    show some ((c :: cs).takeWhile (!isBlank ·), (c :: cs).dropWhile (!isBlank ·)) = _
    rw [← hall, List.takeWhile_append_of_pos hkeep, List.dropWhile_append_of_pos hkeep, hstop.1,
      hstop.2, List.append_nil]

/-- A text with a first word is that word between blanks and the rest. -/
theorem word?_eq_some (h : word? cs = some (word, rest)) :
    ∃ gap, IsBlanks gap ∧ IsWord word ∧ (∀ c ∈ rest.head?, isBlank c = true) ∧
      cs = gap ++ (word ++ rest) := by
  refine ⟨cs.takeWhile isBlank, fun c hc => List.mem_takeWhile_imp hc, ?_, ?_, ?_⟩
  · rw [word?, trimStart] at h
    cases hstart : cs.dropWhile isBlank with
    | nil =>
      rw [hstart] at h
      cases h
    | cons c tail =>
      simp only [hstart, Option.some.injEq, Prod.mk.injEq] at h
      obtain ⟨rfl, -⟩ := h
      have hc : isBlank c = false := by
        have hhead := List.head?_dropWhile_not isBlank cs
        rw [hstart] at hhead
        simpa using hhead
      refine ⟨by simp [hc], fun d hd => ?_⟩
      simpa using List.mem_takeWhile_imp hd
  · rw [word?] at h
    split at h
    · cases h
    · simp only [Option.some.injEq, Prod.mk.injEq] at h
      obtain ⟨-, rfl⟩ := h
      intro c hc
      have hhead := List.head?_dropWhile_not (!isBlank ·) (trimStart cs)
      rw [Option.mem_def.1 hc] at hhead
      simpa using hhead
  · rw [← List.append_assoc]
    exact (word?_append h).symm

/-- Blanks behind a text stay behind its first word. -/
theorem word?_concat_blanks (h : IsBlanks pad) (cs : List Char) :
    word? (cs ++ pad) = (word? cs).map fun split => (split.1, split.2 ++ pad) := by
  cases hsplit : word? cs with
  | none =>
    rw [Option.map_none, word?_eq_none_iff]
    intro c hc
    rcases List.mem_append.1 hc with hc | hc
    · exact word?_eq_none_iff.1 hsplit c hc
    · exact h c hc
  | some split =>
    obtain ⟨word, rest⟩ := split
    obtain ⟨gap, hgap, hword, hrest, rfl⟩ := word?_eq_some hsplit
    rw [Option.map_some, List.append_assoc, List.append_assoc]
    refine word?_of_isWord hgap hword ?_
    intro c hc
    rw [List.head?_append] at hc
    cases hhead : rest.head? with
    | none =>
      rw [hhead, Option.none_or] at hc
      exact h c (List.mem_of_mem_head? hc)
    | some d =>
      rw [hhead, Option.some_or] at hc
      cases hc
      exact hrest c hhead

/-! ### All words -/

theorem words_blanks (h : IsBlanks gap) (cs : List Char) : words (gap ++ cs) = words cs := by
  induction gap with
  | nil => rfl
  | cons c gap ih =>
    rw [List.cons_append, words, List.splitOnP_cons_eq_if_modifyHead,
      if_pos (h c (List.mem_cons_self ..)), List.filter_cons_of_neg (by simp)]
    exact ih fun d hd => h d (List.mem_cons_of_mem c hd)

theorem words_of_isBlanks (h : IsBlanks cs) : words cs = [] := by
  have hwords := words_blanks h []
  rw [List.append_nil] at hwords
  rw [hwords]
  rfl

/-- Taking the first word off leaves the other words. -/
theorem words_of_word? (h : word? cs = some (word, rest)) : words cs = word :: words rest := by
  obtain ⟨gap, hgap, ⟨hne, hword⟩, hrest, rfl⟩ := word?_eq_some h
  rw [words_blanks hgap, words]
  cases rest with
  | nil =>
    rw [List.append_nil, List.splitOnP_eq_singleton hword, List.filter_cons_of_pos (by simpa)]
    rfl
  | cons c rest =>
    have hc : isBlank c = true := hrest c rfl
    rw [List.splitOnP_append_cons_of_forall_mem hword c hc, List.filter_cons_of_pos (by simpa)]
    -- the blank behind the word opens the rest
    have hskip : words ([c] ++ rest) = words rest :=
      words_blanks (by simpa [IsBlanks] using hc) rest
    exact congrArg _ hskip.symm

end PointerChains.Text
