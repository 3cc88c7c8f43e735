import ArithDispatch.Text.WhiteSpace

/-! What trimming leaves: the part of a text between its outer white space. -/
namespace ArithDispatch.Text

/-- White space stands around the core, which neither begins nor ends with any. -/
structure Trimmed (text core : String) : Prop where
  around : ∃ before after, text.toList = before ++ core.toList ++ after ∧
    ∀ c ∈ before ++ after, isWhiteSpace c = true
  first : ∀ c ∈ core.toList.head?, isWhiteSpace c = false
  last : ∀ c ∈ core.toList.getLast?, isWhiteSpace c = false

variable {before after cs : List Char}

theorem trimStart_append (h : ∀ c ∈ before, isWhiteSpace c = true) :
    trimStart (before ++ cs) = trimStart cs :=
  List.dropWhile_append_of_pos h

theorem trimStart_eq_self (h : ∀ c ∈ cs.head?, isWhiteSpace c = false) : trimStart cs = cs := by
  cases cs with
  | nil => rfl
  | cons c cs => exact List.dropWhile_cons_of_neg (by simp [h c rfl])

theorem exists_append_trimStart (cs : List Char) : ∃ before, cs = before ++ trimStart cs ∧
    (∀ c ∈ before, isWhiteSpace c = true) ∧ ∀ c ∈ (trimStart cs).head?, isWhiteSpace c = false := by
  refine ⟨cs.takeWhile isWhiteSpace, List.takeWhile_append_dropWhile.symm, ?_, ?_⟩
  · intro c hc
    exact List.all_eq_true.mp List.all_takeWhile c hc
  · intro c hc
    have hhead := List.head?_dropWhile_not isWhiteSpace cs
    rw [trimStart, Option.mem_def] at hc
    rwa [hc] at hhead

theorem trimChars_append (hb : ∀ c ∈ before, isWhiteSpace c = true)
    (ha : ∀ c ∈ after, isWhiteSpace c = true) (hfirst : ∀ c ∈ cs.head?, isWhiteSpace c = false)
    (hlast : ∀ c ∈ cs.getLast?, isWhiteSpace c = false) :
    trimChars (before ++ cs ++ after) = cs := by
  have hrev : ∀ c ∈ after.reverse, isWhiteSpace c = true := fun c hc => ha c (List.mem_reverse.mp hc)
  have hend : trimStart cs.reverse = cs.reverse :=
    trimStart_eq_self (by rwa [List.head?_reverse])
  rw [trimChars, List.append_assoc, trimStart_append hb]
  cases cs with
  | nil =>
    rw [List.nil_append, ← List.append_nil after, trimStart_append ha]
    rfl
  | cons c cs =>
    have hkeep : trimStart (c :: cs ++ after) = c :: cs ++ after := trimStart_eq_self hfirst
    rw [hkeep, List.reverse_append, trimStart_append hrev, hend, List.reverse_reverse]

/-- Trimming finds the core, and there is no other. -/
theorem trim_eq_iff {text core : String} : trim text = core ↔ Trimmed text core := by
  constructor
  · rintro rfl
    obtain ⟨before, hb, hbefore, hfirst⟩ := exists_append_trimStart text.toList
    obtain ⟨after, ha, hafter, hlast⟩ := exists_append_trimStart (trimStart text.toList).reverse
    have hcore : trimStart text.toList = trimChars text.toList ++ after.reverse := by
      rw [trimChars, ← List.reverse_append, ← ha, List.reverse_reverse]
    constructor
    · refine ⟨before, after.reverse, ?_, ?_⟩
      · rw [trim, String.toList_ofList, List.append_assoc, ← hcore, ← hb]
      · intro c hc
        rcases List.mem_append.mp hc with hc | hc
        · exact hbefore c hc
        · exact hafter c (List.mem_reverse.mp hc)
    · intro c hc
      rw [trim, String.toList_ofList] at hc
      apply hfirst c
      rw [hcore, List.head?_append, hc]
      rfl
    · intro c hc
      rw [trim, String.toList_ofList, trimChars, List.getLast?_reverse] at hc
      exact hlast c hc
  · rintro ⟨⟨before, after, htext, hspace⟩, hfirst, hlast⟩
    have hb : ∀ c ∈ before, isWhiteSpace c = true := fun c hc => hspace c (List.mem_append_left _ hc)
    have ha : ∀ c ∈ after, isWhiteSpace c = true := fun c hc => hspace c (List.mem_append_right _ hc)
    rw [trim, htext, trimChars_append hb ha hfirst hlast, String.ofList_toList]

theorem Trimmed.unique {text core other : String} (h : Trimmed text core) (ho : Trimmed text other) :
    core = other :=
  (trim_eq_iff.mpr h).symm.trans (trim_eq_iff.mpr ho)

theorem Trimmed.of_no_space {text : String} (h : ∀ c ∈ text.toList, isWhiteSpace c = false) :
    Trimmed text text where
  around := ⟨[], [], by simp, by simp⟩
  first c hc := h c (List.mem_of_mem_head? hc)
  last c hc := h c (List.mem_of_mem_getLast? hc)

theorem isWhiteSpace_of_isDigit {c : Char} (h : c.isDigit = true) : isWhiteSpace c = false := by
  have hrange : 48 ≤ c.toNat ∧ c.toNat ≤ 57 := by
    simpa [Char.isDigit, UInt32.le_iff_toNat_le] using h
  rw [Bool.eq_false_iff]
  intro hspace
  simp [isWhiteSpace, whiteSpaceRanges] at hspace
  omega

theorem Trimmed.isBlank_eq_false {text core : String} (h : Trimmed text core) (hne : core ≠ "") :
    isBlank core = false := by
  cases hc : core.toList with
  | nil => exact absurd (String.toList_eq_nil_iff.mp hc) hne
  | cons c rest =>
    have hfirst := h.first c (by rw [hc]; rfl)
    rw [isBlank, hc, List.all_cons, hfirst]
    rfl

end ArithDispatch.Text
