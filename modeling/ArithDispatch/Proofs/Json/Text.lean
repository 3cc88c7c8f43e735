import ArithDispatch.Json.Printer

/-! Strings read back from the texts that are printed for them. -/
namespace ArithDispatch.Json

/-- How a reader meets a character that was printed. -/
def pieceOf (c : Char) : Piece :=
  if c.toNat < 0x20 ∧ escapeLetter? c = none then .unit c.toNat else .char c

/-- The letters are read as the characters that they are written for. -/
theorem escapeValue?_of_escapeLetter? {c letter : Char} (h : escapeLetter? c = some letter) :
    letter ≠ 'u' ∧ escapeValue? letter = some c := by
  unfold escapeLetter? at h
  split at h <;> cases h
  all_goals exact ⟨by decide, rfl⟩

theorem hexValue?_digitChar : ∀ n < 16, hexValue? (Nat.digitChar n) = some n := by decide

theorem unitValue?_escaped {n : Nat} (h : n < 0x20) :
    unitValue? '0' '0' (Nat.digitChar (n / 16)) (Nat.digitChar (n % 16)) = some n := by
  have hzero : hexValue? '0' = some 0 := rfl
  have hhigh := hexValue?_digitChar (n / 16) (by omega)
  have hlow := hexValue?_digitChar (n % 16) (by omega)
  simp only [unitValue?, hzero, hhigh, hlow, Option.bind_eq_bind, Option.bind_some, Option.pure_def]
  congr 1
  omega

theorem takePieces_char {c : Char} (hl : escapeLetter? c = none) (hc : ¬ c.toNat < 0x20) (rest : List Char) :
    takePieces (c :: rest) = (takePieces rest).map fun (pieces, rest) => (.char c :: pieces, rest) := by
  rw [takePieces.eq_def]
  split
  · next he => cases he
  · next he =>
    cases he
    cases hl
  · next he =>
    cases he
    cases hl
  · next he =>
    cases he
    cases hl
  · next he =>
    cases he
    rw [if_neg hc]
    cases takePieces rest <;> rfl

theorem takePieces_letter {e c : Char} (hu : e ≠ 'u') (he : escapeValue? e = some c) (rest : List Char) :
    takePieces ('\\' :: e :: rest) = (takePieces rest).map fun (pieces, rest) => (.char c :: pieces, rest) := by
  rw [takePieces.eq_def]
  split
  · next h => cases h
  · next h => cases h
  · next h =>
    cases h
    exact absurd rfl hu
  · next h =>
    cases h
    rw [he]
    cases takePieces rest <;> rfl
  · next hno h =>
    cases h
    exact absurd rfl (hno e rest rfl)

theorem takePieces_unit {n : Nat} (h : n < 0x20) (rest : List Char) :
    takePieces ('\\' :: 'u' :: '0' :: '0' :: Nat.digitChar (n / 16) :: Nat.digitChar (n % 16) :: rest) =
      (takePieces rest).map fun (pieces, rest) => (.unit n :: pieces, rest) := by
  simp only [takePieces, unitValue?_escaped h, Option.bind_eq_bind, Option.bind_some]
  cases takePieces rest <;> rfl

/-- A printed character is taken as one piece. -/
theorem takePieces_escaped (c : Char) (rest : List Char) : takePieces (escaped c ++ rest) =
    (takePieces rest).map fun (pieces, rest) => (pieceOf c :: pieces, rest) := by
  unfold escaped
  cases hl : escapeLetter? c with
  | some letter =>
    have hp : pieceOf c = .char c := if_neg fun h => by simp [hl] at h
    obtain ⟨hu, hvalue⟩ := escapeValue?_of_escapeLetter? hl
    rw [hp]
    exact takePieces_letter hu hvalue rest
  | none =>
    by_cases hc : c.toNat < 0x20
    · have hp : pieceOf c = .unit c.toNat := if_pos ⟨hc, hl⟩
      simp only [hp, if_pos hc]
      exact takePieces_unit hc rest
    · have hp : pieceOf c = .char c := if_neg fun h => hc h.1
      simp only [hp, if_neg hc]
      exact takePieces_char hl hc rest

theorem takePieces_text (cs rest : List Char) :
    takePieces (cs.flatMap escaped ++ '"' :: rest) = some (cs.map pieceOf, rest) := by
  induction cs with
  | nil => simp only [List.flatMap_nil, List.nil_append, takePieces, List.map_nil]
  | cons c cs ih => rw [List.flatMap_cons, List.append_assoc, takePieces_escaped, ih, Option.map_some, List.map_cons]

/-- The units of control characters are no surrogates. -/
theorem joinPieces_pieceOf (c : Char) (pieces : List Piece) :
    joinPieces (pieceOf c :: pieces) = (joinPieces pieces).map (c :: ·) := by
  unfold pieceOf
  split
  · next h =>
    have hlead : isLeading c.toNat = false := by
      simp only [isLeading, Bool.and_eq_false_iff, decide_eq_false_iff_not]
      omega
    have htrail : isTrailing c.toNat = false := by
      simp only [isTrailing, Bool.and_eq_false_iff, decide_eq_false_iff_not]
      omega
    cases pieces with
    | nil => simp [joinPieces, hlead, htrail]
    | cons piece pieces =>
      cases piece with
      | char d => simp [joinPieces, hlead, htrail]
      | unit n => simp [joinPieces, hlead, htrail]
  · simp only [joinPieces]

theorem joinPieces_map_pieceOf (cs : List Char) : joinPieces (cs.map pieceOf) = some cs := by
  induction cs with
  | nil => rfl
  | cons c cs ih => rw [List.map_cons, joinPieces_pieceOf, ih, Option.map_some]

end ArithDispatch.Json
