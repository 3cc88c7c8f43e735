import ArithDispatch.Formula.Token
import Mathlib.Data.List.TakeWhile

/-! How a text is read as tokens: the scanner finds the reading of a text exactly when there is one. -/
namespace ArithDispatch.Formula
open Token (isNumberChar isSign startsNumber)

/-- The characters that tokens are written with. -/
def isTokenChar (c : Char) : Bool := c.isDigit || ['.', '+', '-', '*', '/', '(', ')'].contains c

/-- Digits and points, with a sign in front of them only where an operand is due. -/
def WritesNumber (due : Bool) (cs : List Char) : Prop :=
  ∃ first digits, cs = first :: digits ∧ (∀ c ∈ digits, isNumberChar c = true) ∧
    (isNumberChar first = true ∨ due = true ∧ isSign first = true ∧ startsNumber digits = true)

/-- The token may be read where `rest` follows it: a number runs as far as it can, and a sign that belongs
to a number is no operator. -/
def Suits (due : Bool) (rest : List Char) : Token → Prop
  | .number text => WritesNumber due text.toList ∧ startsNumber rest = false
  | .operator op => ¬ (due = true ∧ isSign op.symbol = true ∧ startsNumber rest = true)
  | .leftParen | .rightParen => True

/-- The tokens of a text, where an operand is due at its start or not. -/
inductive Reading : Bool → List Token → List Char → Prop
  | done {due : Bool} : Reading due [] []
  | space {due : Bool} {tokens : List Token} {c : Char} {cs : List Char} : Text.isWhiteSpace c = true →
      Reading due tokens cs → Reading due tokens (c :: cs)
  | token {due : Bool} {token : Token} {tokens : List Token} {cs : List Char} : Suits due cs token →
      Reading token.leavesOperandDue tokens cs → Reading due (token :: tokens) (token.text.toList ++ cs)

variable {due : Bool} {c : Char} {cs rest : List Char} {token : Token} {tokens : List Token}

section Characters

theorem isTokenChar_cases (h : isTokenChar c = true) :
    isNumberChar c = true ∨ c ∈ ['+', '-', '*', '/', '(', ')'] := by
  simp only [isTokenChar, isNumberChar, Bool.or_eq_true, List.contains_eq_mem, decide_eq_true_eq, beq_iff_eq,
    List.mem_cons] at h ⊢
  exact or_assoc.mpr h

theorem isTokenChar_of_isNumberChar (h : isNumberChar c = true) : isTokenChar c = true := by
  rw [isNumberChar, Bool.or_eq_true, beq_iff_eq] at h
  rcases h with h | rfl
  · rw [isTokenChar, h, Bool.true_or]
  · decide

theorem isTokenChar_of_isSign (h : isSign c = true) : isTokenChar c = true := by
  rw [isSign, Bool.or_eq_true, beq_iff_eq, beq_iff_eq] at h
  rcases h with rfl | rfl <;> decide

theorem isWhiteSpace_of_isTokenChar (h : isTokenChar c = true) : Text.isWhiteSpace c = false := by
  rcases isTokenChar_cases h with h | h
  · have hc : c = '.' ∨ (48 ≤ c.toNat ∧ c.toNat ≤ 57) := by
      simp only [isNumberChar, Char.isDigit, Bool.or_eq_true, Bool.and_eq_true, decide_eq_true_eq,
        beq_iff_eq] at h
      rcases h with ⟨hl, hu⟩ | h
      · exact .inr ⟨hl, hu⟩
      · exact .inl h
    rcases hc with rfl | hc
    · decide
    · simp only [Text.isWhiteSpace, Text.whiteSpaceRanges, List.any_cons, List.any_nil,
        Bool.or_eq_false_iff, Bool.and_eq_false_iff, decide_eq_false_iff_not, and_true]
      omega
  · simp only [List.mem_cons, List.not_mem_nil, or_false] at h
    rcases h with rfl | rfl | rfl | rfl | rfl | rfl <;> decide

theorem startsNumber_of_isWhiteSpace (h : Text.isWhiteSpace c = true) (rest : List Char) :
    startsNumber (c :: rest) = false := by
  apply Bool.eq_false_iff.mpr
  intro hn
  rw [isWhiteSpace_of_isTokenChar (isTokenChar_of_isNumberChar hn)] at h
  cases h

theorem takeWhile_of_not_startsNumber (h : startsNumber cs = false) :
    cs.takeWhile isNumberChar = [] ∧ cs.dropWhile isNumberChar = cs := by
  cases cs with
  | nil => exact ⟨rfl, rfl⟩
  | cons c cs =>
    have hn : isNumberChar c = false := h
    simp [hn]

theorem startsNumber_dropWhile (cs : List Char) : startsNumber (cs.dropWhile isNumberChar) = false := by
  have hhead := List.head?_dropWhile_not isNumberChar cs
  cases hd : cs.dropWhile isNumberChar with
  | nil => rfl
  | cons c rest => simpa [hd, startsNumber] using hhead

theorem startsNumber_takeWhile (cs : List Char) :
    startsNumber (cs.takeWhile isNumberChar) = startsNumber cs := by
  cases cs with
  | nil => rfl
  | cons c cs => cases hc : isNumberChar c <;> simp [startsNumber, hc]

end Characters

theorem toList_text_operator (op : Operator) : (Token.operator op).text.toList = [op.symbol] := by
  cases op <;> rfl

theorem WritesNumber.isTokenChar (h : WritesNumber due cs) (hc : c ∈ cs) : isTokenChar c = true := by
  obtain ⟨first, digits, rfl, hd, hf⟩ := h
  rcases List.mem_cons.mp hc with rfl | hc
  · rcases hf with hf | ⟨_, hf, _⟩
    · exact isTokenChar_of_isNumberChar hf
    · exact isTokenChar_of_isSign hf
  · exact isTokenChar_of_isNumberChar (hd c hc)

theorem Suits.isTokenChar (h : Suits due rest token) (hc : c ∈ token.text.toList) : isTokenChar c = true := by
  cases token with
  | number text => exact h.1.isTokenChar hc
  | operator op =>
    rw [toList_text_operator, List.mem_singleton] at hc
    subst hc
    cases op <;> decide
  | leftParen =>
    obtain rfl : c = '(' := List.mem_singleton.mp hc
    decide
  | rightParen =>
    obtain rfl : c = ')' := List.mem_singleton.mp hc
    decide

/-- A token that suits its place is the next one that the scanner finds. -/
theorem scan_token (h : Suits due rest token) (offset : Nat) :
    Token.scan offset due (token.text.toList ++ rest) =
      (Token.scan (offset + token.text.toList.length) token.leavesOperandDue rest).map (token :: ·) := by
  cases token with
  | number text =>
    obtain ⟨hwrites, hrest⟩ := h
    obtain ⟨first, digits, ht, hd, hf⟩ := id hwrites
    obtain ⟨htake, hdrop⟩ := takeWhile_of_not_startsNumber hrest
    have hw : ¬ Text.isWhiteSpace first = true := by
      rw [isWhiteSpace_of_isTokenChar (hwrites.isTokenChar (ht ▸ List.mem_cons_self))]
      exact Bool.false_ne_true
    have hstart : (isNumberChar first || (due && isSign first && startsNumber (digits ++ rest))) = true := by
      rcases hf with hf | ⟨rfl, hs, hn⟩
      · rw [hf, Bool.true_or]
      · obtain ⟨c, digits, rfl⟩ : ∃ c more, digits = c :: more :=
          List.exists_cons_of_ne_nil (by rintro rfl; cases hn)
        have hn : startsNumber (c :: digits ++ rest) = true := hn
        rw [hs, hn, Bool.and_self, Bool.and_self, Bool.or_true]
    have hname : String.ofList (first :: digits) = text := by rw [← ht, String.ofList_toList]
    have hlen : offset + (first :: digits).length = offset + 1 + digits.length := by
      rw [List.length_cons, Nat.add_assoc, Nat.add_comm 1]
    rw [Token.text, ht, List.cons_append, Token.scan, if_neg hw, if_pos hstart,
      List.takeWhile_append_of_pos hd, List.dropWhile_append_of_pos hd, htake, hdrop, List.append_nil, hlen,
      ← hname]
    rfl
  | operator op =>
    have hw : ¬ Text.isWhiteSpace op.symbol = true := by cases op <;> decide
    have hn : isNumberChar op.symbol = false := by cases op <;> decide
    have ho : Token.ofChar? op.symbol = some (.operator op) := by cases op <;> rfl
    have hs : ¬ (isNumberChar op.symbol || (due && isSign op.symbol && startsNumber rest)) = true := by
      rw [hn, Bool.false_or, Bool.and_eq_true, Bool.and_eq_true, and_assoc]
      exact h
    rw [toList_text_operator, List.singleton_append, Token.scan, if_neg hw, if_neg hs, ho]
    rfl
  | leftParen =>
    change Token.scan offset due ('(' :: rest) = _
    rw [Token.scan, if_neg (by decide), if_neg (by simp [isNumberChar, isSign])]
    rfl
  | rightParen =>
    change Token.scan offset due (')' :: rest) = _
    rw [Token.scan, if_neg (by decide), if_neg (by simp [isNumberChar, isSign])]
    rfl

/-- White space in front of a text changes nothing. -/
theorem Reading.gap {gap : List Char} (hgap : ∀ c ∈ gap, Text.isWhiteSpace c = true)
    (h : Reading due tokens cs) : Reading due tokens (gap ++ cs) := by
  induction gap with
  | nil => exact h
  | cons c gap ih =>
    obtain ⟨hc, hgap⟩ := List.forall_mem_cons.mp hgap
    exact .space hc (ih hgap)

theorem Reading.scan (h : Reading due tokens cs) (offset : Nat) : Token.scan offset due cs = .ok tokens := by
  induction h generalizing offset with
  | done => rw [Token.scan]
  | space hw _ ih => rw [Token.scan, if_pos hw, ih]
  | token hs _ ih =>
    rw [scan_token hs, ih]
    rfl

section Scanned

/-- Where the scanner starts a number, the number that it takes suits its place. -/
theorem suits_of_start
    (h : (isNumberChar c || (due && isSign c && startsNumber rest)) = true) :
    Suits due (rest.dropWhile isNumberChar) (.number (String.ofList (c :: rest.takeWhile isNumberChar))) := by
  refine ⟨?_, startsNumber_dropWhile rest⟩
  rw [String.toList_ofList]
  refine ⟨c, _, rfl, fun d => List.mem_takeWhile_imp, ?_⟩
  rw [startsNumber_takeWhile]
  simpa [and_assoc] using h

theorem text_of_start (c : Char) (rest : List Char) :
    (Token.number (String.ofList (c :: rest.takeWhile isNumberChar))).text.toList ++
      rest.dropWhile isNumberChar = c :: rest := by
  rw [Token.text, String.toList_ofList, List.cons_append, List.takeWhile_append_dropWhile]

theorem text_of_ofChar? (h : Token.ofChar? c = some token) : token.text.toList = [c] := by
  unfold Token.ofChar? at h
  split at h
  · cases h
    rfl
  · cases h
    rfl
  · obtain ⟨op, hop, rfl⟩ := Option.map_eq_some_iff.mp h
    rw [toList_text_operator, Operator.symbol_of_ofSymbol? hop]

/-- A character that starts no number suits its place as a token by itself. -/
theorem suits_of_ofChar? (h : Token.ofChar? c = some token)
    (hn : ¬ (isNumberChar c || (due && isSign c && startsNumber rest)) = true) : Suits due rest token := by
  unfold Token.ofChar? at h
  split at h
  · cases h
    trivial
  · cases h
    trivial
  · obtain ⟨op, hop, rfl⟩ := Option.map_eq_some_iff.mp h
    rw [Suits, Operator.symbol_of_ofSymbol? hop]
    rintro ⟨hdue, hs, hstart⟩
    exact hn (by rw [hdue, hs, hstart, Bool.and_self, Bool.and_self, Bool.or_true])

theorem exists_ok_of_map {α β : Type} {result : Except Fault α} {f : α → β} {b : β}
    (h : result.map f = .ok b) : ∃ a, result = .ok a ∧ f a = b := by
  cases result with
  | error fault => cases h
  | ok a => exact ⟨a, rfl, Except.ok.inj h⟩

theorem reading_of_scan {offset : Nat} (h : Token.scan offset due cs = .ok tokens) :
    Reading due tokens cs := by
  fun_induction Token.scan offset due cs generalizing tokens with
  | case1 =>
    cases h
    exact .done
  | case2 offset due c rest hw ih => exact .space hw (ih h)
  | case3 offset due c rest hw hstart digits =>
    rename_i ih
    obtain ⟨after, hrest, rfl⟩ := exists_ok_of_map h
    have hread := Reading.token (suits_of_start hstart) (ih hrest)
    rwa [text_of_start] at hread
  | case4 offset due c rest hw hstart token htoken ih =>
    obtain ⟨after, hrest, rfl⟩ := exists_ok_of_map h
    have hread := Reading.token (suits_of_ofChar? htoken hstart) (ih hrest)
    rwa [text_of_ofChar? htoken] at hread
  | case5 => cases h

end Scanned

/-- The scanner gives the reading of a text, if it has one. -/
theorem scan_eq_ok_iff {offset : Nat} : Token.scan offset due cs = .ok tokens ↔ Reading due tokens cs :=
  ⟨reading_of_scan, fun h => h.scan offset⟩

end ArithDispatch.Formula
