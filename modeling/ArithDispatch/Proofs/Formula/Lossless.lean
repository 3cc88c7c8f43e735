import ArithDispatch.Proofs.Formula.Reading
import Mathlib.Data.String.Defs

/-! What becomes of the characters of a text. All but white space come back in the tokens, in their order,
and the first character that no formula contains is the only thing that stops the scanner. -/
namespace ArithDispatch.Formula
open Token (isNumberChar isSign startsNumber)

variable {due : Bool} {c : Char} {cs rest : List Char} {token : Token} {tokens : List Token}

/-- The characters that formulas are written with. -/
def isFormulaChar (c : Char) : Bool := Text.isWhiteSpace c || isTokenChar c

theorem isFormulaChar_of_isWhiteSpace (h : Text.isWhiteSpace c = true) : isFormulaChar c = true := by
  rw [isFormulaChar, h, Bool.true_or]

theorem isFormulaChar_of_isTokenChar (h : isTokenChar c = true) : isFormulaChar c = true := by
  rw [isFormulaChar, h, Bool.or_true]

theorem Reading.isFormulaChar (h : Reading due tokens cs) (hc : c ∈ cs) : isFormulaChar c = true := by
  induction h with
  | done => cases hc
  | space hw _ ih =>
    rcases List.mem_cons.mp hc with rfl | hc
    · exact isFormulaChar_of_isWhiteSpace hw
    · exact ih hc
  | token hs _ ih =>
    rcases List.mem_append.mp hc with hc | hc
    · exact isFormulaChar_of_isTokenChar (hs.isTokenChar hc)
    · exact ih hc

/-- How many bytes the characters take in UTF-8. -/
def byteLength (cs : List Char) : Nat := (String.ofList cs).utf8ByteSize

theorem byteLength_cons (c : Char) (cs : List Char) : byteLength (c :: cs) = c.utf8Size + byteLength cs := by
  rw [byteLength, String.ofList_cons, String.utf8ByteSize_append, String.utf8ByteSize_singleton, byteLength]

theorem utf8Size_of_isTokenChar (h : isTokenChar c = true) : c.utf8Size = 1 := by
  rcases isTokenChar_cases h with h | h
  · apply Char.utf8Size_eq_one_iff.mpr
    rw [isNumberChar, Bool.or_eq_true, beq_iff_eq, Char.isDigit, Bool.and_eq_true] at h
    rcases h with ⟨_, h⟩ | rfl
    · exact Nat.le_trans (of_decide_eq_true h) (by decide)
    · decide
  · simp only [List.mem_cons, List.not_mem_nil, or_false] at h
    rcases h with rfl | rfl | rfl | rfl | rfl | rfl <;> decide

theorem byteLength_append (h : ∀ c ∈ cs, isTokenChar c = true) (rest : List Char) :
    byteLength (cs ++ rest) = cs.length + byteLength rest := by
  induction cs with
  | nil => exact (Nat.zero_add _).symm
  | cons c cs ih =>
    obtain ⟨hc, hcs⟩ := List.forall_mem_cons.mp h
    rw [List.cons_append, byteLength_cons, utf8Size_of_isTokenChar hc, ih hcs, List.length_cons]
    omega

/-- The first character that no formula contains, at its place in bytes. -/
def FirstUnknown (cs : List Char) (c : Char) (offset : Nat) : Prop :=
  ∃ front rest, cs = front ++ c :: rest ∧ (∀ d ∈ front, isFormulaChar d = true) ∧
    isFormulaChar c = false ∧ offset = byteLength front

/-- A text has one first such character at most. -/
theorem FirstUnknown.unique {other : Char} {place place' : Nat} (h : FirstUnknown cs c place)
    (h' : FirstUnknown cs other place') : c = other ∧ place = place' := by
  obtain ⟨front, rest, rfl, hfront, hc, rfl⟩ := h
  obtain ⟨front', rest', he, hfront', hc', rfl⟩ := h'
  have hsame : front = front' := by
    have htake := congrArg (List.takeWhile isFormulaChar) he
    rw [List.takeWhile_append_of_pos hfront, List.takeWhile_append_of_pos hfront'] at htake
    simpa [hc, hc'] using htake
  subst hsame
  have htail := List.append_cancel_left he
  exact ⟨(List.cons.inj htail).1, rfl⟩

theorem FirstUnknown.behind_space {unknown : Char} {place : Nat} (h : FirstUnknown cs unknown place)
    (hc : Text.isWhiteSpace c = true) : FirstUnknown (c :: cs) unknown (c.utf8Size + place) := by
  obtain ⟨front, rest, rfl, hfront, hu, rfl⟩ := h
  have hknown := isFormulaChar_of_isWhiteSpace hc
  exact ⟨c :: front, rest, rfl, List.forall_mem_cons.mpr ⟨hknown, hfront⟩, hu, (byteLength_cons ..).symm⟩

theorem FirstUnknown.behind_token {unknown : Char} {place : Nat} (h : FirstUnknown cs unknown place)
    (hs : Suits due rest token) :
    FirstUnknown (token.text.toList ++ cs) unknown (token.text.toList.length + place) := by
  obtain ⟨front, after, rfl, hfront, hu, rfl⟩ := h
  have htoken : ∀ d ∈ token.text.toList, isTokenChar d = true := fun d => hs.isTokenChar
  refine ⟨token.text.toList ++ front, after, (List.append_assoc ..).symm, ?_, hu,
    (byteLength_append htoken front).symm⟩
  intro d hd
  rcases List.mem_append.mp hd with hd | hd
  · exact isFormulaChar_of_isTokenChar (htoken d hd)
  · exact hfront d hd

theorem isTokenChar_of_ofChar?_eq_none (h : Token.ofChar? c = none) (hn : isNumberChar c = false) :
    isTokenChar c = false := by
  apply Bool.eq_false_iff.mpr
  intro hc
  rcases isTokenChar_cases hc with hc | hc
  · exact absurd (hc.symm.trans hn) (by decide)
  · simp only [List.mem_cons, List.not_mem_nil, or_false] at hc
    rcases hc with rfl | rfl | rfl | rfl | rfl | rfl <;> exact absurd h (by decide)

theorem exists_error_of_map {α β : Type} {result : Except Fault α} {f : α → β} {fault : Fault}
    (h : result.map f = .error fault) : result = .error fault := by
  cases result with
  | error other => exact congrArg Except.error (Except.error.inj h)
  | ok a => cases h

theorem firstUnknown_of_scan {offset : Nat} {fault : Fault} (h : Token.scan offset due cs = .error fault) :
    ∃ c place, FirstUnknown cs c place ∧ fault = .unknownSymbol c (offset + place) := by
  fun_induction Token.scan offset due cs with
  | case1 => cases h
  | case2 offset due c rest hw ih =>
    obtain ⟨unknown, place, hfirst, rfl⟩ := ih h
    exact ⟨unknown, _, hfirst.behind_space hw, by rw [Nat.add_assoc]⟩
  | case3 offset due c rest hw hstart digits =>
    rename_i ih
    obtain ⟨unknown, place, hfirst, rfl⟩ := ih (exists_error_of_map h)
    have hbehind := hfirst.behind_token (suits_of_start hstart)
    rw [text_of_start, Token.text, String.toList_ofList, List.length_cons, Nat.add_comm _ 1] at hbehind
    exact ⟨unknown, _, hbehind, by rw [Nat.add_assoc, Nat.add_assoc, Nat.add_assoc]⟩
  | case4 offset due c rest hw hstart token htoken ih =>
    obtain ⟨unknown, place, hfirst, rfl⟩ := ih (exists_error_of_map h)
    have hbehind := hfirst.behind_token (suits_of_ofChar? htoken hstart)
    rw [text_of_ofChar? htoken] at hbehind
    exact ⟨unknown, _, hbehind, by rw [Nat.add_assoc, List.length_singleton]⟩
  | case5 offset due c rest hw hstart hnone =>
    obtain rfl := Except.error.inj h
    have hunknown : isFormulaChar c = false := by
      rw [Bool.not_eq_true] at hw hstart
      rw [isFormulaChar, hw, isTokenChar_of_ofChar?_eq_none hnone (Bool.or_eq_false_iff.mp hstart).1]
      rfl
    exact ⟨c, 0, ⟨[], rest, rfl, List.forall_mem_nil _, hunknown, rfl⟩, rfl⟩

/-- The scanner stops at the first character that no formula contains, and nowhere else. -/
theorem scan_eq_error_iff {offset : Nat} {fault : Fault} : Token.scan offset due cs = .error fault ↔
    ∃ c place, FirstUnknown cs c place ∧ fault = .unknownSymbol c (offset + place) := by
  constructor
  · exact firstUnknown_of_scan
  · rintro ⟨c, place, hfirst, rfl⟩
    cases hs : Token.scan offset due cs with
    | ok tokens =>
      obtain ⟨front, rest, rfl, _, hc, _⟩ := hfirst
      have hknown := (reading_of_scan hs).isFormulaChar (List.mem_append_right front List.mem_cons_self)
      exact absurd (hknown.symm.trans hc) (by decide)
    | error fault =>
      obtain ⟨other, place', hother, rfl⟩ := firstUnknown_of_scan hs
      obtain ⟨rfl, rfl⟩ := hfirst.unique hother
      rfl

/-- The characters that are no white space. -/
def unspaced (cs : List Char) : List Char := cs.filter (!Text.isWhiteSpace ·)

theorem unspaced_append (cs ds : List Char) : unspaced (cs ++ ds) = unspaced cs ++ unspaced ds :=
  List.filter_append ..

theorem unspaced_cons (h : Text.isWhiteSpace c = true) (cs : List Char) : unspaced (c :: cs) = unspaced cs :=
  List.filter_cons_of_neg (by simp [h])

/-- The texts of tokens one behind the other. -/
def texts (tokens : List Token) : List Char := tokens.flatMap (·.text.toList)

theorem texts_cons (token : Token) (tokens : List Token) :
    texts (token :: tokens) = token.text.toList ++ texts tokens :=
  List.flatMap_cons ..

theorem Suits.unspaced_text (h : Suits due rest token) : unspaced token.text.toList = token.text.toList := by
  apply List.filter_eq_self.mpr
  intro c hc
  rw [isWhiteSpace_of_isTokenChar (h.isTokenChar hc)]
  rfl

theorem Suits.text_ne_nil (h : Suits due rest token) : token.text.toList ≠ [] := by
  cases token with
  | number text =>
    obtain ⟨⟨first, digits, ht, _⟩, _⟩ := h
    rw [Token.text, ht]
    exact List.cons_ne_nil first digits
  | operator op =>
    rw [toList_text_operator]
    exact List.cons_ne_nil _ _
  | leftParen => exact List.cons_ne_nil _ _
  | rightParen => exact List.cons_ne_nil _ _

/-- Whether an operand is due behind these tokens: at the start if it is due there, and otherwise behind
an operator or an opening parenthesis. -/
def dueBehind (due : Bool) (before : List Token) : Bool :=
  (before.getLast?.map Token.leavesOperandDue).getD due

theorem dueBehind_cons (due : Bool) (token : Token) (before : List Token) :
    dueBehind due (token :: before) = dueBehind token.leavesOperandDue before := by
  cases before with
  | nil => rfl
  | cons next rest =>
    rw [dueBehind, dueBehind, List.getLast?_cons_cons, List.getLast?_eq_some_getLast (List.cons_ne_nil next rest)]
    rfl

/-- No number begins in the blank behind a token, or where the text ends. -/
theorem Suits.anywhere (h : Suits due rest token) (hcs : startsNumber cs = false) : Suits due cs token := by
  cases token with
  | number text => exact ⟨h.1, hcs⟩
  | operator op => exact fun ⟨_, _, hn⟩ => absurd (hn.symm.trans hcs) (by decide)
  | leftParen => trivial
  | rightParen => trivial

namespace Reading

/-- The texts of the tokens are the text without its white space. -/
theorem texts_eq (h : Reading due tokens cs) : texts tokens = unspaced cs := by
  induction h with
  | done => rfl
  | space hw _ ih => rw [ih, unspaced_cons hw]
  | token hs _ ih => rw [texts_cons, ih, unspaced_append, hs.unspaced_text]

theorem eq_nil_iff (h : Reading due tokens cs) : tokens = [] ↔ ∀ c ∈ cs, Text.isWhiteSpace c = true := by
  induction h with
  | done => simp
  | space hw _ ih => rw [ih, List.forall_mem_cons, and_iff_right hw]
  | token hs _ _ =>
    refine iff_of_false (List.cons_ne_nil _ _) fun hall => ?_
    obtain ⟨c, hc⟩ := List.exists_mem_of_ne_nil _ hs.text_ne_nil
    have hspace := hall c (List.mem_append_left _ hc)
    exact absurd ((isWhiteSpace_of_isTokenChar (hs.isTokenChar hc)).symm.trans hspace) (by decide)

/-- Every token has its place in the text, behind the texts of the tokens before it. -/
theorem exists_place {before after : List Token} (h : Reading due (before ++ token :: after) cs) :
    ∃ front rest, cs = front ++ (token.text.toList ++ rest) ∧ unspaced front = texts before ∧
      Suits (dueBehind due before) rest token := by
  generalize hall : before ++ token :: after = all at h
  induction h generalizing before with
  | done => simp at hall
  | space hw _ ih =>
    obtain ⟨front, rest, rfl, hfront, hs⟩ := ih hall
    exact ⟨_ :: front, rest, rfl, (unspaced_cons hw front).trans hfront, hs⟩
  | @token due first tokens cs hs _ ih =>
    cases before with
    | nil =>
      cases hall
      exact ⟨[], cs, rfl, rfl, hs⟩
    | cons next before =>
      cases hall
      obtain ⟨front, rest, rfl, hfront, hplace⟩ := ih rfl
      refine ⟨first.text.toList ++ front, rest, (List.append_assoc ..).symm, ?_, ?_⟩
      · rw [unspaced_append, hs.unspaced_text, hfront, texts_cons]
      · rwa [dueBehind_cons]

/-- With single blanks between them the tokens are read again. -/
theorem respaced (h : Reading due tokens cs) :
    Reading due tokens ([' '].intercalate (tokens.map (·.text.toList))) := by
  induction h with
  | done => exact .done
  | space _ _ ih => exact ih
  | @token due token tokens cs hs _ ih =>
    cases tokens with
    | nil =>
      have hend : Suits due [] token := hs.anywhere rfl
      have hread := Reading.token hend .done
      rw [List.append_nil] at hread
      rwa [List.map_singleton, List.intercalate_singleton]
    | cons next tokens =>
      rw [List.map_cons, List.map_cons, List.intercalate_cons_cons, List.append_assoc]
      exact .token (hs.anywhere rfl) (.space (by decide) ih)

end Reading

/-- The scanner stops at the first character that no formula contains, and at nothing else. Otherwise the
tokens are the text without its white space, no sign of a number stands as an operator, numbers have a sign
only where an operand is due, and the tokens written with single blanks between them are read again. -/
theorem tokens_lose_nothing (text : String) :
    (∀ fault, Token.ofText text = .error fault ↔ ∃ c place, FirstUnknown text.toList c place ∧
      fault = .unknownSymbol c place ∧
      fault.failure = .syntaxError s!"unknown token '{c}' at position {place}" (some place)) ∧
    ((∃ tokens, Token.ofText text = .ok tokens) ↔ ∀ c ∈ text.toList, isFormulaChar c = true) ∧
    ∀ tokens, Token.ofText text = .ok tokens →
      String.join (tokens.map Token.text) = String.ofList (unspaced text.toList) ∧
      (tokens = [] ↔ Text.isBlank text = true) ∧
      (∀ before op after, tokens = before ++ .operator op :: after →
        ∃ front rest, text.toList = front ++ op.symbol :: rest ∧ unspaced front = texts before ∧
          (dueBehind true before = true → op = .add ∨ op = .sub → startsNumber rest = false)) ∧
      (∀ before number after, tokens = before ++ .number number :: after →
        ∃ first digits, number.toList = first :: digits ∧ (∀ c ∈ digits, isNumberChar c = true) ∧
          (isNumberChar first = true ∨ isSign first = true ∧ dueBehind true before = true)) ∧
      Token.ofText (" ".intercalate (tokens.map Token.text)) = .ok tokens := by
  refine ⟨?_, ?_, ?_⟩
  · intro fault
    rw [Token.ofText, scan_eq_error_iff]
    constructor
    · rintro ⟨c, place, hfirst, rfl⟩
      rw [Nat.zero_add]
      exact ⟨c, place, hfirst, rfl, rfl⟩
    · rintro ⟨c, place, hfirst, rfl, _⟩
      exact ⟨c, place, hfirst, by rw [Nat.zero_add]⟩
  · constructor
    · rintro ⟨tokens, h⟩ c hc
      exact (reading_of_scan h).isFormulaChar hc
    · intro hall
      cases h : Token.ofText text with
      | ok tokens => exact ⟨tokens, rfl⟩
      | error fault =>
        obtain ⟨c, _, ⟨front, rest, he, _, hc, _⟩, _⟩ := scan_eq_error_iff.mp h
        have hknown := hall c (by simp [he])
        exact absurd (hknown.symm.trans hc) (by decide)
  · intro tokens h
    have hread := reading_of_scan h
    refine ⟨?_, ?_, ?_, ?_, ?_⟩
    · rw [← hread.texts_eq, ← String.toList_inj, String.toList_join, List.flatMap_map, String.toList_ofList]
      rfl
    · rw [hread.eq_nil_iff, Text.isBlank, List.all_eq_true]
    · rintro before op after rfl
      obtain ⟨front, rest, he, hfront, hs⟩ := hread.exists_place
      rw [toList_text_operator] at he
      refine ⟨front, rest, he, hfront, fun hdue hsign => Bool.eq_false_iff.mpr fun hn => ?_⟩
      rcases hsign with rfl | rfl <;> exact hs ⟨hdue, rfl, hn⟩
    · rintro before number after rfl
      obtain ⟨_, _, _, _, ⟨first, digits, hn, hd, hf⟩, _⟩ := hread.exists_place
      exact ⟨first, digits, hn, hd, hf.imp_right fun ⟨hdue, hs, _⟩ => ⟨hs, hdue⟩⟩
    · rw [Token.ofText, scan_eq_ok_iff, String.toList_intercalate, List.map_map]
      exact hread.respaced

/-- The first minus belongs to its number, the second and the third do not: a blank follows the one, and no
operand is due at the other. -/
theorem tokens_of_signs :
    let tokens : List Token := [.number "-1", .operator .mul, .operator .sub, .number "2", .operator .sub,
      .number "3"]
    Token.ofText "-1*- 2-3" = .ok tokens ∧
      String.join (tokens.map Token.text) = String.ofList (unspaced "-1*- 2-3".toList) ∧
      Token.ofText (" ".intercalate (tokens.map Token.text)) = .ok tokens := by
  intro tokens
  have h : Token.ofText "-1*- 2-3" = .ok tokens := by decide +kernel
  have hlaw := (tokens_lose_nothing "-1*- 2-3").2.2 tokens h
  exact ⟨h, hlaw.1, hlaw.2.2.2.2⟩

end ArithDispatch.Formula
