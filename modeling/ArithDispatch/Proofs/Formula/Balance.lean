import ArithDispatch.Formula.Compile
import ArithDispatch.Proofs.Formula.Lossless
import Mathlib.Data.List.Perm.Basic

/-! What rearranging does to any tokens, formula or not. It fails exactly when the parentheses do not
balance; otherwise it drops them, keeps all other tokens, and leaves the numbers in their order. So the faults
of the text itself are syntax errors, and those found later are semantic ones. -/
namespace ArithDispatch.Formula

namespace Token

def isParenthesis : Token → Bool
  | leftParen | rightParen => true
  | number _ | operator _ => false

def isNumber : Token → Bool
  | number _ => true
  | operator _ | leftParen | rightParen => false

end Token

/-- Whether the tokens close what is open, which are `depth` parentheses at first, and what they open
themselves. -/
def balanced : Nat → List Token → Bool
  | depth, [] => depth == 0
  | depth, .leftParen :: rest => balanced (depth + 1) rest
  | 0, .rightParen :: _ => false
  | depth + 1, .rightParen :: rest => balanced depth rest
  | depth, .number _ :: rest => balanced depth rest
  | depth, .operator _ :: rest => balanced depth rest

/-- No prefix closes more parentheses than are open, and in the end none is left open. -/
theorem balanced_iff_counts (depth : Nat) (tokens : List Token) : balanced depth tokens = true ↔
    (∀ k, (tokens.take k).count .rightParen ≤ depth + (tokens.take k).count .leftParen) ∧
      tokens.count .rightParen = depth + tokens.count .leftParen := by
  induction tokens generalizing depth with
  | nil =>
    simp only [balanced, beq_iff_eq, List.take_nil, List.count_nil, Nat.zero_le, implies_true, true_and,
      Nat.add_zero]
    exact eq_comm
  | cons token rest ih =>
    have prefixes (p : Nat → Prop) : (∀ k, p k) ↔ p 0 ∧ ∀ k, p (k + 1) :=
      ⟨fun h => ⟨h 0, fun k => h (k + 1)⟩, fun h k => by cases k; exacts [h.1, h.2 _]⟩
    rw [prefixes]
    cases token with
    | number text => simp [balanced, ih]
    | operator op => simp [balanced, ih]
    | leftParen => simp [balanced, ih, Nat.add_assoc, Nat.add_comm 1]
    | rightParen =>
      cases depth with
      | zero =>
        refine iff_of_false Bool.false_ne_true fun ⟨⟨_, h⟩, _⟩ => absurd (h 0) ?_
        simp
      | succ depth => simp [balanced, ih, Nat.add_right_comm depth 1]

/-- How many parentheses are open. -/
def openIn (held : List Held) : Nat := held.count .parenthesis

/-- The operators that wait, as tokens. -/
def waiting (held : List Held) : List Token := (held.filter (· != .parenthesis)).map Held.token

variable {held outer : List Held} {first : Held} {tokens out : List Token}

theorem waiting_append (held outer : List Held) : waiting (held ++ outer) = waiting held ++ waiting outer := by
  rw [waiting, List.filter_append, List.map_append, ← waiting, ← waiting]

theorem waiting_of_no_parenthesis (h : ∀ item ∈ held, item ≠ .parenthesis) :
    waiting held = held.map Held.token := by
  rw [waiting, List.filter_eq_self.mpr fun item hm => bne_iff_ne.mpr (h item hm)]

theorem openIn_of_no_parenthesis (h : ∀ item ∈ held, item ≠ .parenthesis) : openIn held = 0 :=
  List.count_eq_zero.mpr fun hm => h _ hm rfl

/-- Items that are written are operators, whatever made them give way. -/
theorem split_held (held : List Held) (yields : Held → Bool) (hp : yields .parenthesis = false) :
    openIn held = openIn (held.dropWhile yields) ∧
      waiting held = (held.takeWhile yields).map Held.token ++ waiting (held.dropWhile yields) := by
  have hno : ∀ item ∈ held.takeWhile yields, item ≠ .parenthesis := by
    rintro _ hm rfl
    exact absurd ((List.mem_takeWhile_imp hm).symm.trans hp) (by decide)
  have hsplit := List.takeWhile_append_dropWhile (p := yields) (l := held)
  constructor
  · conv_lhs => rw [← hsplit, openIn, List.count_append, ← openIn, ← openIn, openIn_of_no_parenthesis hno]
    exact Nat.zero_add _
  · conv_lhs => rw [← hsplit, waiting_append, waiting_of_no_parenthesis hno]

theorem eq_parenthesis_of_dropWhile (h : held.dropWhile (· != .parenthesis) = first :: outer) :
    first = .parenthesis := by
  have hhead := List.head?_dropWhile_not (· != Held.parenthesis) held
  rw [h] at hhead
  simpa using hhead

/-- Tokens are rearranged if they close what is open, and are mismatched otherwise. -/
theorem rearrange_cases (held : List Held) (tokens : List Token) :
    (balanced (openIn held) tokens = true ∧ ∃ out, rearrange held tokens = .ok out) ∨
      (balanced (openIn held) tokens = false ∧ rearrange held tokens = .error .mismatchedParentheses) := by
  have mapped {result : Except Fault (List Token)} {f : List Token → List Token} {holds : Bool}
      (h : holds = true ∧ (∃ out, result = .ok out) ∨
        holds = false ∧ result = .error .mismatchedParentheses) :
      holds = true ∧ (∃ out, result.map f = .ok out) ∨
        holds = false ∧ result.map f = .error .mismatchedParentheses := by
    rcases h with ⟨hb, out, rfl⟩ | ⟨hb, rfl⟩
    · exact .inl ⟨hb, _, rfl⟩
    · exact .inr ⟨hb, rfl⟩
  induction tokens generalizing held with
  | nil =>
    rw [balanced, rearrange]
    by_cases hm : Held.parenthesis ∈ held
    · refine .inr ⟨?_, if_pos (List.elem_iff.mpr hm)⟩
      exact beq_eq_false_iff_ne.mpr fun h => List.count_eq_zero.mp h hm
    · refine .inl ⟨?_, _, if_neg fun h => hm (List.elem_iff.mp h)⟩
      exact beq_iff_eq.mpr (List.count_eq_zero.mpr hm)
  | cons token rest ih =>
    cases token with
    | number text => exact mapped (ih held)
    | operator op =>
      have hopen : openIn held = openIn (.operator op :: held.dropWhile (·.yieldsTo op)) := by
        rw [(split_held held (·.yieldsTo op) rfl).1, openIn, openIn, List.count_cons_of_ne (by simp)]
      rw [hopen]
      exact mapped (ih _)
    | leftParen =>
      have hopen : openIn held + 1 = openIn (.parenthesis :: held) := List.count_cons_self.symm
      rw [balanced, hopen]
      exact ih _
    | rightParen =>
      have hopen := (split_held held (· != .parenthesis) rfl).1
      rw [hopen, rearrange]
      split
      · next hnone =>
        rw [hnone]
        exact .inr ⟨rfl, rfl⟩
      · next first outer hdrop =>
        rw [hdrop, eq_parenthesis_of_dropWhile hdrop, openIn, List.count_cons_self, balanced]
        exact mapped (ih outer)

private theorem filter_isNumber_held (held : List Held) (later : List Token) :
    (held.map Held.token ++ later).filter Token.isNumber = later.filter Token.isNumber := by
  have hnone : (held.map Held.token).filter Token.isNumber = [] := by
    apply List.filter_eq_nil_iff.mpr
    intro token hm
    obtain ⟨item, _, rfl⟩ := List.mem_map.mp hm
    cases item <;> exact Bool.false_ne_true
  rw [List.filter_append, hnone, List.nil_append]

/-- No token but the parentheses gets lost, none is made up, and the numbers keep their order. -/
theorem perm_of_rearrange (h : rearrange held tokens = .ok out) :
    out.Perm (waiting held ++ tokens.filter (!·.isParenthesis)) ∧
      out.filter Token.isNumber = tokens.filter Token.isNumber := by
  induction tokens generalizing held out with
  | nil =>
    rw [rearrange] at h
    split at h
    · cases h
    · next hno =>
      cases h
      rw [waiting_of_no_parenthesis fun item hm he => hno (List.elem_iff.mpr (he ▸ hm))]
      refine ⟨List.Perm.of_eq (List.append_nil _).symm, ?_⟩
      rw [← List.append_nil (held.map Held.token), filter_isNumber_held]
  | cons token rest ih =>
    cases token with
    | number text =>
      obtain ⟨later, hrest, rfl⟩ := exists_ok_of_map h
      obtain ⟨hperm, hnumbers⟩ := ih hrest
      refine ⟨(hperm.cons _).trans List.perm_middle.symm, ?_⟩
      rw [List.filter_cons_of_pos rfl, List.filter_cons_of_pos rfl, hnumbers]
    | operator op =>
      obtain ⟨later, hrest, rfl⟩ := exists_ok_of_map h
      obtain ⟨hperm, hnumbers⟩ := ih hrest
      refine ⟨?_, (filter_isNumber_held _ later).trans hnumbers⟩
      rw [(split_held held (·.yieldsTo op) rfl).2, List.append_assoc]
      exact (hperm.trans List.perm_middle.symm).append_left _
    | leftParen =>
      rw [rearrange] at h
      have hrest := ih h
      exact hrest
    | rightParen =>
      rw [rearrange] at h
      split at h
      · cases h
      · next first outer hdrop =>
        obtain ⟨later, hrest, rfl⟩ := exists_ok_of_map h
        obtain ⟨hperm, hnumbers⟩ := ih hrest
        refine ⟨?_, (filter_isNumber_held _ later).trans hnumbers⟩
        rw [(split_held held (· != .parenthesis) rfl).2, hdrop, eq_parenthesis_of_dropWhile hdrop,
          List.append_assoc]
        exact hperm.append_left _

/-- The parentheses do not balance: some prefix closes more of them than it opens, or the totals differ. -/
def Unbalanced (tokens : List Token) : Prop :=
  (∃ k, (tokens.take k).count .leftParen < (tokens.take k).count .rightParen) ∨
    tokens.count .leftParen ≠ tokens.count .rightParen

theorem unbalanced_iff (tokens : List Token) : Unbalanced tokens ↔ balanced 0 tokens = false := by
  rw [← Bool.not_eq_true, balanced_iff_counts, not_and_or, not_forall]
  simp only [Nat.zero_add, Nat.not_le, ← ne_eq]
  exact or_congr_right ne_comm

/-- Why a text has no reverse-Polish order. -/
inductive Misread (text : String) : Fault → Prop
  | token {fault : Fault} : Token.ofText text = .error fault → Misread text fault
  | empty : Token.ofText text = .ok [] → Misread text .noTokens
  | parentheses {tokens : List Token} : Token.ofText text = .ok tokens → Unbalanced tokens →
      Misread text .mismatchedParentheses

theorem reversePolish_of_tokens {text : String} (ht : Token.ofText text = .ok tokens) :
    reversePolish text = if tokens.isEmpty then .error .noTokens else rearrange [] tokens := by
  simp only [reversePolish, ht, bind, Except.bind]

theorem reversePolish_of_fault {text : String} {fault : Fault} (ht : Token.ofText text = .error fault) :
    reversePolish text = .error fault := by
  simp only [reversePolish, ht, bind, Except.bind]

theorem reversePolish_eq_error_iff {text : String} {fault : Fault} :
    reversePolish text = .error fault ↔ Misread text fault := by
  constructor
  · intro h
    cases ht : Token.ofText text with
    | error other =>
      rw [reversePolish_of_fault ht] at h
      cases h
      exact .token ht
    | ok tokens =>
      rw [reversePolish_of_tokens ht] at h
      split at h
      · next hempty =>
        cases h
        rw [List.isEmpty_iff.mp hempty] at ht
        exact .empty ht
      · rcases rearrange_cases [] tokens with ⟨_, out, hout⟩ | ⟨hb, hfault⟩
        · cases hout.symm.trans h
        · cases hfault.symm.trans h
          exact .parentheses ht ((unbalanced_iff tokens).mpr hb)
  · rintro (ht | ht | ⟨ht, hu⟩)
    · exact reversePolish_of_fault ht
    · rw [reversePolish_of_tokens ht]
      rfl
    · have hb := (unbalanced_iff _).mp hu
      rw [reversePolish_of_tokens ht]
      split
      · next hempty =>
        rw [List.isEmpty_iff.mp hempty] at hb
        cases hb
      · rcases rearrange_cases [] _ with ⟨hb', _⟩ | ⟨_, hfault⟩
        · exact absurd (hb'.symm.trans hb) (by decide)
        · exact hfault

theorem perm_of_reversePolish {text : String} (h : reversePolish text = .ok out) :
    ∃ tokens, Token.ofText text = .ok tokens ∧ out.Perm (tokens.filter (!·.isParenthesis)) ∧
      out.filter Token.isNumber = tokens.filter Token.isNumber := by
  cases ht : Token.ofText text with
  | error fault => cases (reversePolish_of_fault ht).symm.trans h
  | ok tokens =>
    rw [reversePolish_of_tokens ht] at h
    split at h
    · cases h
    · exact ⟨tokens, rfl, perm_of_rearrange h⟩

/-- A fault of the text itself, which has no reverse-Polish order. -/
def Fault.IsSyntactic (fault : Fault) : Prop := ∃ message offset, fault.failure = .syntaxError message offset

/-- A fault of what the tokens stand for. -/
def Fault.IsSemantic (fault : Fault) : Prop := ∃ message, fault.failure = .semanticError message

theorem Misread.isSyntactic {text : String} {fault : Fault} (h : Misread text fault) : fault.IsSyntactic := by
  cases h with
  | token ht =>
    obtain ⟨c, place, _, rfl⟩ := scan_eq_error_iff.mp ht
    exact ⟨_, _, rfl⟩
  | empty => exact ⟨_, _, rfl⟩
  | parentheses => exact ⟨_, _, rfl⟩

theorem isSemantic_of_build {count : Nat} {stack : List Operand} {fault : Fault}
    (h : build count stack tokens = .error fault) : fault.IsSemantic := by
  fun_induction build count stack tokens with
  | case1 => cases h
  | case2 =>
    cases h
    exact ⟨_, rfl⟩
  | case3 count stack text rest value hv ih => exact ih h
  | case4 =>
    cases h
    exact ⟨_, rfl⟩
  | case5 count op rest right left below hz ih => exact ih (exists_error_of_map h)
  | case6 =>
    cases h
    exact ⟨_, rfl⟩
  | case7 =>
    cases h
    exact ⟨_, rfl⟩
  | case8 =>
    cases h
    exact ⟨_, rfl⟩

theorem isSemantic_of_assemble {fault : Fault} (h : assemble tokens = .error fault) : fault.IsSemantic := by
  unfold assemble at h
  split at h
  · next hb =>
    cases h
    exact isSemantic_of_build hb
  · cases h
  · cases h
  · cases h
    exact ⟨_, rfl⟩

theorem Fault.IsSemantic.not_isSyntactic {fault : Fault} (h : fault.IsSemantic) : ¬ fault.IsSyntactic := by
  rintro ⟨_, _, hsyntax⟩
  obtain ⟨_, hsemantic⟩ := h
  cases hsyntax.symm.trans hsemantic

/-- A text that is misread does not compile, and every other fault concerns what its tokens stand for. -/
theorem compile_eq_error_cases {text : String} {fault : Fault} (h : compile text = .error fault) :
    Misread text fault ∨ fault.IsSemantic := by
  rw [compile] at h
  cases hr : reversePolish text with
  | error other =>
    rw [hr] at h
    cases h
    exact .inl (reversePolish_eq_error_iff.mp hr)
  | ok out =>
    rw [hr] at h
    exact .inr (isSemantic_of_assemble h)

theorem Misread.compile {text : String} {fault : Fault} (h : Misread text fault) :
    compile text = .error fault := by
  rw [Formula.compile, reversePolish_eq_error_iff.mpr h]
  rfl

/-- Rearranging fails on the faults of the scanner, on no tokens at all and on parentheses that do not
balance. What it gives otherwise are the tokens without the parentheses, with the numbers in their order. Its
faults are the syntax errors of compiling, and all others are semantic errors. -/
theorem reversePolish_fails_iff_misread (text : String) :
    (∀ fault, reversePolish text = .error fault ↔ Misread text fault) ∧
    Fault.mismatchedParentheses.failure = .syntaxError "mismatched parentheses" none ∧
    (∀ out, reversePolish text = .ok out → (∀ token ∈ out, token.isParenthesis = false) ∧
      ∃ tokens, Token.ofText text = .ok tokens ∧ out.Perm (tokens.filter (!·.isParenthesis)) ∧
        out.filter Token.isNumber = tokens.filter Token.isNumber) ∧
    (∀ fault, compile text = .error fault ∧ fault.IsSyntactic ↔ Misread text fault) ∧
    ∀ fault, compile text = .error fault → fault.IsSyntactic ∨ fault.IsSemantic := by
  refine ⟨fun fault => reversePolish_eq_error_iff, rfl, ?_, ?_, ?_⟩
  · intro out h
    obtain ⟨tokens, ht, hperm, hnumbers⟩ := perm_of_reversePolish h
    refine ⟨fun token hm => ?_, tokens, ht, hperm, hnumbers⟩
    simpa using (List.mem_filter.mp (hperm.subset hm)).2
  · intro fault
    constructor
    · rintro ⟨h, hsyntax⟩
      exact (compile_eq_error_cases h).resolve_right fun hs => hs.not_isSyntactic hsyntax
    · intro h
      exact ⟨h.compile, h.isSyntactic⟩
  · intro fault h
    exact (compile_eq_error_cases h).imp_left Misread.isSyntactic

/-- The tokens of a product of a sum, and a text whose two numbers balance but make no formula. -/
theorem sum_times_three_rearranged :
    reversePolish "(1+2)*3" =
        .ok [.number "1", .number "2", .operator .add, .number "3", .operator .mul] ∧
      (∃ tokens, Token.ofText "(1+2)*3" = .ok tokens ∧
        [.number "1", .number "2", .operator .add, .number "3", .operator .mul].Perm
          (tokens.filter (!·.isParenthesis))) ∧
      compile "1 2" = .error .malformed ∧ Fault.malformed.IsSemantic := by
  have hout : reversePolish "(1+2)*3" =
      .ok [.number "1", .number "2", .operator .add, .number "3", .operator .mul] := by
    decide +kernel
  have hfault : compile "1 2" = .error .malformed := by decide +kernel
  obtain ⟨_, tokens, ht, hperm, _⟩ := (reversePolish_fails_iff_misread "(1+2)*3").2.2.1 _ hout
  have hkind := (reversePolish_fails_iff_misread "1 2").2.2.2.2 _ hfault
  exact ⟨hout, ⟨tokens, ht, hperm⟩, hfault, hkind.resolve_left nofun⟩

end ArithDispatch.Formula
