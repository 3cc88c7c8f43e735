import ArithDispatch.Json.Printer
import ArithDispatch.Proofs.Numeric.Unsigned

/-! Numbers read back from the texts that are printed for them, whatever stands behind, as long as that does not
go on with the number. -/
namespace ArithDispatch.Json
open Numeric (NoDigitNext takeWhile_isDigit_append dropWhile_isDigit_append digitsValue digitsValue_toDigits)

/-- No numeral goes on with this text. -/
def NumeralEnds (rest : List Char) : Prop :=
  ∀ c ∈ rest.head?, c.isDigit = false ∧ c ≠ '.' ∧ c ≠ 'e' ∧ c ≠ 'E'

namespace Numeral
variable {cs rest after : List Char}

theorem noDigitNext_of_numeralEnds (h : NumeralEnds rest) : NoDigitNext rest := fun c hc => (h c hc).1

theorem takeMinus_append (h : cs ≠ []) :
    takeMinus (cs ++ rest) = ((takeMinus cs).1, (takeMinus cs).2 ++ rest) := by
  cases cs with
  | nil => exact absurd rfl h
  | cons c cs =>
    unfold takeMinus
    split
    · next he =>
      cases he
      rfl
    · next hno =>
      split
      · next he =>
        cases he
        exact absurd rfl (hno _)
      · rfl

theorem takeWhole_append {whole : List Char} (h : takeWhole cs = some (whole, after)) (hr : NumeralEnds rest) :
    takeWhole (cs ++ rest) = some (whole, after ++ rest) := by
  have hd := noDigitNext_of_numeralEnds hr
  simp only [takeWhole, takeWhile_isDigit_append hd, dropWhile_isDigit_append hd] at h ⊢
  split at h
  · cases h
  · next hok =>
    cases h
    rw [if_neg hok]

theorem takeFraction_append {fraction : Option (List Char)} (h : takeFraction cs = some (fraction, after))
    (hr : NumeralEnds rest) : takeFraction (cs ++ rest) = some (fraction, after ++ rest) := by
  have hd := noDigitNext_of_numeralEnds hr
  unfold takeFraction at h
  split at h
  · next tail =>
    simp only [List.cons_append, takeFraction, takeWhile_isDigit_append hd, dropWhile_isDigit_append hd] at h ⊢
    split at h
    · cases h
    · next hok =>
      cases h
      rw [if_neg hok]
  · next hno =>
    cases h
    unfold takeFraction
    split
    · next tail he =>
      cases cs with
      | nil => exact absurd rfl (hr '.' (by rw [← List.nil_append rest, he]; rfl)).2.1
      | cons c cs =>
        cases he
        exact absurd rfl (hno _)
    · rfl

theorem takeSign_append (h : cs ≠ []) :
    Numeric.takeSign (cs ++ rest) = ((Numeric.takeSign cs).1, (Numeric.takeSign cs).2 ++ rest) := by
  cases cs with
  | nil => exact absurd rfl h
  | cons c cs =>
    rw [List.cons_append]
    unfold Numeric.takeSign
    split
    · next he =>
      cases he
      rfl
    · next he =>
      cases he
      rfl
    · next hno hno' =>
      split
      · next he =>
        cases he
        exact absurd rfl (hno _)
      · next he =>
        cases he
        exact absurd rfl (hno' _)
      · rfl

theorem takeExponent_append {exponent : Option Int} (h : takeExponent cs = some (exponent, after))
    (hr : NumeralEnds rest) : takeExponent (cs ++ rest) = some (exponent, after ++ rest) := by
  have hd := noDigitNext_of_numeralEnds hr
  cases cs with
  | nil =>
    cases h
    cases rest with
    | nil => rfl
    | cons c rest =>
      obtain ⟨-, -, he, hE⟩ := hr c rfl
      simp [takeExponent, he, hE]
  | cons c cs =>
    simp only [List.cons_append, takeExponent] at h ⊢
    split at h
    · next he =>
      have hne : cs ≠ [] := by
        rintro rfl
        simp [Numeric.takeSign] at h
      rw [if_pos he]
      simp only [takeSign_append hne, takeWhile_isDigit_append hd, dropWhile_isDigit_append hd]
      split at h
      · cases h
      · next hok =>
        cases h
        rw [if_neg hok]
    · next he =>
      cases h
      rw [if_neg he]
      rfl

/-- A numeral that is a whole text is also taken from in front of another one. -/
theorem take_append {numeral : Numeral} (h : take cs = some (numeral, [])) (hr : NumeralEnds rest) :
    take (cs ++ rest) = some (numeral, rest) := by
  simp only [take, Option.bind_eq_bind, Option.bind_eq_some_iff, Option.pure_def] at h
  obtain ⟨⟨whole, afterWhole⟩, hwhole, ⟨fraction, afterFraction⟩, hfraction, ⟨exponent, afterExponent⟩,
    hexponent, he⟩ := h
  cases he
  have hne : cs ≠ [] := by
    rintro rfl
    cases hwhole
  simp only [take, takeMinus_append hne, takeWhole_append hwhole hr, takeFraction_append hfraction hr,
    takeExponent_append hexponent hr, Option.bind_eq_bind, Option.bind_some, Option.pure_def, List.nil_append]

/-- A whole part of digits alone is a numeral by itself, also with a minus sign. -/
theorem takeWhole_digits {digits : List Char} (hd : ∀ c ∈ digits, c.isDigit = true) (hne : digits ≠ [])
    (hzero : digits.head? = some '0' → digits.length = 1) : takeWhole digits = some (digits, []) := by
  simp only [takeWhole, List.takeWhile_eq_self_iff.mpr hd, List.dropWhile_eq_nil_iff.mpr hd]
  rw [if_neg]
  simp only [Bool.or_eq_true, List.isEmpty_iff, hne, false_or, Bool.and_eq_true, beq_iff_eq, bne_iff_ne,
    not_and, not_not]
  exact hzero

theorem head_toDigits_ne_zero {n : Nat} (h : 0 < n) : (Nat.toDigits 10 n).head? ≠ some '0' := by
  induction n using Nat.strongRecOn with
  | ind n ih =>
    by_cases hn : n < 10
    · rw [Nat.toDigits_of_lt_base hn]
      intro hhead
      have hchar : n.digitChar.toNat = '0'.toNat := congrArg Char.toNat (Option.some.inj hhead)
      rw [Nat.toNat_digitChar_of_lt_ten hn] at hchar
      exact absurd hchar (Nat.ne_of_gt (Nat.lt_add_of_pos_right h))
    · rw [Nat.toDigits_of_base_le (by decide) (by omega), List.head?_append]
      have hprefix := ih (n / 10) (by omega) (by omega)
      cases hhead : (Nat.toDigits 10 (n / 10)).head? with
      | none => exact absurd (List.head?_eq_none_iff.mp hhead) Nat.toDigits_ne_nil
      | some c =>
        rw [hhead] at hprefix
        exact hprefix

theorem takeWhole_toDigits (n : Nat) : takeWhole (Nat.toDigits 10 n) = some (Nat.toDigits 10 n, []) := by
  refine takeWhole_digits ?_ Nat.toDigits_ne_nil ?_
  · intro c hc
    exact Nat.isDigit_of_mem_toDigits (by decide) (by decide) hc
  · intro hhead
    cases n with
    | zero => rfl
    | succ n => exact absurd hhead (head_toDigits_ne_zero (Nat.succ_pos n))

theorem take_toDigits (n : Nat) : take (Nat.toDigits 10 n) =
    some ({ negative := false, whole := Nat.toDigits 10 n, fraction := none, exponent := none }, []) := by
  have hminus : takeMinus (Nat.toDigits 10 n) = (false, Nat.toDigits 10 n) := by
    unfold takeMinus
    split
    · next he =>
      have hdigit : '-'.isDigit = true :=
        Nat.isDigit_of_mem_toDigits (by decide) (by decide) (he ▸ List.mem_cons_self)
      exact absurd hdigit (by decide)
    · rfl
  simp only [take, hminus, takeWhole_toDigits, takeFraction, takeExponent, Option.bind_eq_bind,
    Option.bind_some, Option.pure_def]

theorem take_minus_toDigits (n : Nat) : take ('-' :: Nat.toDigits 10 n) =
    some ({ negative := true, whole := Nat.toDigits 10 n, fraction := none, exponent := none }, []) := by
  simp only [take, takeMinus, takeWhole_toDigits, takeFraction, takeExponent, Option.bind_eq_bind,
    Option.bind_some, Option.pure_def]

theorem le_ofDigitChars (digits : List Char) (n : Nat) : n ≤ Nat.ofDigitChars 10 digits n := by
  induction digits generalizing n with
  | nil => exact Nat.le_refl n
  | cons c digits ih =>
    rw [Nat.ofDigitChars_cons]
    exact Nat.le_trans (by omega) (ih _)

/-- Digits are appended to the last one when the number that they make stays in range. -/
theorem extend_eq {digits : List Char} {n : Nat} (h : Nat.ofDigitChars 10 digits n < UInt64.size) :
    extend n digits = (Nat.ofDigitChars 10 digits n, []) := by
  induction digits generalizing n with
  | nil => rfl
  | cons c digits ih =>
    rw [Nat.ofDigitChars_cons] at h ⊢
    simp only [extend, if_pos (Nat.lt_of_le_of_lt (le_ofDigitChars digits _) h), ih h]

theorem value_toDigits (n : UInt64) (negative : Bool) :
    value? { negative, whole := Nat.toDigits 10 n.toNat, fraction := none, exponent := none } =
      some (if negative then .negative n else .natural n) := by
  have hvalue : Nat.ofDigitChars 10 (Nat.toDigits 10 n.toNat) 0 = n.toNat := Nat.ofDigitChars_ten_toDigits
  have hextend := extend_eq (hvalue ▸ n.toNat_lt)
  simp only [value?, hextend, hvalue, UInt64.ofNat_toNat]
  rfl

end Numeral

/-- The printer finds a text that reads back as the number. -/
def PrintsExactly (decimal : Binary64 → List Char) (x : Binary64) : Prop :=
  ∃ numeral, Numeral.take (decimal x) = some (numeral, []) ∧ numeral.value? = some (.real x)

/-- A number that is printed exactly is taken from in front of a text that does not go on with it. -/
theorem Numeral.take_chars {decimal : Binary64 → List Char} {n : Number} {rest : List Char}
    (hn : ∀ x, n = .real x → PrintsExactly decimal x) (hr : NumeralEnds rest) :
    ∃ numeral, take (n.chars decimal ++ rest) = some (numeral, rest) ∧ numeral.value? = some n := by
  cases n with
  | natural n => exact ⟨_, take_append (take_toDigits _) hr, value_toDigits n false⟩
  | negative n => exact ⟨_, take_append (take_minus_toDigits _) hr, value_toDigits n true⟩
  | real x =>
    obtain ⟨numeral, htake, hvalue⟩ := hn x rfl
    exact ⟨numeral, take_append htake hr, hvalue⟩

end ArithDispatch.Json
