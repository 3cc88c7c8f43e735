import ArithDispatch.Numeric.Decimal
import Mathlib.Data.List.Induction
import Mathlib.Data.List.TakeWhile
import Mathlib.Data.Nat.Digits.Defs

/-! Unsigned numbers as texts: what a text of digits denotes, that exactly this is read from it, and that the
decimal numeral of a number denotes it. -/
namespace ArithDispatch.Numeric
variable {bound n : Nat} {text : String} {digits : List Char}

/-- The positional value of the digits of a text, which may begin with a plus sign and with zeros. -/
def Denotes (text : String) (n : Nat) : Prop :=
  ∃ digits : List Char, digits ≠ [] ∧ (∀ c ∈ digits, c.isDigit = true) ∧
    (text.toList = digits ∨ text.toList = '+' :: digits) ∧
    n = Nat.ofDigits 10 (digits.map fun c => c.toNat - '0'.toNat).reverse

theorem digitsValue_eq_ofDigits (digits : List Char) :
    digitsValue digits = Nat.ofDigits 10 (digits.map fun c => c.toNat - '0'.toNat).reverse := by
  induction digits using List.reverseRecOn with
  | nil => rfl
  | append_singleton digits c ih =>
    rw [digitsValue, List.foldl_append, ← digitsValue, ih, List.map_append, List.reverse_append]
    exact Nat.add_comm ..

theorem digitsValue_toDigits (n : Nat) : digitsValue (Nat.toDigits 10 n) = n :=
  Nat.ofDigitChars_ten_toDigits

theorem digitsValue_zeros (k : Nat) (digits : List Char) :
    digitsValue (List.replicate k '0' ++ digits) = digitsValue digits := by
  induction k with
  | zero => rfl
  | succ k ih => exact ih

theorem digitsValue_lt (h : ∀ c ∈ digits, c.isDigit = true) : digitsValue digits < 10 ^ digits.length := by
  rw [digitsValue_eq_ofDigits]
  refine Nat.lt_of_lt_of_eq (Nat.ofDigits_lt_base_pow_length (by decide) ?_) (by simp)
  intro d hd
  obtain ⟨c, hc, rfl⟩ := List.mem_map.mp (List.mem_reverse.mp hd)
  have hrange : 48 ≤ c.toNat ∧ c.toNat ≤ 57 := by
    simpa [Char.isDigit, UInt32.le_iff_toNat_le] using h c hc
  have hzero : '0'.toNat = 48 := rfl
  omega

/-- What follows a plus sign, if there is one. -/
def afterPlus : List Char → List Char
  | '+' :: rest => rest
  | cs => cs

theorem afterPlus_digits (h : ∀ c ∈ digits, c.isDigit = true) : afterPlus digits = digits := by
  unfold afterPlus
  split
  · exact absurd (h '+' List.mem_cons_self) (by decide)
  · rfl

theorem denotes_iff : Denotes text n ↔ afterPlus text.toList ≠ [] ∧
    (∀ c ∈ afterPlus text.toList, c.isDigit = true) ∧ digitsValue (afterPlus text.toList) = n := by
  constructor
  · rintro ⟨digits, hne, hd, ht | ht, rfl⟩
    · rw [ht, afterPlus_digits hd]
      exact ⟨hne, hd, digitsValue_eq_ofDigits digits⟩
    · rw [ht]
      exact ⟨hne, hd, digitsValue_eq_ofDigits digits⟩
  · rintro ⟨hne, hd, rfl⟩
    refine ⟨_, hne, hd, ?_, digitsValue_eq_ofDigits _⟩
    unfold afterPlus
    split
    · exact .inr ‹_›
    · exact .inl rfl

theorem Denotes.unique {m : Nat} (hm : Denotes text m) (hn : Denotes text n) : m = n :=
  (denotes_iff.mp hm).2.2.symm.trans (denotes_iff.mp hn).2.2

/-- What is read is what the text denotes, if that is below the bound. -/
theorem readUnsigned_eq_some_iff : readUnsigned bound text = some n ↔ n < bound ∧ Denotes text n := by
  have hread : readUnsigned bound text =
      if !(afterPlus text.toList).isEmpty && (afterPlus text.toList).all Char.isDigit &&
          digitsValue (afterPlus text.toList) < bound then
        some (digitsValue (afterPlus text.toList))
      else none := rfl
  rw [hread, Option.ite_none_right_eq_some, denotes_iff]
  simp only [Bool.and_eq_true, Bool.not_eq_true', List.isEmpty_eq_false_iff, List.all_eq_true,
    decide_eq_true_eq, Option.some.injEq]
  constructor
  · rintro ⟨⟨⟨hne, hd⟩, hlt⟩, rfl⟩
    exact ⟨hlt, hne, hd, rfl⟩
  · rintro ⟨hlt, hne, hd, rfl⟩
    exact ⟨⟨⟨hne, hd⟩, hlt⟩, rfl⟩

theorem readUnsigned_eq_none_iff : readUnsigned bound text = none ↔ ¬ ∃ n < bound, Denotes text n := by
  rw [Option.eq_none_iff_forall_ne_some]
  simp only [ne_eq, readUnsigned_eq_some_iff, not_exists]

theorem denotes_toString (n : Nat) : Denotes (toString n) n := by
  refine ⟨Nat.toDigits 10 n, Nat.toDigits_ne_nil, ?_, .inl Nat.toList_repr, ?_⟩
  · intro c hc
    exact Nat.isDigit_of_mem_toDigits (by decide) (by decide) hc
  · rw [← digitsValue_eq_ofDigits, digitsValue_toDigits]

/-- The text goes on with something else than a digit, or ends. -/
def NoDigitNext (rest : List Char) : Prop := ∀ c ∈ rest.head?, c.isDigit = false

variable {cs rest : List Char}

theorem takeWhile_isDigit_append (h : NoDigitNext rest) (cs : List Char) :
    (cs ++ rest).takeWhile Char.isDigit = cs.takeWhile Char.isDigit := by
  induction cs with
  | nil =>
    cases rest with
    | nil => rfl
    | cons c rest => exact List.takeWhile_cons_of_neg (by simp [h c rfl])
  | cons c cs ih => simp only [List.cons_append, List.takeWhile_cons, ih]

theorem dropWhile_isDigit_append (h : NoDigitNext rest) (cs : List Char) :
    (cs ++ rest).dropWhile Char.isDigit = cs.dropWhile Char.isDigit ++ rest := by
  induction cs with
  | nil =>
    cases rest with
    | nil => rfl
    | cons c rest => exact List.dropWhile_cons_of_neg (by simp [h c rfl])
  | cons c cs ih =>
    simp only [List.cons_append, List.dropWhile_cons, ih]
    split <;> rfl

theorem takeWhile_digits (hd : ∀ c ∈ cs, c.isDigit = true) (h : NoDigitNext rest) :
    (cs ++ rest).takeWhile Char.isDigit = cs := by
  rw [takeWhile_isDigit_append h, List.takeWhile_eq_self_iff.mpr hd]

theorem dropWhile_digits (hd : ∀ c ∈ cs, c.isDigit = true) (h : NoDigitNext rest) :
    (cs ++ rest).dropWhile Char.isDigit = rest := by
  rw [dropWhile_isDigit_append h, List.dropWhile_eq_nil_iff.mpr hd, List.nil_append]

end ArithDispatch.Numeric
