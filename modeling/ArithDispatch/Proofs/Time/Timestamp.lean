import ArithDispatch.Proofs.Numeric.Unsigned
import ArithDispatch.Proofs.Text.Trim
import ArithDispatch.Time.Timestamp

/-! The RFC 3339 form of a moment reads back as that moment. -/
namespace ArithDispatch.Timestamp
open Numeric (NoDigitNext digitsValue digitsValue_zeros digitsValue_toDigits digitsValue_lt takeWhile_digits
  dropWhile_digits)
open Text (trimStart trimStart_eq_self isWhiteSpace_of_isDigit)

/-- A moment that the calendar and the clock know. Only second 59 may be a leap second. -/
structure Valid (t : Timestamp) : Prop where
  date : isDate t.year t.month t.day = true
  hour : t.hour < 24
  minute : t.minute < 60
  second : t.second < 60
  nanosecond : t.nanosecond < 2000000000
  leap : 1000000000 ≤ t.nanosecond → t.second = 59

variable {cs rest : List Char} {n width limit : Nat} {t : Timestamp}

theorem takeNumber_digits (hd : ∀ c ∈ cs, c.isDigit = true) (hne : cs ≠ []) (hl : cs.length ≤ limit)
    (hr : NoDigitNext rest) : takeNumber limit (cs ++ rest) = some (digitsValue cs, rest) := by
  simp only [takeNumber, takeWhile_digits hd hr, List.take_of_length_le hl, List.drop_left]
  rw [if_neg (by simpa using hne)]

theorem isDigit_padded : ∀ c ∈ padded width n, c.isDigit = true := by
  intro c hc
  rcases List.mem_append.mp hc with hc | hc
  · rw [List.eq_of_mem_replicate hc]
    rfl
  · exact Nat.isDigit_of_mem_toDigits (by decide) (by decide) hc

theorem padded_ne_nil : padded width n ≠ [] := by
  intro h
  exact Nat.toDigits_ne_nil (List.append_eq_nil_iff.mp h).2

theorem digitsValue_padded : digitsValue (padded width n) = n := by
  rw [padded, digitsValue_zeros, digitsValue_toDigits]

theorem length_padded (hw : 0 < width) (hn : n < 10 ^ width) : (padded width n).length = width := by
  have hlen : (Nat.toDigits 10 n).length ≤ width := (Nat.length_toDigits_le_iff (by decide) hw).mpr hn
  rw [padded, List.length_append, List.length_replicate]
  omega

theorem takeNumber_padded (hl : (padded width n).length ≤ limit) (hr : NoDigitNext rest) :
    takeNumber limit (padded width n ++ rest) = some (n, rest) := by
  rw [takeNumber_digits isDigit_padded padded_ne_nil hl hr, digitsValue_padded]

theorem isDigit_head (hd : ∀ c ∈ cs, c.isDigit = true) (hne : cs ≠ []) :
    ∀ c ∈ (cs ++ rest).head?, c.isDigit = true := by
  cases cs with
  | nil => exact absurd rfl hne
  | cons first cs =>
    rintro c ⟨⟩
    exact hd first List.mem_cons_self

theorem trimStart_digits (hd : ∀ c ∈ cs, c.isDigit = true) (hne : cs ≠ []) :
    trimStart (cs ++ rest) = cs ++ rest :=
  trimStart_eq_self fun c hc => isWhiteSpace_of_isDigit (isDigit_head hd hne c hc)

theorem takePair_padded (hn : n < 100) (hr : NoDigitNext rest) :
    takePair (padded 2 n ++ rest) = some (n, rest) := by
  rw [takePair, trimStart_digits isDigit_padded padded_ne_nil,
    takeNumber_padded (Nat.le_of_eq (length_padded (by decide) hn)) hr]

theorem skipMark_cons {mark : Char} (h : Text.isWhiteSpace mark = false) :
    skipMark mark (mark :: rest) = some rest := by
  rw [skipMark, trimStart_eq_self (by simpa using h)]
  simp

theorem takeYear_of_digit (h : ∀ c ∈ cs.head?, c.isDigit = true) :
    takeYear cs = (takeNumber 4 cs).map fun (n, rest) => ((n : Int), rest) := by
  unfold takeYear
  split
  · exact absurd (h '-' rfl) (by decide)
  · exact absurd (h '+' rfl) (by decide)
  · rfl

theorem takeYear_yearChars (year : Int) (hr : NoDigitNext rest) :
    takeYear (yearChars year ++ rest) = some (year, rest) := by
  unfold yearChars
  split
  · next hyear =>
    have hlt : year.toNat < 10 ^ 4 := by omega
    have hlen := length_padded (by decide) hlt
    rw [takeYear_of_digit (isDigit_head isDigit_padded padded_ne_nil),
      takeNumber_padded (Nat.le_of_eq hlen) hr]
    simp only [Option.map_some, Int.toNat_of_nonneg hyear.1]
  · have hread : takeNumber (padded 4 year.natAbs ++ rest).length (padded 4 year.natAbs ++ rest) =
        some (year.natAbs, rest) := takeNumber_padded (by simp) hr
    split
    · simp only [List.cons_append, takeYear, hread, Option.map_some]
      congr 2
      omega
    · simp only [List.cons_append, takeYear, hread, Option.map_some]
      congr 2
      omega

theorem takeFraction_digits (hd : ∀ c ∈ cs, c.isDigit = true) (hne : cs ≠ []) (hl : cs.length ≤ 9)
    (hr : NoDigitNext rest) :
    takeFraction ('.' :: (cs ++ rest)) = some (digitsValue cs * 10 ^ (9 - cs.length), rest) := by
  simp only [takeFraction, takeWhile_digits hd hr, dropWhile_digits hd hr, List.take_of_length_le hl]
  rw [if_neg (by simpa using hne)]
  rfl

theorem takeFraction_padded (hw : 0 < width) (hl : width ≤ 9) (hn : n < 10 ^ width) (hr : NoDigitNext rest) :
    takeFraction ('.' :: (padded width n ++ rest)) = some (n * 10 ^ (9 - width), rest) := by
  have hlen := length_padded hw hn
  rw [takeFraction_digits isDigit_padded padded_ne_nil (hlen.trans_le hl) hr, digitsValue_padded, hlen]

theorem takeFraction_fractionChars (hn : n < 1000000000) :
    takeFraction (fractionChars n ++ ['Z']) = some (n, ['Z']) := by
  have hr : NoDigitNext ['Z'] := by
    rintro c ⟨⟩
    rfl
  unfold fractionChars
  split
  · next h => rw [h]; rfl
  split
  · rw [List.cons_append, takeFraction_padded (by decide) (by decide) (by omega) hr]
    congr 2
    omega
  split
  · rw [List.cons_append, takeFraction_padded (by decide) (by decide) (by omega) hr]
    congr 2
    omega
  · rw [List.cons_append, takeFraction_padded (by decide) (by decide) (by omega) hr]
    congr 2
    omega

theorem setBack_zero (h : t.Valid) : t.setBack 0 = some t := by
  have hhour := h.hour
  have hminute := h.minute
  have htotal : ¬ ((t.hour * 60 + t.minute : Nat) : Int) - 0 < 0 := by omega
  have hday : ((t.hour * 60 + t.minute : Nat) : Int) - 0 < 1440 := by omega
  have hofDay : ((((t.hour * 60 + t.minute : Nat) : Int) - 0) % 1440).toNat = t.hour * 60 + t.minute := by omega
  have hh : (t.hour * 60 + t.minute) / 60 = t.hour := by omega
  have hm : (t.hour * 60 + t.minute) % 60 = t.minute := by omega
  simp only [setBack, if_neg htotal, if_pos hday, hofDay, hh, hm, if_pos h.date]

theorem noDigitNext_cons {mark : Char} (h : mark.isDigit = false) (rest : List Char) : NoDigitNext (mark :: rest) := by
  rintro c ⟨⟩
  exact h

theorem noDigitNext_fraction (n : Nat) : NoDigitNext (fractionChars n ++ ['Z']) := by
  unfold fractionChars
  split
  · exact noDigitNext_cons rfl _
  split
  · exact noDigitNext_cons rfl _
  split <;> exact noDigitNext_cons rfl _

theorem trimStart_yearChars (year : Int) : trimStart (yearChars year ++ rest) = yearChars year ++ rest := by
  unfold yearChars
  split
  · exact trimStart_digits isDigit_padded padded_ne_nil
  · apply trimStart_eq_self
    rintro c ⟨⟩
    split <;> rfl

/-- The parts of a text as it is written are read one after the other. -/
theorem ofChars?_parts {year : Int} {month day hour minute second nanosecond : Nat} (hmonth : month < 100)
    (hday : day < 100) (hhour : hour < 100) (hminute : minute < 100) (hsecond : second < 100)
    (hnanosecond : nanosecond < 1000000000) :
    ofChars? (yearChars year ++ '-' :: (padded 2 month ++ '-' :: (padded 2 day ++ 'T' :: (padded 2 hour ++
        ':' :: (padded 2 minute ++ ':' :: (padded 2 second ++ (fractionChars nanosecond ++ ['Z']))))))) =
      if isDate year month day && hour < 24 && minute < 60 && second ≤ 60 then
        let t : Timestamp := { year, month, day, hour, minute, second, nanosecond }
        let t := if second = 60 then { t with second := 59, nanosecond := nanosecond + 1000000000 } else t
        t.setBack 0
      else none := by
  have hdash : ∀ rest, NoDigitNext ('-' :: rest) := noDigitNext_cons rfl
  have hcolon : ∀ rest, NoDigitNext (':' :: rest) := noDigitNext_cons rfl
  have htime : ∀ rest, NoDigitNext ('T' :: rest) := noDigitNext_cons rfl
  have hskipDash : ∀ rest, skipMark '-' ('-' :: rest) = some rest := fun _ => skipMark_cons rfl
  have hskipColon : ∀ rest, skipMark ':' (':' :: rest) = some rest := fun _ => skipMark_cons rfl
  have hoffset : takeOffset (trimStart ['Z']) = some (0, []) := rfl
  have hmark : isDateTimeMark 'T' = true := rfl
  unfold ofChars?
  rw [trimStart_yearChars, takeYear_yearChars _ (hdash _), Option.bind_eq_bind, Option.bind_some]
  dsimp only
  rw [hskipDash, Option.bind_eq_bind, Option.bind_some, takePair_padded hmonth (hdash _), Option.bind_eq_bind,
    Option.bind_some]
  dsimp only
  rw [hskipDash, Option.bind_some, takePair_padded hday (htime _), Option.bind_some]
  dsimp only
  rw [if_pos hmark, Option.bind_some, takePair_padded hhour (hcolon _), Option.bind_some, hskipColon,
    Option.bind_some, takePair_padded hminute (hcolon _), Option.bind_some, hskipColon, Option.bind_some,
    takePair_padded hsecond (noDigitNext_fraction _), Option.bind_some, takeFraction_fractionChars hnanosecond,
    Option.bind_some, hoffset, Option.bind_some]
  simp

theorem daysInMonth_le (year : Int) (month : Nat) : daysInMonth year month ≤ 31 := by
  unfold daysInMonth
  split
  · split <;> decide
  · split <;> decide

/-- What is written for a moment reads back as that moment. -/
theorem ofText?_text (h : t.Valid) : ofText? t.text = some t := by
  have hdate := h.date
  simp only [isDate, Bool.and_eq_true, decide_eq_true_eq] at hdate
  have hday : t.day < 100 := by
    have hbound := daysInMonth_le t.year t.month
    omega
  have hhour := h.hour
  have hminute := h.minute
  have hsecond := h.second
  have hnanosecond := h.nanosecond
  rw [ofText?, text, String.toList_ofList, chars]
  simp only [List.append_assoc, List.cons_append]
  by_cases hleap : 1000000000 ≤ t.nanosecond
  · have hlast := h.leap hleap
    simp only [if_pos hleap]
    rw [ofChars?_parts (by omega) hday (by omega) (by omega) (by omega) (by omega)]
    have hback : { t with second := 59, nanosecond := t.nanosecond - 1000000000 + 1000000000 } = t := by
      rw [Nat.sub_add_cancel hleap, ← hlast]
    simp only [h.date, hhour, hminute, hlast]
    simpa [hback] using setBack_zero h
  · simp only [if_neg hleap]
    rw [ofChars?_parts (by omega) hday (by omega) (by omega) (by omega) (by omega)]
    have hno : ¬ t.second = 60 := by omega
    have hle : t.second ≤ 60 := by omega
    simpa [h.date, hhour, hminute, hle, hno] using setBack_zero h

theorem fraction_lt (hd : ∀ c ∈ cs, c.isDigit = true) (hl : cs.length ≤ 9) :
    digitsValue cs * 10 ^ (9 - cs.length) < 1000000000 :=
  calc digitsValue cs * 10 ^ (9 - cs.length)
    _ < 10 ^ cs.length * 10 ^ (9 - cs.length) :=
      Nat.mul_lt_mul_of_pos_right (digitsValue_lt hd) (Nat.pow_pos (by decide))
    _ = 1000000000 := by rw [← Nat.pow_add, Nat.add_sub_cancel' hl]

theorem takeFraction_lt (h : takeFraction cs = some (n, rest)) : n < 1000000000 := by
  unfold takeFraction at h
  split at h
  · dsimp only at h
    split at h
    · cases h
    · obtain ⟨rfl, -⟩ := Prod.mk.inj (Option.some.inj h)
      refine fraction_lt (fun c hc => ?_) (List.length_take_le ..)
      exact List.all_eq_true.mp List.all_takeWhile c (List.mem_of_mem_take hc)
  · cases h
    decide

/-- Turning the clock back keeps to the calendar and the clock, and does not touch the seconds. -/
theorem setBack_eq_some {back : Timestamp} {minutes : Int} (h : t.setBack minutes = some back) :
    isDate back.year back.month back.day = true ∧ back.hour < 24 ∧ back.minute < 60 ∧
      back.second = t.second ∧ back.nanosecond = t.nanosecond := by
  simp only [setBack, Option.ite_none_right_eq_some, Option.some.injEq] at h
  obtain ⟨hdate, rfl⟩ := h
  refine ⟨hdate, ?_, ?_, rfl, rfl⟩
  · dsimp only
    omega
  · exact Nat.mod_lt _ (by decide)

/-- A text names the time of day on some clock, which is then turned back. A leap second is the last one of its
minute. -/
theorem exists_setBack_of_ofChars? (h : ofChars? cs = some t) : ∃ (parts : Timestamp) (minutes : Int),
    parts.setBack minutes = some t ∧ parts.second < 60 ∧ parts.nanosecond < 2000000000 ∧
      (1000000000 ≤ parts.nanosecond → parts.second = 59) := by
  unfold ofChars? at h
  obtain ⟨⟨year, cs⟩, -, h⟩ := Option.bind_eq_some_iff.mp h
  obtain ⟨cs, -, h⟩ := Option.bind_eq_some_iff.mp h
  obtain ⟨⟨month, cs⟩, -, h⟩ := Option.bind_eq_some_iff.mp h
  obtain ⟨cs, -, h⟩ := Option.bind_eq_some_iff.mp h
  obtain ⟨⟨day, cs⟩, -, h⟩ := Option.bind_eq_some_iff.mp h
  dsimp only at h
  split at h
  rotate_left
  · cases h
  split at h
  rotate_left
  · cases h
  obtain ⟨_, -, h⟩ := Option.bind_eq_some_iff.mp h
  obtain ⟨⟨hour, cs⟩, -, h⟩ := Option.bind_eq_some_iff.mp h
  obtain ⟨cs, -, h⟩ := Option.bind_eq_some_iff.mp h
  obtain ⟨⟨minute, cs⟩, -, h⟩ := Option.bind_eq_some_iff.mp h
  obtain ⟨cs, -, h⟩ := Option.bind_eq_some_iff.mp h
  obtain ⟨⟨second, cs⟩, -, h⟩ := Option.bind_eq_some_iff.mp h
  obtain ⟨⟨nanosecond, cs⟩, hfraction, h⟩ := Option.bind_eq_some_iff.mp h
  obtain ⟨⟨offset, cs⟩, -, h⟩ := Option.bind_eq_some_iff.mp h
  have hnanosecond := takeFraction_lt hfraction
  dsimp only at h
  split at h
  · next hparts =>
    simp only [Bool.and_eq_true, decide_eq_true_eq] at hparts
    split at h
    · exact ⟨_, _, h, Nat.lt_succ_self 59, Nat.add_lt_add_right hnanosecond _, fun _ => rfl⟩
    · exact ⟨_, _, h, by dsimp only; omega, by dsimp only; omega, by dsimp only; omega⟩
  · cases h

/-- Every moment that is read is one that the calendar and the clock know. -/
theorem valid_of_ofText? {text : String} (h : ofText? text = some t) : t.Valid := by
  obtain ⟨parts, minutes, hback, hsecond, hnanosecond, hleap⟩ := exists_setBack_of_ofChars? h
  obtain ⟨hdate, hhour, hminute, hsame, hsame'⟩ := setBack_eq_some hback
  rw [← hsame] at hsecond
  rw [← hsame'] at hnanosecond
  rw [← hsame, ← hsame'] at hleap
  exact ⟨hdate, hhour, hminute, hsecond, hnanosecond, hleap⟩

end ArithDispatch.Timestamp
