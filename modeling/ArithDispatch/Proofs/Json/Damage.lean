import ArithDispatch.Proofs.Json.Codec
import Mathlib.Data.List.Forall2

/-! What is read of a damaged text. A character that is not ASCII can stand in a string and nowhere else, so that two
readers who stand in for damage with different ones read the same lexemes, but for the values of strings. -/
namespace ArithDispatch.Json

/-- What two readers see at one place: the same, or damage, where one sees `x` and the other one `y`. -/
def Alike (x y c d : Char) : Prop := c = d ∨ (0x80 ≤ c.toNat ∧ 0x80 ≤ d.toNat) ∧ c = x ∧ d = y

variable {α β : Type} {x y c d : Char} {cs ds : List Char}

namespace Alike

theorem eq_of_ascii (h : Alike x y c d) (hc : c.toNat < 0x80) : d = c := by
  rcases h with rfl | ⟨⟨hhigh, _⟩, _⟩
  · rfl
  · omega

theorem symm (h : Alike x y c d) : Alike y x d c := h.imp Eq.symm (And.imp And.symm And.symm)

theorem ne_of_ascii (h : Alike x y c d) {e : Char} (he : e.toNat < 0x80) (hc : c ≠ e) : d ≠ e := by
  rintro rfl
  exact hc (h.symm.eq_of_ascii he)

/-- What is the same for all characters that are not ASCII is the same for these two. -/
theorem apply_eq (h : Alike x y c d) {f : Char → β} {b : β} (hf : ∀ c, 0x80 ≤ c.toNat → f c = b) : f c = f d := by
  rcases h with rfl | ⟨⟨hc, hd⟩, _⟩
  · rfl
  · rw [hf c hc, hf d hd]

/-- Where two readers see the same there is no damage, and any other reader sees that too. -/
theorem eq_of_both {z : Char} (hx : Alike x z c d) (hy : Alike y z c d) (hxy : x ≠ y) : c = d := by
  rcases hx with rfl | ⟨_, rfl, _⟩
  · rfl
  · rcases hy with rfl | ⟨_, rfl, _⟩
    · rfl
    · exact absurd rfl hxy

end Alike

theorem isDigit_of_not_ascii (c : Char) (h : 0x80 ≤ c.toNat) : c.isDigit = false := by
  simp only [Char.isDigit, Bool.and_eq_false_iff, decide_eq_false_iff_not]
  right
  intro hle
  have : c.toNat ≤ 57 := UInt32.le_iff_toNat_le.mp hle
  omega

/-- Digits, or white space, in front are the same. -/
theorem span_alike {p : Char → Bool} (hp : ∀ c, 0x80 ≤ c.toNat → p c = false) (h : List.Forall₂ (Alike x y) cs ds) :
    cs.takeWhile p = ds.takeWhile p ∧ List.Forall₂ (Alike x y) (cs.dropWhile p) (ds.dropWhile p) := by
  induction h with
  | nil => exact ⟨rfl, .nil⟩
  | @cons c d cs ds hcd hrest ih =>
    have hsame := hcd.apply_eq hp
    cases hc : p c with
    | false =>
      have hd : p d = false := hsame ▸ hc
      simp only [List.takeWhile_cons, List.dropWhile_cons, hc, hd, Bool.false_eq_true, if_false]
      exact ⟨trivial, .cons hcd hrest⟩
    | true =>
      obtain rfl : d = c := hcd.eq_of_ascii (Nat.lt_of_not_le fun hhigh => by simp [hp c hhigh] at hc)
      simp only [List.takeWhile_cons, List.dropWhile_cons, hc, if_true]
      exact ⟨congrArg _ ih.1, ih.2⟩

/-- Both take something, and what follows is alike, or neither does. -/
def Abreast (x y : Char) (r : α → α → Prop) (read seen : Option (α × List Char)) : Prop :=
  Option.Rel (fun a b => r a.1 b.1 ∧ List.Forall₂ (Alike x y) a.2 b.2) read seen

theorem Abreast.bind {r : α → α → Prop} {s : β → β → Prop} {read seen : Option (α × List Char)}
    {f g : α × List Char → Option (β × List Char)} (h : Abreast x y r read seen)
    (hfg : ∀ a b, r a.1 b.1 → List.Forall₂ (Alike x y) a.2 b.2 → Abreast x y s (f a) (g b)) :
    Abreast x y s (read >>= f) (seen >>= g) := by
  cases h with
  | none => exact .none
  | some h => exact hfg _ _ h.1 h.2

theorem Abreast.map {r : α → α → Prop} {s : β → β → Prop} {read seen : Option (α × List Char)}
    {f g : α × List Char → β × List Char} (h : Abreast x y r read seen)
    (hfg : ∀ a b, r a.1 b.1 → List.Forall₂ (Alike x y) a.2 b.2 →
      s (f a).1 (g b).1 ∧ List.Forall₂ (Alike x y) (f a).2 (g b).2) :
    Abreast x y s (read.map f) (seen.map g) := by
  cases h with
  | none => exact .none
  | some h => exact .some (hfg _ _ h.1 h.2)

namespace Numeral

theorem takeMinus_of_ne (h : c ≠ '-') (cs : List Char) : takeMinus (c :: cs) = (false, c :: cs) :=
  takeMinus.eq_2 _ fun _ he => h (List.cons.inj he).1

theorem takeMinus_alike (h : List.Forall₂ (Alike x y) cs ds) :
    (takeMinus cs).1 = (takeMinus ds).1 ∧ List.Forall₂ (Alike x y) (takeMinus cs).2 (takeMinus ds).2 := by
  cases h with
  | nil => exact ⟨rfl, .nil⟩
  | @cons c d cs ds hcd hrest =>
    by_cases hminus : c = '-'
    · subst hminus
      rw [hcd.eq_of_ascii (by decide)]
      exact ⟨rfl, hrest⟩
    · rw [takeMinus_of_ne hminus, takeMinus_of_ne (hcd.ne_of_ascii (by decide) hminus)]
      exact ⟨rfl, .cons hcd hrest⟩

theorem takeFraction_of_ne (h : c ≠ '.') (cs : List Char) : takeFraction (c :: cs) = some (none, c :: cs) :=
  takeFraction.eq_2 _ fun _ he => h (List.cons.inj he).1

theorem takeFraction_alike (h : List.Forall₂ (Alike x y) cs ds) :
    Abreast x y Eq (takeFraction cs) (takeFraction ds) := by
  cases h with
  | nil => exact .some ⟨rfl, .nil⟩
  | @cons c d cs ds hcd hrest =>
    by_cases hpoint : c = '.'
    · subst hpoint
      obtain ⟨hdigits, hafter⟩ := span_alike isDigit_of_not_ascii hrest
      rw [hcd.eq_of_ascii (by decide)]
      simp only [takeFraction, hdigits]
      split
      · exact .none
      · exact .some ⟨rfl, hafter⟩
    · rw [takeFraction_of_ne hpoint, takeFraction_of_ne (hcd.ne_of_ascii (by decide) hpoint)]
      exact .some ⟨rfl, .cons hcd hrest⟩

theorem takeSign_of_ne (hm : c ≠ '-') (hp : c ≠ '+') (cs : List Char) :
    Numeric.takeSign (c :: cs) = (false, c :: cs) :=
  Numeric.takeSign.eq_3 _ (fun _ he => hm (List.cons.inj he).1) fun _ he => hp (List.cons.inj he).1

theorem takeSign_alike (h : List.Forall₂ (Alike x y) cs ds) : (Numeric.takeSign cs).1 = (Numeric.takeSign ds).1 ∧
    List.Forall₂ (Alike x y) (Numeric.takeSign cs).2 (Numeric.takeSign ds).2 := by
  cases h with
  | nil => exact ⟨rfl, .nil⟩
  | @cons c d cs ds hcd hrest =>
    by_cases hminus : c = '-'
    · subst hminus
      rw [hcd.eq_of_ascii (by decide)]
      exact ⟨rfl, hrest⟩
    · by_cases hplus : c = '+'
      · subst hplus
        rw [hcd.eq_of_ascii (by decide)]
        exact ⟨rfl, hrest⟩
      · rw [takeSign_of_ne hminus hplus, takeSign_of_ne (hcd.ne_of_ascii (by decide) hminus)
          (hcd.ne_of_ascii (by decide) hplus)]
        exact ⟨rfl, .cons hcd hrest⟩

theorem takeExponent_alike (h : List.Forall₂ (Alike x y) cs ds) :
    Abreast x y Eq (takeExponent cs) (takeExponent ds) := by
  cases h with
  | nil => exact .some ⟨rfl, .nil⟩
  | @cons c d cs ds hcd hrest =>
    have hmark : (c == 'e' || c == 'E') = (d == 'e' || d == 'E') :=
      hcd.apply_eq (f := fun c => c == 'e' || c == 'E') (b := false) fun c hc => by
        rw [Bool.or_eq_false_iff, beq_eq_false_iff_ne, beq_eq_false_iff_ne]
        constructor <;> rintro rfl <;> simp at hc
    obtain ⟨hsign, hunsigned⟩ := takeSign_alike hrest
    obtain ⟨hdigits, hafter⟩ := span_alike isDigit_of_not_ascii hunsigned
    simp only [takeExponent, hmark, hsign, hdigits]
    split
    · split
      · exact .none
      · exact .some ⟨rfl, hafter⟩
    · exact .some ⟨rfl, .cons hcd hrest⟩

theorem takeWhole_alike (h : List.Forall₂ (Alike x y) cs ds) : Abreast x y Eq (takeWhole cs) (takeWhole ds) := by
  obtain ⟨hdigits, hrest⟩ := span_alike isDigit_of_not_ascii h
  simp only [takeWhole, hdigits]
  split
  · exact .none
  · exact .some ⟨rfl, hrest⟩

theorem take_alike (h : List.Forall₂ (Alike x y) cs ds) : Abreast x y Eq (take cs) (take ds) := by
  obtain ⟨hsign, hunsigned⟩ := takeMinus_alike h
  simp only [take, hsign]
  refine (takeWhole_alike hunsigned).bind ?_
  rintro ⟨whole, _⟩ ⟨_, _⟩ rfl hwhole
  refine (takeFraction_alike hwhole).bind ?_
  rintro ⟨fraction, _⟩ ⟨_, _⟩ rfl hfraction
  refine (takeExponent_alike hfraction).bind ?_
  rintro ⟨exponent, _⟩ ⟨_, _⟩ rfl hexponent
  exact .some ⟨rfl, hexponent⟩

end Numeral

theorem hexValue?_of_not_ascii (c : Char) (h : 0x80 ≤ c.toNat) : hexValue? c = none := by
  have hf : ¬c ≤ 'f' := fun hle => by
    have : c.toNat ≤ 102 := UInt32.le_iff_toNat_le.mp hle
    omega
  have hF : ¬c ≤ 'F' := fun hle => by
    have : c.toNat ≤ 70 := UInt32.le_iff_toNat_le.mp hle
    omega
  simp [hexValue?, isDigit_of_not_ascii c h, hf, hF]

theorem escapeValue?_of_not_ascii (c : Char) (h : 0x80 ≤ c.toNat) : escapeValue? c = none := by
  unfold escapeValue?
  split <;> first | rfl | simp at h

/-- What is written in ASCII in front of one is in front of the other. -/
theorem ascii_front (front : List Char) (hfront : front.all (·.toNat < 0x80))
    (h : List.Forall₂ (Alike x y) (front ++ cs) ds) : ∃ es, ds = front ++ es ∧ List.Forall₂ (Alike x y) cs es := by
  induction front generalizing ds with
  | nil => exact ⟨ds, rfl, h⟩
  | cons c front ih =>
    cases h with
    | @cons _ d _ ds hcd hrest =>
      simp only [List.all_cons, Bool.and_eq_true, decide_eq_true_eq] at hfront
      obtain ⟨es, rfl, he⟩ := ih hfront.2 hrest
      rw [hcd.eq_of_ascii hfront.1]
      exact ⟨es, rfl, he⟩

theorem alike_symm (h : List.Forall₂ (Alike x y) cs ds) : List.Forall₂ (Alike y x) ds cs :=
  h.flip.imp fun _ _ => Alike.symm

theorem unitValue?_alike {a b c d a' b' c' d' : Char} (ha : Alike x y a a') (hb : Alike x y b b')
    (hc : Alike x y c c') (hd : Alike x y d d') : unitValue? a b c d = unitValue? a' b' c' d' := by
  simp only [unitValue?, ha.apply_eq hexValue?_of_not_ascii, hb.apply_eq hexValue?_of_not_ascii,
    hc.apply_eq hexValue?_of_not_ascii, hd.apply_eq hexValue?_of_not_ascii]

/-- The start of a string that stands for itself. A backslash does only at the end of the text. -/
def IsPlain (c : Char) (cs : List Char) : Prop := c ≠ '"' ∧ ∀ e tail, c = '\\' → cs ≠ e :: tail

theorem IsPlain.alike (h : IsPlain c cs) (hcd : Alike x y c d) (hrest : List.Forall₂ (Alike x y) cs ds) :
    IsPlain d ds := by
  refine ⟨hcd.ne_of_ascii (by decide) h.1, ?_⟩
  rintro e tail rfl rfl
  cases hrest
  exact h.2 _ _ (hcd.symm.eq_of_ascii (by decide)) rfl

theorem IsPlain.takePieces (h : IsPlain c cs) : takePieces (c :: cs) =
    if c.toNat < 0x20 then none
    else (do
      let (pieces, rest) ← Json.takePieces cs
      pure (.char c :: pieces, rest)) :=
  takePieces.eq_5 c cs h.1 (fun _ _ _ _ _ => h.2 _ _) h.2

/-- Escapes are the same. -/
inductive Piece.Alike (x y : Char) : Piece → Piece → Prop
  | char {c d : Char} (h : Json.Alike x y c d) : Alike x y (.char c) (.char d)
  | unit (n : Nat) : Alike x y (.unit n) (.unit n)

/-- A string ends at the same place. -/
theorem takePieces_alike (h : List.Forall₂ (Alike x y) cs ds) :
    Abreast x y (List.Forall₂ (Piece.Alike x y)) (takePieces cs) (takePieces ds) := by
  fun_induction takePieces cs generalizing ds with
  | case1 =>
    cases h
    exact .none
  | case2 rest =>
    obtain ⟨es, rfl, he⟩ := ascii_front ['"'] rfl h
    exact .some ⟨.nil, he⟩
  | case3 a b c d rest ih =>
    obtain ⟨es, rfl, he⟩ := ascii_front ['\\', 'u'] rfl h
    obtain _ | ⟨ha, _ | ⟨hb, _ | ⟨hc, _ | ⟨hd, hrest⟩⟩⟩⟩ := he
    dsimp only [List.cons_append, List.nil_append]
    rw [takePieces, ← unitValue?_alike ha hb hc hd]
    cases unitValue? a b c d with
    | none => exact .none
    | some n => exact (ih hrest).bind fun _ _ hmore h => .some ⟨.cons (.unit n) hmore, h⟩
  | case4 e rest hplain ih =>
    obtain ⟨es, rfl, he⟩ := ascii_front ['\\'] rfl h
    obtain _ | @⟨_, e', _, rest', hee, hrest⟩ := he
    dsimp only [List.cons_append, List.nil_append]
    rw [takePieces.eq_4 e' rest', ← hee.apply_eq escapeValue?_of_not_ascii]
    · cases escapeValue? e with
      | none => exact .none
      | some c => exact (ih hrest).bind fun _ _ hmore h => .some ⟨.cons (.char (.inl rfl)) hmore, h⟩
    · rintro a b c d tail rfl rfl
      obtain _ | ⟨_, _ | ⟨_, _ | ⟨_, _ | ⟨_, _⟩⟩⟩⟩ := hrest
      exact hplain _ _ _ _ _ (hee.symm.eq_of_ascii (by decide)) rfl
  | case5 c rest hquote _ hescape hcontrol =>
    obtain _ | @⟨_, d, _, rest', hcd, hrest⟩ := h
    have hplain : IsPlain d rest' := IsPlain.alike ⟨hquote, hescape⟩ hcd hrest
    rw [hplain.takePieces, hcd.eq_of_ascii (by omega), if_pos hcontrol]
    exact .none
  | case6 c rest hquote _ hescape hcontrol ih =>
    obtain _ | @⟨_, d, _, rest', hcd, hrest⟩ := h
    have hplain : IsPlain d rest' := IsPlain.alike ⟨hquote, hescape⟩ hcd hrest
    have hd : ¬d.toNat < 0x20 := fun hd => hcontrol (hcd.symm.eq_of_ascii (by omega) ▸ hd)
    rw [hplain.takePieces, if_neg hd]
    exact (ih hrest).bind fun _ _ hmore h => .some ⟨.cons (.char hcd) hmore, h⟩

theorem rel_map_cons {s t : Option (List Char)} (hcd : Alike x y c d) (h : Option.Rel (List.Forall₂ (Alike x y)) s t) :
    Option.Rel (List.Forall₂ (Alike x y)) (s.map (c :: ·)) (t.map (d :: ·)) := by
  cases h with
  | none => exact .none
  | some h => exact .some (.cons hcd h)

theorem no_unit_next {pieces pieces' : List Piece} (hp : List.Forall₂ (Piece.Alike x y) pieces pieces')
    (h : ∀ low tail, pieces ≠ .unit low :: tail) : ∀ low tail, pieces' ≠ .unit low :: tail := by
  rintro low tail rfl
  obtain _ | ⟨⟨_⟩, _⟩ := hp
  exact h _ _ rfl

/-- A string has a value for both or for neither of them. -/
theorem joinPieces_alike {pieces pieces' : List Piece} (h : List.Forall₂ (Piece.Alike x y) pieces pieces') :
    Option.Rel (List.Forall₂ (Alike x y)) (joinPieces pieces) (joinPieces pieces') := by
  fun_induction joinPieces pieces generalizing pieces' with
  | case1 =>
    cases h
    exact .some .nil
  | case2 c rest ih =>
    obtain _ | ⟨⟨hcd⟩, hrest⟩ := h
    exact rel_map_cons hcd (ih hrest)
  | case3 high low rest hhigh hlow ih =>
    obtain _ | ⟨⟨_⟩, _ | ⟨⟨_⟩, hrest⟩⟩ := h
    rw [joinPieces, if_pos hhigh, if_pos hlow]
    exact rel_map_cons (.inl rfl) (ih hrest)
  | case4 high low rest hhigh hlow =>
    obtain _ | ⟨⟨_⟩, _ | ⟨⟨_⟩, hrest⟩⟩ := h
    rw [joinPieces, if_pos hhigh, if_neg hlow]
    exact .none
  | case5 high low rest hhigh htrail =>
    obtain _ | ⟨⟨_⟩, _ | ⟨⟨_⟩, hrest⟩⟩ := h
    rw [joinPieces, if_neg hhigh, if_pos htrail]
    exact .none
  | case6 high low rest hhigh htrail ih =>
    obtain _ | ⟨⟨_⟩, _ | ⟨⟨_⟩, hrest⟩⟩ := h
    rw [joinPieces, if_neg hhigh, if_neg htrail]
    exact rel_map_cons (.inl rfl) (ih (.cons (.unit low) hrest))
  | case7 n rest hlast hn =>
    obtain _ | @⟨_, _, _, rest', ⟨_⟩, hrest⟩ := h
    rw [joinPieces.eq_4 n rest' (no_unit_next hrest hlast), if_pos hn]
    exact .none
  | case8 n rest hlast hn ih =>
    obtain _ | @⟨_, _, _, rest', ⟨_⟩, hrest⟩ := h
    rw [joinPieces.eq_4 n rest' (no_unit_next hrest hlast), if_neg hn]
    exact rel_map_cons (.inl rfl) (ih hrest)

namespace Lexeme

/-- Equal, or two strings with values that are alike. -/
def Alike (x y : Char) (a b : Lexeme) : Prop :=
  a = b ∨ ∃ s t : Option (List Char), a = .text (s.map String.ofList) ∧ b = .text (t.map String.ofList) ∧
    Option.Rel (List.Forall₂ (Json.Alike x y)) s t

/-- What the lexemes other than numbers start with. -/
def fronts : List (List Char) :=
  [['['], [']'], ['{'], ['}'], [','], [':'], ['n', 'u', 'l', 'l'], ['t', 'r', 'u', 'e'],
    ['f', 'a', 'l', 's', 'e'], ['"']]

theorem fronts_ascii {front : List Char} (h : front ∈ fronts) : front.all (·.toNat < 0x80) :=
  List.all_eq_true.mp (show fronts.all (List.all · (·.toNat < 0x80)) from rfl) front h

theorem first_eq_number (h : ∀ front ∈ fronts, ¬front <+: cs) :
    first cs = (Numeral.take cs).map fun (numeral, rest) => (number numeral.value?, rest) := by
  rw [first.eq_11]
  all_goals
    rintro rest rfl
    simp [fronts] at h

theorem first_alike (h : List.Forall₂ (Json.Alike x y) cs ds) : Abreast x y (Alike x y) (first cs) (first ds) := by
  by_cases hnumber : ∀ front ∈ fronts, ¬front <+: cs
  · have hnumber' : ∀ front ∈ fronts, ¬front <+: ds := by
      rintro front hfront ⟨rest, rfl⟩
      obtain ⟨es, rfl, _⟩ := ascii_front front (fronts_ascii hfront) (alike_symm h)
      exact hnumber front hfront ⟨es, rfl⟩
    rw [first_eq_number hnumber, first_eq_number hnumber']
    exact (Numeral.take_alike h).map fun _ _ he hrest => ⟨.inl (congrArg (number ·.value?) he), hrest⟩
  · push Not at hnumber
    obtain ⟨front, hfront, rest, rfl⟩ := hnumber
    obtain ⟨es, rfl, he⟩ := ascii_front front (fronts_ascii hfront) h
    simp only [fronts, List.mem_cons, List.not_mem_nil, or_false] at hfront
    rcases hfront with rfl | rfl | rfl | rfl | rfl | rfl | rfl | rfl | rfl | rfl
    case inr.inr.inr.inr.inr.inr.inr.inr.inr =>
      exact (takePieces_alike he).map fun _ _ hp hrest => ⟨.inr ⟨_, _, rfl, rfl, joinPieces_alike hp⟩, hrest⟩
    all_goals exact .some ⟨.inl rfl, he⟩

theorem isSpace_of_not_ascii (c : Char) (h : 0x80 ≤ c.toNat) : isSpace c = false := by
  simp only [isSpace, Bool.or_eq_false_iff, beq_eq_false_iff_ne]
  refine ⟨⟨⟨?_, ?_⟩, ?_⟩, ?_⟩ <;> rintro rfl <;> simp at h

theorem all_alike (h : List.Forall₂ (Json.Alike x y) cs ds) : List.Forall₂ (Alike x y) (all cs) (all ds) := by
  have skipped {cs ds} (h : List.Forall₂ (Json.Alike x y) cs ds) := (span_alike isSpace_of_not_ascii h).2
  fun_induction all cs generalizing ds with
  | case1 cs hc =>
    have hd := skipped h
    rw [hc, List.forall₂_nil_left_iff] at hd
    rw [all_eq ds, hd]
    exact .nil
  | case2 cs c rest hc hfirst =>
    obtain ⟨d, rest', hcd, hrest, hd⟩ := List.forall₂_cons_left_iff.mp (hc ▸ skipped h)
    have hboth := first_alike (.cons hcd hrest)
    rw [all_eq ds, hd]
    dsimp only
    rw [hfirst] at hboth
    generalize first (d :: rest') = read at hboth ⊢
    cases hboth
    exact .cons (.inl rfl) .nil
  | case3 cs c rest hc lexeme after hfirst ih =>
    obtain ⟨d, rest', hcd, hrest, hd⟩ := List.forall₂_cons_left_iff.mp (hc ▸ skipped h)
    have hboth := first_alike (.cons hcd hrest)
    rw [all_eq ds, hd]
    dsimp only
    rw [hfirst] at hboth
    generalize first (d :: rest') = read at hboth ⊢
    cases hboth with
    | some hboth => exact .cons hboth.1 (ih hboth.2)

theorem eq_of_both {z : Char} (hx : List.Forall₂ (Json.Alike x z) cs ds) (hy : List.Forall₂ (Json.Alike y z) cs ds)
    (hxy : x ≠ y) : cs = ds := by
  induction hx with
  | nil => rfl
  | cons hcd _ ih =>
    cases hy with
    | cons hcd' hrest => rw [hcd.eq_of_both hcd' hxy, ih hrest]

theorem Alike.eq_of_both {z : Char} {a b : Lexeme} (hx : Alike x z a b) (hy : Alike y z a b) (hxy : x ≠ y) : a = b := by
  obtain rfl | ⟨s, t, rfl, rfl, hst⟩ := hx
  · rfl
  obtain he | ⟨s', t', hs, ht, hst'⟩ := hy
  · exact he
  obtain rfl : s = s' := Option.map_injective (fun _ _ => String.ofList_injective) (text.inj hs)
  obtain rfl : t = t' := Option.map_injective (fun _ _ => String.ofList_injective) (text.inj ht)
  cases hst with
  | none => rfl
  | some h =>
    cases hst' with
    | some h' => rw [Lexeme.eq_of_both h h' hxy]

/-- What a reader sees who stands in for damage, against what is read: that, or a string whose value is not. -/
def Shows (read seen : Lexeme) : Prop := read = seen ∨ read = .text none ∧ ∃ t, seen = .text t

variable {z : Char}

theorem agreed_shows {a b c : Lexeme} (hab : Alike x y a b) (hac : Alike x z a c) (hbc : Alike y z b c)
    (hxy : x ≠ y) : Shows (agreed a b) c := by
  unfold agreed
  split
  · next he =>
    subst he
    exact .inl (hac.eq_of_both hbc hxy)
  · next hne =>
    obtain he | ⟨s, _, rfl, _⟩ := hab
    · exact absurd he hne
    · obtain rfl | ⟨_, t, _, rfl, _⟩ := hac
      · exact .inr ⟨rfl, _, rfl⟩
      · exact .inr ⟨rfl, _, rfl⟩

theorem zipWith_shows {as bs seen : List Lexeme} (hab : List.Forall₂ (Alike x y) as bs)
    (ha : List.Forall₂ (Alike x z) as seen) (hb : List.Forall₂ (Alike y z) bs seen) (hxy : x ≠ y) :
    List.Forall₂ Shows (.zipWith agreed as bs) seen := by
  induction hab generalizing seen with
  | nil =>
    cases ha
    exact .nil
  | cons h _ ih =>
    cases ha with
    | cons ha has =>
      cases hb with
      | cons hb hbs => exact .cons (agreed_shows h ha hb hxy) (ih has hbs)

theorem decode_alike (hx : 0x80 ≤ x.toNat) (hy : 0x80 ≤ y.toNat) (bytes : ByteArray) (place : Nat) :
    List.Forall₂ (Json.Alike x y) (Text.decode x bytes place) (Text.decode y bytes place) := by
  fun_induction Text.decode x bytes place with
  | case1 place hmore c hc ih =>
    rw [Text.decode.eq_def y, if_pos hmore, hc]
    exact .cons (.inl rfl) ih
  | case2 place hmore hdamage ih =>
    rw [Text.decode.eq_def y, if_pos hmore, hdamage]
    exact .cons (.inr ⟨⟨hx, hy⟩, rfl, rfl⟩) ih
  | case3 place hend =>
    rw [Text.decode.eq_def y, if_neg hend]
    exact .nil

/-- Whatever character stands in for damage, if it is not ASCII, the lexemes that are read are those that show, but for
strings that have no value. -/
theorem ofBytes_shows {standIn : Char} (h : 0x80 ≤ standIn.toNat) (bytes : ByteArray) :
    List.Forall₂ Shows (ofBytes bytes) (all (Text.decode standIn bytes 0)) :=
  zipWith_shows (all_alike (decode_alike (by decide) (by decide) bytes 0))
    (all_alike (decode_alike (by decide) h bytes 0)) (all_alike (decode_alike (by decide) h bytes 0)) (by decide)

end Lexeme

end ArithDispatch.Json
