import ArithDispatch.Proofs.Json.Numeral
import ArithDispatch.Proofs.Json.Text

/-! A reader meets a printed value as the value itself. The text falls apart into the lexemes that were printed,
and these are put together again into the value, in whatever containers it stands. -/
namespace ArithDispatch.Json
variable {decimal : Binary64 → List Char} {cs rest : List Char}

namespace Lexeme

/-- A lexeme is the first one of a text that does not begin with a space. -/
theorem all_of_first {lexeme : Lexeme} {c : Char} (hc : isSpace c = false)
    (h : first (c :: cs) = some (lexeme, rest)) : all (c :: cs) = lexeme :: all rest := by
  have hdrop : (c :: cs).dropWhile isSpace = c :: cs := List.dropWhile_cons_of_neg (by simp [hc])
  rw [all_eq, hdrop]
  dsimp only
  rw [h, Option.elim_some]

theorem all_nil : all [] = [] := all_eq []

/-- A text with a numeral in front has none of the other lexemes there. -/
theorem first_of_take {numeral : Numeral} (h : Numeral.take cs = some (numeral, rest)) :
    first cs = some (number numeral.value?, rest) := by
  unfold first
  split
  case h_11 => rw [h, Option.map_some]
  all_goals cases h

theorem all_of_take {numeral : Numeral} (h : Numeral.take cs = some (numeral, rest)) :
    all cs = number numeral.value? :: all rest := by
  cases cs with
  | nil => cases h
  | cons c cs =>
    refine all_of_first ?_ (first_of_take h)
    cases hspace : isSpace c with
    | false => rfl
    | true =>
      simp only [isSpace, Bool.or_eq_true, beq_iff_eq] at hspace
      rcases hspace with ((rfl | rfl) | rfl) | rfl <;> cases h

theorem all_text (s : String) (rest : List Char) :
    all ((text (some s)).chars decimal ++ rest) = text (some s) :: all rest := by
  refine all_of_first (by rfl) ?_
  change first ('"' :: (s.toList.flatMap escaped ++ ['"'] ++ rest)) = _
  rw [List.append_assoc, List.singleton_append, first, takePieces_text, Option.map_some]
  dsimp only
  rw [joinPieces_map_pieceOf, Option.map_some, String.ofList_toList]

/-- Punctuation stands in front of any text. -/
theorem all_sign {lexeme : Lexeme}
    (h : lexeme ∈ [openArray, closeArray, openObject, closeObject, colon]) (rest : List Char) :
    all (lexeme.chars decimal ++ rest) = lexeme :: all rest := by
  simp only [List.mem_cons, List.not_mem_nil, or_false] at h
  rcases h with rfl | rfl | rfl | rfl | rfl
  all_goals exact all_of_first (by rfl) rfl

end Lexeme

/-- Every binary64 among the lexemes is printed so that it reads back. -/
def PrintsAll (decimal : Binary64 → List Char) (lexemes : List Lexeme) : Prop :=
  ∀ x, .number (some (.real x)) ∈ lexemes → PrintsExactly decimal x

theorem numeralEnds_cons {c : Char} (hd : c.isDigit = false) (hp : c ≠ '.') (he : c ≠ 'e') (hE : c ≠ 'E') :
    NumeralEnds (c :: rest) := by
  rintro _ ⟨⟩
  exact ⟨hd, hp, he, hE⟩

namespace Value

/-- A comma ends a numeral as well as what follows the container does. -/
theorem numeralEnds_itemsLexemes (decimal : Binary64 → List Char) (items : List Value) (h : NumeralEnds rest) :
    NumeralEnds ((itemsLexemes [.comma] items).flatMap (Lexeme.chars decimal) ++ rest) := by
  cases items with
  | nil => exact h
  | cons item items => exact numeralEnds_cons rfl (by decide) (by decide) (by decide)

theorem numeralEnds_membersLexemes (decimal : Binary64 → List Char) (members : List (String × Value))
    (h : NumeralEnds rest) :
    NumeralEnds ((membersLexemes [.comma] members).flatMap (Lexeme.chars decimal) ++ rest) := by
  cases members with
  | nil => exact h
  | cons member members => exact numeralEnds_cons rfl (by decide) (by decide) (by decide)

mutual

-- By recursion on the value, with any text behind it. A numeral inside a container has a comma or the end of
-- the container behind it, so only what follows the whole value is left to be assumed.
theorem all_lexemes : ∀ (value : Value) (rest : List Char), PrintsAll decimal value.lexemes →
    NumeralEnds rest →
    Lexeme.all (value.lexemes.flatMap (Lexeme.chars decimal) ++ rest) = value.lexemes ++ Lexeme.all rest
  | .null, _, _, _ | .bool true, _, _, _ | .bool false, _, _, _ => Lexeme.all_of_first (by rfl) rfl
  | .number n, rest, hp, hr => by
    obtain ⟨numeral, htake, hvalue⟩ := Numeral.take_chars
      (fun x hx => hp x (hx ▸ List.mem_singleton_self _)) hr
    have hall := Lexeme.all_of_take htake
    rw [hvalue] at hall
    rw [lexemes, List.flatMap_singleton, List.singleton_append]
    exact hall
  | .text s, rest, _, _ => by
    rw [lexemes, List.flatMap_singleton, List.singleton_append]
    exact Lexeme.all_text s rest
  | .array items, rest, hp, hr => by
    have hitems := all_itemsLexemes items [] (Lexeme.closeArray.chars decimal ++ rest) (fun _ => rfl)
      (fun x hx => hp x (by simp [lexemes, hx])) (numeralEnds_cons rfl (by decide) (by decide) (by decide))
    calc Lexeme.all ((array items).lexemes.flatMap (Lexeme.chars decimal) ++ rest)
      _ = Lexeme.all (Lexeme.openArray.chars decimal ++
          ((itemsLexemes [] items).flatMap (Lexeme.chars decimal) ++
            (Lexeme.closeArray.chars decimal ++ rest))) := by simp [lexemes]
      _ = .openArray :: (itemsLexemes [] items ++ .closeArray :: Lexeme.all rest) := by
        rw [Lexeme.all_sign, hitems, Lexeme.all_sign] <;> simp
      _ = (array items).lexemes ++ Lexeme.all rest := by simp [lexemes]
  | .object members, rest, hp, hr => by
    have hmembers := all_membersLexemes members [] (Lexeme.closeObject.chars decimal ++ rest) (fun _ => rfl)
      (fun x hx => hp x (by simp [lexemes, hx])) (numeralEnds_cons rfl (by decide) (by decide) (by decide))
    calc Lexeme.all ((object members).lexemes.flatMap (Lexeme.chars decimal) ++ rest)
      _ = Lexeme.all (Lexeme.openObject.chars decimal ++
          ((membersLexemes [] members).flatMap (Lexeme.chars decimal) ++
            (Lexeme.closeObject.chars decimal ++ rest))) := by simp [lexemes]
      _ = .openObject :: (membersLexemes [] members ++ .closeObject :: Lexeme.all rest) := by
        rw [Lexeme.all_sign, hmembers, Lexeme.all_sign] <;> simp
      _ = (object members).lexemes ++ Lexeme.all rest := by simp [lexemes]

theorem all_itemsLexemes : ∀ (items : List Value) (before : List Lexeme) (rest : List Char),
    (∀ cs, Lexeme.all (before.flatMap (Lexeme.chars decimal) ++ cs) = before ++ Lexeme.all cs) →
    PrintsAll decimal (itemsLexemes before items) → NumeralEnds rest →
    Lexeme.all ((itemsLexemes before items).flatMap (Lexeme.chars decimal) ++ rest) =
      itemsLexemes before items ++ Lexeme.all rest
  | [], _, _, _, _, _ => rfl
  | item :: items, before, rest, hb, hp, hr => by
    have hitem := all_lexemes item _ (fun x hx => hp x (by simp [itemsLexemes, hx]))
      (numeralEnds_itemsLexemes decimal items hr)
    have hitems := all_itemsLexemes items [.comma] rest (fun _ => Lexeme.all_of_first (by rfl) rfl)
      (fun x hx => hp x (by simp [itemsLexemes, hx])) hr
    simp only [itemsLexemes, List.flatMap_append, List.append_assoc, hb, hitem, hitems]

theorem all_membersLexemes : ∀ (members : List (String × Value)) (before : List Lexeme) (rest : List Char),
    (∀ cs, Lexeme.all (before.flatMap (Lexeme.chars decimal) ++ cs) = before ++ Lexeme.all cs) →
    PrintsAll decimal (membersLexemes before members) → NumeralEnds rest →
    Lexeme.all ((membersLexemes before members).flatMap (Lexeme.chars decimal) ++ rest) =
      membersLexemes before members ++ Lexeme.all rest
  | [], _, _, _, _, _ => rfl
  | (key, value) :: members, before, rest, hb, hp, hr => by
    have hvalue := all_lexemes value _ (fun x hx => hp x (by simp [membersLexemes, hx]))
      (numeralEnds_membersLexemes decimal members hr)
    have hmembers := all_membersLexemes members [.comma] rest (fun _ => Lexeme.all_of_first (by rfl) rfl)
      (fun x hx => hp x (by simp [membersLexemes, hx])) hr
    simp only [membersLexemes, List.flatMap_append, List.flatMap_cons, List.append_assoc, List.cons_append, hb]
    rw [Lexeme.all_text, Lexeme.all_sign, hvalue, hmembers]
    simp

end

end Value

namespace Scan
variable {stack outer : List Frame} {due : Due} {lexeme : Lexeme} {rest : List Lexeme}

/-- Where reading goes on once a value is complete. -/
def resume (value : Scan) : List Frame → List Lexeme → Scan × Bool
  | [], rest => (value, !rest.isEmpty)
  | frame :: outer, rest => assemble (frame.add value :: outer) .commaOrClose rest

theorem assemble_of_complete {value : Scan} (h : step stack due lexeme = some (.complete value outer)) :
    assemble stack due (lexeme :: rest) = resume value outer rest := by
  rw [assemble, h]
  cases outer <;> rfl

theorem assemble_of_going {next : Due} (h : step stack due lexeme = some (.going next outer)) :
    assemble stack due (lexeme :: rest) = assemble outer next rest := by
  rw [assemble, h]

/-- A value may begin where one is due, also in front of the first item of an array. -/
theorem step_eq_beginValue (hd : due = .value ∨ due = .valueOrClose) (hl : lexeme ≠ .closeArray) :
    step stack due lexeme = beginValue stack lexeme := by
  rcases hd with rfl | rfl
  · rfl
  · unfold step
    split
    all_goals first | rfl | contradiction

theorem assemble_scalar {value : Scan} (hd : due = .value ∨ due = .valueOrClose) (hl : lexeme ≠ .closeArray)
    (h : beginValue stack lexeme = some (.complete value stack)) :
    assemble stack due (lexeme :: rest) = resume value stack rest :=
  assemble_of_complete ((step_eq_beginValue hd hl).trans h)

theorem assemble_openArray (hd : due = .value ∨ due = .valueOrClose) :
    assemble stack due (.openArray :: rest) = assemble (.array [] :: stack) .valueOrClose rest :=
  assemble_of_going (step_eq_beginValue hd nofun)

theorem assemble_openObject (hd : due = .value ∨ due = .valueOrClose) :
    assemble stack due (.openObject :: rest) = assemble (.object [] :: stack) .keyOrClose rest :=
  assemble_of_going (step_eq_beginValue hd nofun)

mutual

-- By recursion on the value, in any containers. The first item of an array is put where the array may also be
-- closed, the others behind a comma.
theorem assemble_lexemes : ∀ (value : Value) (stack : List Frame) (due : Due) (rest : List Lexeme),
    due = .value ∨ due = .valueOrClose →
    assemble stack due (value.lexemes ++ rest) = resume value.seen stack rest
  | .null, _, _, _, hd | .bool _, _, _, _, hd | .number _, _, _, _, hd | .text _, _, _, _, hd =>
    assemble_scalar hd nofun rfl
  | .array [], _, _, _, hd => (assemble_openArray hd).trans (assemble_of_complete rfl)
  | .object [], _, _, _, hd => (assemble_openObject hd).trans (assemble_of_complete rfl)
  | .array (item :: items), stack, due, rest, hd => by
    have hitem := assemble_lexemes item (.array [] :: stack) .valueOrClose
      (Value.itemsLexemes [.comma] items ++ .closeArray :: rest) (.inr rfl)
    have hitems := assemble_itemsLexemes items [item.seen] stack rest
    simp only [Value.lexemes, Value.itemsLexemes, List.cons_append, List.append_assoc, List.nil_append]
    rw [assemble_openArray hd, hitem]
    exact hitems
  | .object ((key, value) :: members), stack, due, rest, hd => by
    have hvalue := assemble_lexemes value (.member [] key :: stack) .value
      (Value.membersLexemes [.comma] members ++ .closeObject :: rest) (.inl rfl)
    have hmembers := assemble_membersLexemes members [(some key, value.seen)] stack rest
    simp only [Value.lexemes, Value.membersLexemes, List.cons_append, List.append_assoc, List.nil_append]
    rw [assemble_openObject hd, assemble_of_going rfl, assemble_of_going rfl, hvalue]
    exact hmembers

/-- The items after the first one, behind those that have been read. -/
theorem assemble_itemsLexemes : ∀ (items : List Value) (read : List Scan) (outer : List Frame)
    (rest : List Lexeme),
    assemble (.array read :: outer) .commaOrClose (Value.itemsLexemes [.comma] items ++ .closeArray :: rest) =
      resume (.array (read.reverse ++ Value.itemsSeen items) true) outer rest
  | [], read, outer, rest => by
    rw [Value.itemsSeen, List.append_nil]
    exact assemble_of_complete rfl
  | item :: items, read, outer, rest => by
    have hitem := assemble_lexemes item (.array read :: outer) .value
      (Value.itemsLexemes [.comma] items ++ .closeArray :: rest) (.inl rfl)
    have hitems := assemble_itemsLexemes items (item.seen :: read) outer rest
    rw [List.reverse_cons, List.append_assoc] at hitems
    simp only [Value.itemsLexemes, List.cons_append, List.append_assoc, List.nil_append]
    rw [assemble_of_going rfl, hitem]
    exact hitems

theorem assemble_membersLexemes : ∀ (members : List (String × Value)) (read : List (Option String × Scan))
    (outer : List Frame) (rest : List Lexeme),
    assemble (.object read :: outer) .commaOrClose
        (Value.membersLexemes [.comma] members ++ .closeObject :: rest) =
      resume (.object (read.reverse ++ Value.membersSeen members) true) outer rest
  | [], read, outer, rest => by
    rw [Value.membersSeen, List.append_nil]
    exact assemble_of_complete rfl
  | (key, value) :: members, read, outer, rest => by
    have hvalue := assemble_lexemes value (.member read key :: outer) .value
      (Value.membersLexemes [.comma] members ++ .closeObject :: rest) (.inl rfl)
    have hmembers := assemble_membersLexemes members ((some key, value.seen) :: read) outer rest
    rw [List.reverse_cons, List.append_assoc] at hmembers
    simp only [Value.membersLexemes, List.cons_append, List.append_assoc, List.nil_append]
    rw [assemble_of_going rfl, assemble_of_going rfl, assemble_of_going rfl, hvalue]
    exact hmembers

end

/-- A printed value is met as the value itself, with nothing behind it. -/
theorem ofText_print {value : Value} (h : PrintsAll decimal value.lexemes) :
    ofText (value.print decimal) = (value.seen, false) := by
  have hall := Value.all_lexemes value [] h nofun
  have hassemble := assemble_lexemes value [] .value [] (.inl rfl)
  rw [List.append_nil, Lexeme.all_nil, List.append_nil] at hall
  rw [List.append_nil] at hassemble
  rw [ofText, Value.print, String.toList_ofList, hall]
  exact hassemble

example : (Value.array [.text "a\"\n\x01", .number (.negative 7), .null]).print decimal =
    "[\"a\\\"\\n\\u0001\",-7,null]" := rfl

end Scan

end ArithDispatch.Json
