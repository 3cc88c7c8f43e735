import ArithDispatch.Json.Number
import ArithDispatch.Json.Text
import ArithDispatch.Text.Utf8

/-! The lexemes of a JSON text. Where no lexeme can be read the list ends with a mark, and what
stands behind that place is not looked at. A text in bytes need not be UTF-8: damage inside a string leaves
that string without a value, and no lexeme can be read where there is damage outside of strings. -/
namespace ArithDispatch.Json

inductive Lexeme where
  | openArray | closeArray | openObject | closeObject | comma | colon
  | null
  | bool (b : Bool)
  /-- A number, without a value when it is out of range. -/
  | number (n : Option Number)
  /-- A string, without a value when a surrogate has no partner or the bytes are damaged. -/
  | text (s : Option String)
  | unreadable
  deriving DecidableEq, Repr

namespace Lexeme

def isSpace (c : Char) : Bool := c == ' ' || c == '\n' || c == '\t' || c == '\r'

/-- The lexeme in front of a text that does not start with a space, and what follows it. -/
def first : List Char → Option (Lexeme × List Char)
  | '[' :: rest => some (openArray, rest)
  | ']' :: rest => some (closeArray, rest)
  | '{' :: rest => some (openObject, rest)
  | '}' :: rest => some (closeObject, rest)
  | ',' :: rest => some (comma, rest)
  | ':' :: rest => some (colon, rest)
  | 'n' :: 'u' :: 'l' :: 'l' :: rest => some (null, rest)
  | 't' :: 'r' :: 'u' :: 'e' :: rest => some (bool true, rest)
  | 'f' :: 'a' :: 'l' :: 's' :: 'e' :: rest => some (bool false, rest)
  | '"' :: rest => (takePieces rest).map fun (pieces, rest) =>
      (text ((joinPieces pieces).map String.ofList), rest)
  | cs => (Numeral.take cs).map fun (numeral, rest) => (number numeral.value?, rest)

theorem length_first {cs rest : List Char} {lexeme : Lexeme} (h : first cs = some (lexeme, rest)) :
    rest.length < cs.length := by
  unfold first at h
  split at h
  case h_10 tail =>
    obtain ⟨⟨pieces, after⟩, taken, eq⟩ := Option.map_eq_some_iff.mp h
    cases eq
    exact Nat.lt_succ_of_lt (length_takePieces taken)
  case h_11 =>
    obtain ⟨⟨numeral, after⟩, taken, eq⟩ := Option.map_eq_some_iff.mp h
    cases eq
    exact Numeral.length_take taken
  all_goals
    cases h
    simp only [List.length_cons]
    omega

def all (cs : List Char) : List Lexeme :=
  match _ : cs.dropWhile isSpace with
  | [] => []
  | c :: rest =>
    match _ : first (c :: rest) with
    | none => [unreadable]
    | some (lexeme, rest) => lexeme :: all rest
termination_by cs.length
decreasing_by
  rename_i skipped taken
  refine Nat.lt_of_lt_of_le (length_first taken) ?_
  rw [← skipped]
  exact (List.dropWhile_sublist _).length_le

/-- As `all` is read, without what its recursion needs to know. -/
theorem all_eq (cs : List Char) : all cs =
    match cs.dropWhile isSpace with
    | [] => []
    | c :: rest => (first (c :: rest)).elim [unreadable] fun (lexeme, rest) => lexeme :: all rest := by
  fun_induction all cs with
  | case1 cs hc => rw [hc]
  | case2 cs c rest hc hfirst =>
    rw [hc]
    dsimp only
    rw [hfirst, Option.elim_none]
  | case3 cs c rest hc lexeme rest' hfirst _ =>
    rw [hc]
    dsimp only
    rw [hfirst, Option.elim_some]

/-- What two readers agree on who stand in for damage with different characters. -/
def agreed (a b : Lexeme) : Lexeme := if a = b then a else .text none

/-- The lexemes of a text in bytes. Damaged bytes show in the value of a string and nowhere else, and there it
matters which character stands in for them. -/
def ofBytes (bytes : ByteArray) : List Lexeme :=
  .zipWith agreed (all (Text.decode '\uFFFC' bytes 0)) (all (Text.decode '\uFFFD' bytes 0))

end Lexeme

end ArithDispatch.Json
