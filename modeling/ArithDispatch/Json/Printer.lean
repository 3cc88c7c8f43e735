import ArithDispatch.Json.Codec

/-! The text of a JSON value, without white space. Strings escape what must be escaped and nothing else,
integers are decimal, and how a binary64 is printed is a parameter. -/
namespace ArithDispatch.Json

/-- The letter that stands behind a backslash for the character. -/
def escapeLetter? : Char → Option Char
  | '"' => some '"'
  | '\\' => some '\\'
  | '\x08' => some 'b'
  | '\x0c' => some 'f'
  | '\n' => some 'n'
  | '\r' => some 'r'
  | '\t' => some 't'
  | _ => none

/-- A character inside a string. A control character without a letter has four small hexadecimal digits. -/
def escaped (c : Char) : List Char :=
  match escapeLetter? c with
  | some letter => ['\\', letter]
  | none =>
    if c.toNat < 0x20 then
      ['\\', 'u', '0', '0', Nat.digitChar (c.toNat / 16), Nat.digitChar (c.toNat % 16)]
    else [c]

def Number.chars (decimal : Binary64 → List Char) : Number → List Char
  | natural n => Nat.toDigits 10 n.toNat
  | negative magnitude => '-' :: Nat.toDigits 10 magnitude.toNat
  | real x => decimal x

/-- The text of a lexeme. One that stands for no value has none. -/
def Lexeme.chars (decimal : Binary64 → List Char) : Lexeme → List Char
  | openArray => ['[']
  | closeArray => [']']
  | openObject => ['{']
  | closeObject => ['}']
  | comma => [',']
  | colon => [':']
  | null => ['n', 'u', 'l', 'l']
  | bool true => ['t', 'r', 'u', 'e']
  | bool false => ['f', 'a', 'l', 's', 'e']
  | number (some n) => n.chars decimal
  | text (some s) => '"' :: s.toList.flatMap escaped ++ ['"']
  | number none | text none | unreadable => []

namespace Value

mutual

def lexemes : Value → List Lexeme
  | null => [.null]
  | bool b => [.bool b]
  | number n => [.number (some n)]
  | text s => [.text (some s)]
  | array items => .openArray :: itemsLexemes [] items ++ [.closeArray]
  | object members => .openObject :: membersLexemes [] members ++ [.closeObject]

/-- The items, with a comma in front of each but the first, and `before` in front of that. -/
def itemsLexemes (before : List Lexeme) : List Value → List Lexeme
  | [] => []
  | item :: rest => before ++ item.lexemes ++ itemsLexemes [.comma] rest

def membersLexemes (before : List Lexeme) : List (String × Value) → List Lexeme
  | [] => []
  | (key, value) :: rest =>
    before ++ .text (some key) :: .colon :: value.lexemes ++ membersLexemes [.comma] rest

end

def print (decimal : Binary64 → List Char) (value : Value) : String :=
  String.ofList (value.lexemes.flatMap (Lexeme.chars decimal))

end Value

end ArithDispatch.Json
