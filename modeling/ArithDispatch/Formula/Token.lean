import ArithDispatch.Formula.Fault
import ArithDispatch.Operator
import ArithDispatch.Text.WhiteSpace

/-! The tokens of an infix text. A `+` or `-` where an operand is due, directly followed by a digit
or a point, is the sign of that number; anywhere else it is an operator. -/
namespace ArithDispatch.Formula

inductive Token where
  /-- The raw text of a number, which is not checked before the formula is assembled. -/
  | number (text : String)
  | operator (op : Operator)
  | leftParen
  | rightParen
  deriving DecidableEq, Repr

namespace Token

def isNumberChar (c : Char) : Bool := c.isDigit || c == '.'

def isSign (c : Char) : Bool := c == '+' || c == '-'

def startsNumber : List Char → Bool
  | [] => false
  | c :: _ => isNumberChar c

/-- The token of a character that is a token by itself. -/
def ofChar? : Char → Option Token
  | '(' => some leftParen
  | ')' => some rightParen
  | c => (Operator.ofSymbol? c).map operator

/-- Whether an operand may stand next after this token. -/
def leavesOperandDue : Token → Bool
  | operator _ | leftParen => true
  | number _ | rightParen => false

/-- The tokens of `cs`, which starts `offset` bytes into the text. -/
def scan (offset : Nat) (operandDue : Bool) : List Char → Except Fault (List Token)
  | [] => .ok []
  | c :: rest =>
    if Text.isWhiteSpace c then scan (offset + c.utf8Size) operandDue rest
    else if isNumberChar c || (operandDue && isSign c && startsNumber rest) then
      let digits := rest.takeWhile isNumberChar
      (scan (offset + 1 + digits.length) false (rest.dropWhile isNumberChar)).map
        (number (String.ofList (c :: digits)) :: ·)
    else match ofChar? c with
      | some token => (scan (offset + 1) token.leavesOperandDue rest).map (token :: ·)
      | none => .error (.unknownSymbol c offset)
termination_by cs => cs.length
decreasing_by
  · simp
  · have := (List.dropWhile_sublist isNumberChar (l := rest)).length_le
    simp only [List.length_cons]
    omega
  · simp

def ofText (text : String) : Except Fault (List Token) := scan 0 true text.toList

/-- The text that the token was read from. -/
def text : Token → String
  | number text => text
  | operator op => op.symbol.toString
  | leftParen => "("
  | rightParen => ")"

end Token

end ArithDispatch.Formula
