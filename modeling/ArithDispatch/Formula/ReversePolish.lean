import ArithDispatch.Formula.Token

/-! Reverse-Polish order: every operator directly after its operands. Multiplication and division
bind tighter than addition and subtraction, and equal precedence associates to the left. -/
namespace ArithDispatch.Formula

/-- What waits for its turn: an operator whose right operand is still being read, or a parenthesis
that is still open. -/
inductive Held where
  | operator (op : Operator)
  | parenthesis
  deriving DecidableEq, Repr

namespace Held

/-- Whether the held item is to be written before an operator `next` is held in turn. -/
def yieldsTo (next : Operator) : Held → Bool
  | operator op => next.precedence ≤ op.precedence
  | parenthesis => false

def token : Held → Token
  | operator op => .operator op
  | parenthesis => .leftParen

end Held

/-- Rearranges the tokens that are left while `held` waits, innermost first. -/
def rearrange (held : List Held) : List Token → Except Fault (List Token)
  | [] => if held.contains .parenthesis then .error .mismatchedParentheses
      else .ok (held.map Held.token)
  | .number text :: rest => (rearrange held rest).map (.number text :: ·)
  | .operator op :: rest =>
    (rearrange (.operator op :: held.dropWhile (·.yieldsTo op)) rest).map
      ((held.takeWhile (·.yieldsTo op)).map Held.token ++ ·)
  | .leftParen :: rest => rearrange (.parenthesis :: held) rest
  | .rightParen :: rest =>
    match held.dropWhile (· != .parenthesis) with
    | [] => .error .mismatchedParentheses
    | _ :: outer =>
      (rearrange outer rest).map ((held.takeWhile (· != .parenthesis)).map Held.token ++ ·)

/-- The tokens of an infix text in reverse-Polish order. -/
def reversePolish (text : String) : Except Fault (List Token) := do
  let tokens ← Token.ofText text
  if tokens.isEmpty then .error .noTokens else rearrange [] tokens

end ArithDispatch.Formula
