import ArithDispatch.Failure

/-! Why a text is no formula. The first three causes concern the division into balanced tokens; the
others arise when the tokens are put together. -/
namespace ArithDispatch.Formula

inductive Fault where
  /-- A character that starts no token, at a byte offset. -/
  | unknownSymbol (symbol : Char) (offset : Nat)
  | noTokens
  | mismatchedParentheses
  | malformed
  | divisionByZero
  | nonNumeric (text : String)
  deriving DecidableEq, Repr

namespace Fault

def failure : Fault → Failure
  | unknownSymbol symbol offset =>
    .syntaxError s!"unknown token '{symbol}' at position {offset}" (some offset)
  | noTokens => .syntaxError "empty expression" none
  | mismatchedParentheses => .syntaxError "mismatched parentheses" none
  | malformed => .semanticError "malformed expression"
  | divisionByZero => .semanticError "division by zero"
  | nonNumeric text => .semanticError s!"non-numeric literal '{text}'"

end Fault

end ArithDispatch.Formula
