import ArithDispatch.Formula.Graph
import ArithDispatch.Formula.ReversePolish

/-! From infix text to a number or a graph of operations. -/
namespace ArithDispatch.Formula

def compile (text : String) : Except Fault Compiled := do
  assemble (← reversePolish text)

end ArithDispatch.Formula
