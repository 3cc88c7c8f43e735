import ArithDispatch.Numeric.Binary64

/-! The four binary operators: their symbols, how tightly they bind, and what they compute. -/
namespace ArithDispatch

inductive Operator where
  | add | sub | mul | div
  deriving DecidableEq, Repr, Inhabited

namespace Operator

def all : List Operator := [add, sub, mul, div]

theorem mem_all (op : Operator) : op ∈ all := by
  cases op <;> simp [all]

def symbol : Operator → Char
  | add => '+'
  | sub => '-'
  | mul => '*'
  | div => '/'

def ofSymbol? (c : Char) : Option Operator := all.find? (·.symbol == c)

/-- Binding strength; a higher one binds tighter. -/
def precedence : Operator → Nat
  | add | sub => 1
  | mul | div => 2

/-- Binary64 arithmetic, which is what a worker performs. -/
def apply : Operator → Binary64 → Binary64 → Binary64
  | add => Binary64.add
  | sub => Binary64.sub
  | mul => Binary64.mul
  | div => Binary64.div

theorem ofSymbol?_symbol (op : Operator) : ofSymbol? op.symbol = some op := by
  cases op <;> rfl

theorem symbol_of_ofSymbol? {c : Char} {op : Operator} (h : ofSymbol? c = some op) :
    op.symbol = c := by
  simpa using List.find?_some h

end Operator

end ArithDispatch
