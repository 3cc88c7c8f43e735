import ArithDispatch.Formula.Token
import ArithDispatch.Numeric.Decimal

/-! Formulas as graphs of binary operations. Nodes are listed in creation order, so an operand that
refers to a node refers to an earlier one, and the last node is the root. -/
namespace ArithDispatch

/-- One side of a binary operation: a known number, or the place that will hold it. -/
inductive Operand where
  | literal (value : Binary64)
  | reference (index : Nat)
  deriving DecidableEq, Repr

namespace Operand

def reference? : Operand → Option Nat
  | literal _ => none
  | reference index => some index

/-- The same operand once the numbering of places starts at `base`. -/
def shift (base : Nat) : Operand → Operand
  | literal value => literal value
  | reference index => reference (base + index)

/-- Whether the operand is known to be a zero of either sign. -/
def isZero : Operand → Bool
  | literal value => value.isZero
  | reference _ => false

end Operand

namespace Formula

structure Node where
  left : Operand
  operator : Operator
  right : Operand
  deriving DecidableEq, Repr

structure Graph where
  nodes : List Node
  deriving DecidableEq, Repr

namespace Graph

def size (graph : Graph) : Nat := graph.nodes.length

/-- The index of the root, which is the last node. -/
def root (graph : Graph) : Nat := graph.size - 1

end Graph

/-- What a formula amounts to: a number that needs no work, or operations still to be done. -/
inductive Compiled where
  | literal (value : Binary64)
  | graph (graph : Graph)
  deriving DecidableEq, Repr

/-- Evaluates reverse-Polish tokens on a stack of operands, with `count` nodes made so far. The
result is the final stack and the nodes made from here on. -/
def build (count : Nat) (stack : List Operand) : List Token → Except Fault (List Operand × List Node)
  | [] => .ok (stack, [])
  | .number text :: rest =>
    match Numeric.readFinite text with
    | none => .error (.nonNumeric text)
    | some value => build count (.literal value :: stack) rest
  | .operator op :: rest =>
    match stack with
    | right :: left :: below =>
      if op = .div ∧ right.isZero then .error .divisionByZero
      else (build (count + 1) (.reference count :: below) rest).map fun (final, nodes) =>
        (final, ⟨left, op, right⟩ :: nodes)
    | _ => .error .malformed
  | .leftParen :: _ => .error .malformed
  | .rightParen :: _ => .error .malformed

/-- Accepts the tokens whose evaluation leaves exactly one operand. -/
def assemble (tokens : List Token) : Except Fault Compiled :=
  match build 0 [] tokens with
  | .error fault => .error fault
  | .ok ([.literal value], _) => .ok (.literal value)
  | .ok ([.reference _], nodes) => .ok (.graph ⟨nodes⟩)
  | .ok _ => .error .malformed

end Formula

end ArithDispatch
