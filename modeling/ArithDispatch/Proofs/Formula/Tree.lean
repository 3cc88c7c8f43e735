import ArithDispatch.Formula.Graph

/-! Formulas as trees. Evaluating the post-order listing of a tree makes one node for each of its
operations, unless some division has a zero on its right. -/
namespace ArithDispatch.Formula

/-- A text that reads as a number. -/
structure Numeral where
  text : String
  value : Binary64
  reads : Numeric.readFinite text = some value

inductive Tree where
  | leaf (number : Numeral)
  | node (op : Operator) (left right : Tree)

namespace Tree
variable {count : Nat} {stack : List Operand} {tree : Tree}

/-- The tokens of the tree, every operator directly after its operands. -/
def listing : Tree → List Token
  | leaf number => [.number number.text]
  | node op left right => left.listing ++ (right.listing ++ [.operator op])

/-- How many operations there are. -/
def size : Tree → Nat
  | leaf _ => 0
  | node _ left right => left.size + right.size + 1

/-- What stands for the tree once its nodes are numbered from `base` on: its number or its last node. -/
def slot (base : Nat) : Tree → Operand
  | leaf number => .literal number.value
  | node _ left right => .reference (base + left.size + right.size)

/-- The operations in post-order, numbered from `base` on. -/
def nodes (base : Nat) : Tree → List Node
  | leaf _ => []
  | node op left right => left.nodes base ++ (right.nodes (base + left.size) ++
      [⟨left.slot base, op, right.slot (base + left.size)⟩])

/-- The tree is a single number, a zero of either sign. -/
def isZero : Tree → Bool
  | leaf number => number.value.isZero
  | node _ _ _ => false

/-- Some division has the number zero on its right. -/
def dividesByZero : Tree → Bool
  | leaf _ => false
  | node op left right => left.dividesByZero || right.dividesByZero || (op == .div && right.isZero)

@[simp] theorem isZero_slot (base : Nat) (tree : Tree) : (tree.slot base).isZero = tree.isZero := by
  cases tree <;> rfl

theorem length_nodes (base : Nat) (tree : Tree) : (tree.nodes base).length = tree.size := by
  induction tree generalizing base with
  | leaf number => rfl
  | node op left right ihl ihr =>
    rw [nodes, List.length_append, List.length_append, ihl, ihr, List.length_singleton, size, Nat.add_assoc]

theorem dividesByZero_node {op : Operator} {left right : Tree}
    (h : (node op left right).dividesByZero = false) :
    left.dividesByZero = false ∧ right.dividesByZero = false ∧ ¬ (op = .div ∧ right.isZero = true) := by
  simpa [dividesByZero, and_assoc] using h

/-- A listing puts what stands for its tree on the stack and makes the nodes of the tree. -/
theorem build_listing (h : tree.dividesByZero = false) (count : Nat) (stack : List Operand)
    (rest : List Token) : build count stack (tree.listing ++ rest) =
      (build (count + tree.size) (tree.slot count :: stack) rest).map fun made =>
        (made.1, tree.nodes count ++ made.2) := by
  induction tree generalizing count stack rest with
  | leaf number =>
    have hread : build count stack (.number number.text :: rest) =
        build count (.literal number.value :: stack) rest := by
      rw [build, number.reads]
    refine hread.trans ?_
    rw [size, Nat.add_zero, slot]
    cases build count (.literal number.value :: stack) rest <;> rfl
  | node op left right ihl ihr =>
    obtain ⟨hl, hr, hz⟩ := dividesByZero_node h
    have hjoin : build (count + left.size + right.size)
          (right.slot (count + left.size) :: left.slot count :: stack) (.operator op :: rest) =
        (build (count + left.size + right.size + 1)
          (.reference (count + left.size + right.size) :: stack) rest).map fun made =>
            (made.1, ⟨left.slot count, op, right.slot (count + left.size)⟩ :: made.2) := by
      rw [build, if_neg (by rwa [isZero_slot])]
    rw [listing, List.append_assoc, List.append_assoc, ihl hl, ihr hr, List.singleton_append, hjoin, slot,
      size, show count + (left.size + right.size + 1) = count + left.size + right.size + 1 by omega]
    cases build (count + left.size + right.size + 1)
        (.reference (count + left.size + right.size) :: stack) rest with
    | error fault => rfl
    | ok made => simp [Except.map, nodes]

/-- The first division by the number zero ends the evaluation. -/
theorem build_listing_of_dividesByZero (h : tree.dividesByZero = true) (count : Nat)
    (stack : List Operand) (rest : List Token) :
    build count stack (tree.listing ++ rest) = .error .divisionByZero := by
  induction tree generalizing count stack rest with
  | leaf number => cases h
  | node op left right ihl ihr =>
    rw [listing, List.append_assoc, List.append_assoc]
    cases hl : left.dividesByZero with
    | true => exact ihl hl count stack _
    | false =>
      rw [build_listing hl]
      cases hr : right.dividesByZero with
      | true =>
        rw [ihr hr]
        rfl
      | false =>
        have hz : op = .div ∧ right.isZero = true := by simpa [dividesByZero, hl, hr] using h
        rw [build_listing hr, List.singleton_append, build, if_pos (by rwa [isZero_slot])]
        rfl

/-- What a tree amounts to when it does not divide by zero. -/
def compiled : Tree → Compiled
  | leaf number => .literal number.value
  | node op left right => .graph ⟨(node op left right).nodes 0⟩

theorem assemble_listing (h : tree.dividesByZero = false) : assemble tree.listing = .ok tree.compiled := by
  have hb := build_listing h 0 [] []
  rw [List.append_nil] at hb
  rw [assemble, hb]
  cases tree with
  | leaf number => rfl
  | node op left right => simp [build, Except.map, slot, compiled]

theorem assemble_listing_of_dividesByZero (h : tree.dividesByZero = true) :
    assemble tree.listing = .error .divisionByZero := by
  have hb := build_listing_of_dividesByZero h 0 [] []
  rw [List.append_nil] at hb
  rw [assemble, hb]

end Tree

end ArithDispatch.Formula
