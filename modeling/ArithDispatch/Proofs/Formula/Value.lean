import ArithDispatch.Proofs.Formula.Shape
import ArithDispatch.Scheduler.Worker

/-! What a graph is worth when every operation is computed by one given function. A node is worth
nothing when it divides by zero, or when one of its operands is worth nothing. -/
namespace ArithDispatch
open Scheduler (Work)

/-- The value of an operand, given those of the nodes. -/
def Operand.value? (known : List (Option Binary64)) : Operand → Option Binary64
  | literal value => some value
  | reference index => known[index]?.join

namespace Formula

def Node.value? (work : Work) (operand : Operand → Option Binary64) (node : Node) : Option Binary64 := do
  let left ← operand node.left
  let right ← operand node.right
  if node.operator = .div ∧ right.isZero then none else some (work node.operator left right)

/-- Appends the value of a node to those of the nodes before it. -/
def Node.appendValue (work : Work) (known : List (Option Binary64)) (node : Node) :
    List (Option Binary64) :=
  known ++ [node.value? work (Operand.value? known)]

/-- The value of an operand, where a node is worth what `work` makes of the values of its operands. -/
def Graph.value? (work : Work) (graph : Graph) (operand : Operand) : Option Binary64 :=
  operand.value? (graph.nodes.foldl (Node.appendValue work) [])

/-- Some node divides a number by a zero of either sign. -/
def Graph.DividesByZero (work : Work) (graph : Graph) : Prop :=
  ∃ node ∈ graph.nodes, node.operator = .div ∧ ∃ left right, graph.value? work node.left = some left ∧
    graph.value? work node.right = some right ∧ right.isZero = true

def Compiled.value? (work : Work) : Compiled → Option Binary64
  | literal value => some value
  | graph g => g.value? work (.reference g.root)

variable {work : Work} {graph : Graph} {node : Node} {i : Nat} {value : Binary64}

theorem Node.value?_eq_some {operand : Operand → Option Binary64} :
    node.value? work operand = some value ↔ ∃ left right, operand node.left = some left ∧
      operand node.right = some right ∧ ¬ (node.operator = .div ∧ right.isZero = true) ∧
      work node.operator left right = value := by
  simp only [Node.value?, Option.bind_eq_bind, Option.bind_eq_some_iff]
  constructor
  · rintro ⟨left, hl, right, hr, hv⟩
    split at hv
    · cases hv
    · next hz => exact ⟨left, right, hl, hr, hz, Option.some.inj hv⟩
  · rintro ⟨left, right, hl, hr, hz, rfl⟩
    exact ⟨left, hl, right, hr, if_neg hz⟩

private theorem getElem?_foldl_of_lt (nodes : List Node) {known : List (Option Binary64)}
    (h : i < known.length) : (nodes.foldl (Node.appendValue work) known)[i]? = known[i]? := by
  induction nodes generalizing known with
  | nil => rfl
  | cons node rest ih =>
    have hlen : i < (node.appendValue work known).length := by
      rw [Node.appendValue, List.length_append]
      omega
    rw [List.foldl_cons, ih hlen, Node.appendValue, List.getElem?_append_left h]

/-- Values are never changed once they are known. -/
private theorem value?_foldl (nodes : List Node) {known : List (Option Binary64)} {operand : Operand}
    (h : ∀ j, operand = .reference j → j < known.length) :
    operand.value? (nodes.foldl (Node.appendValue work) known) = operand.value? known := by
  cases operand with
  | literal value => rfl
  | reference index => rw [Operand.value?, getElem?_foldl_of_lt nodes (h index rfl), Operand.value?]

private theorem getElem?_foldl_add {nodes : List Node} {known : List (Option Binary64)}
    (hi : nodes[i]? = some node) (hb : ∀ j ∈ node.references, j < known.length + i) :
    (nodes.foldl (Node.appendValue work) known)[known.length + i]? =
      some (node.value? work (Operand.value? (nodes.foldl (Node.appendValue work) known))) := by
  induction nodes generalizing known i with
  | nil => simp at hi
  | cons first rest ih =>
    have hlen : (first.appendValue work known).length = known.length + 1 := by
      rw [Node.appendValue, List.length_append, List.length_singleton]
    rw [List.foldl_cons]
    cases i with
    | zero =>
      obtain rfl : first = node := by simpa using hi
      have known_of : ∀ operand, first.left = operand ∨ first.right = operand →
          operand.value? (rest.foldl (Node.appendValue work) (first.appendValue work known)) =
            operand.value? known := by
        intro operand hm
        have hlt : ∀ j, operand = .reference j → j < known.length := by
          rintro j rfl
          exact hb j (Node.mem_references.mpr hm)
        rw [value?_foldl rest fun j hj => by rw [hlen]; exact Nat.lt_succ_of_lt (hlt j hj)]
        exact value?_foldl [first] hlt
      rw [getElem?_foldl_of_lt rest (by omega), Node.value?, known_of first.left (.inl rfl),
        known_of first.right (.inr rfl), Nat.add_zero]
      exact List.getElem?_concat_length
    | succ i =>
      have hshift : known.length + (i + 1) = (first.appendValue work known).length + i := by omega
      rw [hshift]
      exact ih (by simpa using hi) fun j hj => hshift ▸ hb j hj

namespace Graph.IsTree

/-- A node is worth what the given function makes of its operands. -/
theorem value?_reference (h : graph.IsTree) (hi : graph.nodes[i]? = some node) :
    graph.value? work (.reference i) = node.value? work (graph.value? work) := by
  have hv := @getElem?_foldl_add work node i graph.nodes [] hi fun j hj => by
    have := h.backward i node hi j hj
    simpa using this
  rw [List.length_nil, Nat.zero_add] at hv
  rw [Graph.value?, Operand.value?, hv]
  rfl

/-- A root that is worth a number has every node worth one. -/
theorem exists_value (h : graph.IsTree) (hr : graph.value? work (.reference graph.root) = some value)
    (hi : i < graph.size) : ∃ value, graph.value? work (.reference i) = some value := by
  -- from the root downwards: each other node is an operand of a node behind it
  induction hk : graph.root - i using Nat.strongRecOn generalizing i with
  | ind k ih =>
    by_cases he : i = graph.root
    · exact ⟨value, he ▸ hr⟩
    · have hroot : graph.root = graph.size - 1 := rfl
      obtain ⟨user, reader, hu, hm⟩ := h.exists_user (j := i) (by omega)
      have hlt := h.backward user reader hu i hm
      have hsize : user < graph.size := (List.getElem?_eq_some_iff.mp hu).1
      obtain ⟨above, hv⟩ := ih (graph.root - user) (by omega) hsize rfl
      rw [h.value?_reference hu, Node.value?_eq_some] at hv
      obtain ⟨left, right, hl, hright, _⟩ := hv
      rcases Node.mem_references.mp hm with ho | ho
      · exact ⟨left, ho ▸ hl⟩
      · exact ⟨right, ho ▸ hright⟩

theorem operands_of_root (h : graph.IsTree)
    (hr : graph.value? work (.reference graph.root) = some value) (hm : node ∈ graph.nodes) :
    ∃ left right, graph.value? work node.left = some left ∧ graph.value? work node.right = some right ∧
      ¬ (node.operator = .div ∧ right.isZero = true) := by
  obtain ⟨i, hi⟩ := List.mem_iff_getElem?.mp hm
  obtain ⟨_, hv⟩ := h.exists_value hr (List.getElem?_eq_some_iff.mp hi).1
  rw [h.value?_reference hi, Node.value?_eq_some] at hv
  obtain ⟨left, right, hl, hright, hz, _⟩ := hv
  exact ⟨left, right, hl, hright, hz⟩

/-- A graph whose root is worth a number divides nowhere by zero. -/
theorem not_dividesByZero (h : graph.IsTree)
    (hr : graph.value? work (.reference graph.root) = some value) : ¬ graph.DividesByZero work := by
  rintro ⟨node, hm, hop, left, right, _, hright, hz⟩
  obtain ⟨_, other, _, hother, hno⟩ := h.operands_of_root hr hm
  cases hright.symm.trans hother
  exact hno ⟨hop, hz⟩

end Graph.IsTree

end Formula

end ArithDispatch
