import ArithDispatch.Formula.Compile
import Mathlib.Data.List.Nodup
import Mathlib.Data.List.Perm.Basic

/-! The shape of assembled graphs, whatever tokens they come from: operands refer backwards, and
every node but the last is referred to by exactly one operand. -/
namespace ArithDispatch

theorem Operand.mem_references {left right : Operand} {id : Nat} :
    id ∈ [left, right].filterMap Operand.reference? ↔ left = .reference id ∨ right = .reference id := by
  cases left <;> cases right <;> simp [Operand.reference?, eq_comm]

namespace Formula

section Build
variable {text : String} {op : Operator} {rest : List Token} {count : Nat} {stack final : List Operand}
  {nodes : List Node}

/-- A number goes on the stack. -/
theorem build_number (h : build count stack (.number text :: rest) = .ok (final, nodes)) :
    ∃ value, Numeric.readFinite text = some value ∧
      build count (.literal value :: stack) rest = .ok (final, nodes) := by
  simp only [build] at h
  split at h
  · cases h
  · next value hv => exact ⟨value, hv, h⟩

/-- An operator takes two operands from the stack, makes a node of them and leaves a reference to it. -/
theorem build_operator (h : build count stack (.operator op :: rest) = .ok (final, nodes)) :
    ∃ right left below later, stack = right :: left :: below ∧ ¬ (op = .div ∧ right.isZero = true) ∧
      build (count + 1) (.reference count :: below) rest = .ok (final, later) ∧
      nodes = ⟨left, op, right⟩ :: later := by
  simp only [build] at h
  split at h
  · next right left below =>
    split at h
    · cases h
    · next hz =>
      cases hr : build (count + 1) (.reference count :: below) rest with
      | error fault => rw [hr] at h; cases h
      | ok made =>
        rw [hr] at h
        cases h
        exact ⟨right, left, below, made.2, rfl, hz, hr, rfl⟩
  · cases h

end Build

/-- The nodes that the operands of a node refer to. -/
def Node.references (node : Node) : List Nat :=
  [node.left, node.right].filterMap Operand.reference?

theorem Node.mem_references {node : Node} {j : Nat} :
    j ∈ node.references ↔ node.left = .reference j ∨ node.right = .reference j :=
  Operand.mem_references

/-- The operands and the root together name every node exactly once. -/
structure Graph.IsTree (graph : Graph) : Prop where
  backward : ∀ (i : Nat) (node : Node), graph.nodes[i]? = some node → ∀ j ∈ node.references, j < i
  partition : (graph.nodes.flatMap Node.references ++ [graph.root]).Perm (List.range graph.size)

/-- The invariant of `build`: the nodes made so far fall into trees, whose roots are on the stack. -/
structure Forest (made : List Node) (stack : List Operand) : Prop where
  backward : ∀ (i : Nat) (node : Node), made[i]? = some node → ∀ j ∈ node.references, j < i
  partition : (made.flatMap Node.references ++ stack.filterMap Operand.reference?).Perm
    (List.range made.length)

namespace Forest
variable {made nodes : List Node} {stack below final : List Operand} {left right : Operand}

theorem empty : Forest [] [] := ⟨by simp, by simp⟩

theorem literal (h : Forest made stack) (value : Binary64) : Forest made (.literal value :: stack) :=
  ⟨h.backward, h.partition⟩

theorem lt_of_mem_stack (h : Forest made stack) {j : Nat} (hj : .reference j ∈ stack) :
    j < made.length := by
  apply List.mem_range.mp
  apply h.partition.subset
  exact List.mem_append_right _ (List.mem_filterMap.mpr ⟨_, hj, rfl⟩)

theorem operator (node : Node) (h : Forest made (node.right :: node.left :: below)) :
    Forest (made ++ [node]) (.reference made.length :: below) where
  backward i other hi j hj := by
    rcases Nat.lt_or_ge i made.length with hlt | hge
    · rw [List.getElem?_append_left hlt] at hi
      exact h.backward i other hi j hj
    · rw [List.getElem?_append_right hge] at hi
      obtain rfl : other = node := by simpa using List.mem_of_getElem? hi
      have hs : Operand.reference j ∈ other.right :: other.left :: below := by
        rcases Node.mem_references.mp hj with he | he <;> simp [he]
      exact Nat.lt_of_lt_of_le (h.lt_of_mem_stack hs) hge
  partition := by
    have hp : (node.references ++ below.filterMap Operand.reference?).Perm
        ((node.right :: node.left :: below).filterMap Operand.reference?) := by
      rw [Node.references, ← List.filterMap_append]
      exact (List.Perm.swap node.right node.left below).filterMap _
    calc ((made ++ [node]).flatMap Node.references ++
          (Operand.reference made.length :: below).filterMap Operand.reference?)
        = made.flatMap Node.references ++ (node.references ++
            ([made.length] ++ below.filterMap Operand.reference?)) := by
          simp [Operand.reference?]
      List.Perm _ (made.flatMap Node.references ++ (node.references ++
            (below.filterMap Operand.reference? ++ [made.length]))) :=
          (List.perm_append_comm.append_left _).append_left _
      List.Perm _ (made.flatMap Node.references ++
            ((node.right :: node.left :: below).filterMap Operand.reference? ++ [made.length])) := by
          rw [← List.append_assoc node.references]
          exact (hp.append_right _).append_left _
      List.Perm _ (List.range made.length ++ [made.length]) := by
          rw [← List.append_assoc]
          exact h.partition.append_right _
      _ = List.range (made ++ [node]).length := by
          rw [List.length_append, List.length_singleton, List.range_succ]

/-- Evaluation keeps the invariant: every operator joins the two trees on top of the stack. -/
theorem build {tokens : List Token} (h : Forest made stack)
    (hb : build made.length stack tokens = .ok (final, nodes)) : Forest (made ++ nodes) final := by
  induction tokens generalizing made stack nodes with
  | nil =>
    cases hb
    rwa [List.append_nil]
  | cons token rest ih =>
    cases token with
    | number text =>
      obtain ⟨value, _, hrest⟩ := build_number hb
      exact ih (h.literal value) hrest
    | operator op =>
      obtain ⟨right, left, below, later, rfl, _, hrest, rfl⟩ := build_operator hb
      have hf := ih (h.operator ⟨left, op, right⟩) (by rwa [List.length_append, List.length_singleton])
      rwa [List.append_assoc, List.singleton_append] at hf
    | leftParen => cases hb
    | rightParen => cases hb

end Forest

theorem isTree_of_assemble {tokens : List Token} {graph : Graph}
    (h : assemble tokens = .ok (.graph graph)) : graph.IsTree := by
  unfold assemble at h
  split at h
  · cases h
  · cases h
  · next root nodes hb =>
    cases h
    have hf : Forest nodes [.reference root] := Forest.empty.build hb
    have hroot : root < nodes.length := hf.lt_of_mem_stack (List.mem_singleton_self _)
    -- the last node is on the stack, since no node that could refer to it follows
    have hlast : nodes.length - 1 ∈ nodes.flatMap Node.references ++ [root] :=
      hf.partition.symm.subset (List.mem_range.mpr (by omega))
    rcases List.mem_append.mp hlast with hused | hlast
    · obtain ⟨node, hn, hj⟩ := List.mem_flatMap.mp hused
      obtain ⟨i, hi, rfl⟩ := List.mem_iff_getElem.mp hn
      have := hf.backward i _ (List.getElem?_eq_getElem hi) _ hj
      omega
    · obtain rfl := List.mem_singleton.mp hlast
      exact ⟨hf.backward, hf.partition⟩
  · cases h

/-- The nodes made by an evaluation never divide by the number zero. -/
theorem divisible_of_build {tokens : List Token} {count : Nat} {stack final : List Operand}
    {nodes : List Node} (h : build count stack tokens = .ok (final, nodes)) {node : Node}
    (hn : node ∈ nodes) : ¬ (node.operator = .div ∧ node.right.isZero = true) := by
  induction tokens generalizing count stack nodes with
  | nil =>
    cases h
    cases hn
  | cons token rest ih =>
    cases token with
    | number text =>
      obtain ⟨_, _, hrest⟩ := build_number h
      exact ih hrest hn
    | operator op =>
      obtain ⟨right, left, below, later, rfl, hz, hrest, rfl⟩ := build_operator h
      rcases List.mem_cons.mp hn with rfl | hn
      · exact hz
      · exact ih hrest hn
    | leftParen => cases h
    | rightParen => cases h

theorem divisible_of_assemble {tokens : List Token} {graph : Graph}
    (h : assemble tokens = .ok (.graph graph)) {node : Node} (hn : node ∈ graph.nodes) :
    ¬ (node.operator = .div ∧ node.right.isZero = true) := by
  unfold assemble at h
  split at h
  · cases h
  · cases h
  · next root nodes hb =>
    cases h
    exact divisible_of_build hb hn
  · cases h

theorem exists_assemble_of_compile {text : String} {compiled : Compiled}
    (h : compile text = .ok compiled) : ∃ tokens, assemble tokens = .ok compiled := by
  unfold compile at h
  cases hp : reversePolish text with
  | error fault => rw [hp] at h; cases h
  | ok tokens => rw [hp] at h; exact ⟨tokens, h⟩

/-- The graph of `1+2`, which the examples are about together with that of `(1+2)*3`. -/
def sumGraph : Graph := ⟨[⟨.literal .one, .add, .literal .two⟩]⟩

def productGraph : Graph := ⟨[⟨.literal .one, .add, .literal .two⟩, ⟨.reference 0, .mul, .literal .three⟩]⟩

theorem compile_sumGraph : compile "1+2" = .ok (.graph sumGraph) := by decide +kernel

theorem compile_productGraph : compile "(1+2)*3" = .ok (.graph productGraph) := by decide +kernel

theorem isTree_of_compile {text : String} {graph : Graph} (h : compile text = .ok (.graph graph)) :
    graph.IsTree := by
  obtain ⟨tokens, ht⟩ := exists_assemble_of_compile h
  exact isTree_of_assemble ht

namespace Graph.IsTree
variable {graph : Graph} {i k j : Nat} {node other : Node}

theorem root_lt (h : graph.IsTree) : graph.root < graph.size :=
  List.mem_range.mp (h.partition.subset (by simp))

theorem nodup (h : graph.IsTree) : (graph.nodes.flatMap Node.references ++ [graph.root]).Nodup :=
  h.partition.nodup_iff.mpr List.nodup_range

/-- Every node but the root is an operand of another node. -/
theorem exists_user (h : graph.IsTree) (hj : j < graph.root) :
    ∃ (i : Nat) (node : Node), graph.nodes[i]? = some node ∧ j ∈ node.references := by
  have hm : j ∈ graph.nodes.flatMap Node.references ++ [graph.root] :=
    h.partition.symm.subset (List.mem_range.mpr (Nat.lt_trans hj h.root_lt))
  rcases List.mem_append.mp hm with hm | hm
  · obtain ⟨node, hn, hj⟩ := List.mem_flatMap.mp hm
    obtain ⟨i, hi⟩ := List.mem_iff_getElem?.mp hn
    exact ⟨i, node, hi, hj⟩
  · exact absurd (List.mem_singleton.mp hm) (Nat.ne_of_lt hj)

theorem nodup_references (h : graph.IsTree) (hi : graph.nodes[i]? = some node) :
    node.references.Nodup :=
  (List.nodup_flatMap.mp (List.nodup_append.mp h.nodup).1).1 node (List.mem_of_getElem? hi)

/-- No node is an operand of two nodes. -/
theorem user_unique (h : graph.IsTree) (hi : graph.nodes[i]? = some node)
    (hk : graph.nodes[k]? = some other) (hj : j ∈ node.references) (hj' : j ∈ other.references) :
    i = k := by
  have hd := (List.nodup_flatMap.mp (List.nodup_append.mp h.nodup).1).2
  have hap := List.pairwise_iff_getElem.mp hd
  obtain ⟨hil, rfl⟩ := List.getElem?_eq_some_iff.mp hi
  obtain ⟨hkl, rfl⟩ := List.getElem?_eq_some_iff.mp hk
  rcases Nat.lt_trichotomy i k with hlt | heq | hgt
  · exact absurd hj' (hap i k hil hkl hlt hj)
  · exact heq
  · exact absurd hj (hap k i hkl hil hgt hj')

end Graph.IsTree

end Formula

end ArithDispatch
