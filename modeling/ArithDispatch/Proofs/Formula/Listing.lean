import ArithDispatch.Proofs.Formula.Shape
import ArithDispatch.Proofs.Formula.Tree
import Mathlib.Logic.Relation

/-! Which token lists can be put together: the post-order listings of trees that divide nowhere by the
number zero, and no others. The graph of such a list shows every operator with its operands, and reading it
in post-order from its root gives the list back. -/
namespace ArithDispatch.Formula
open Relation

/-- What is left of a token once its number is read. -/
inductive Symbol where
  | number (value : Binary64)
  | operator (op : Operator)
  deriving DecidableEq, Repr

namespace Token

def symbol? : Token → Option Symbol
  | number text => (Numeric.readFinite text).map .number
  | operator op => some (.operator op)
  | leftParen | rightParen => none

def operator? : Token → Option Operator
  | operator op => some op
  | number _ | leftParen | rightParen => none

end Token

/-- The operators of a token list, in its order. -/
def operatorsOf (tokens : List Token) : List Operator := tokens.filterMap Token.operator?

/-- The node `i` has the node `j` as an operand. -/
def Graph.Refers (graph : Graph) (i j : Nat) : Prop :=
  ∃ node, graph.nodes[i]? = some node ∧ j ∈ node.references

/-- The graph read in post-order from an operand on: both operands of a node, then its operator. -/
inductive Graph.Reads (graph : Graph) : Operand → List Symbol → Prop
  | literal (value : Binary64) : Reads graph (.literal value) [.number value]
  | reference {i : Nat} {node : Node} {before after : List Symbol} : graph.nodes[i]? = some node →
      Reads graph node.left before → Reads graph node.right after →
      Reads graph (.reference i) (before ++ (after ++ [.operator node.operator]))

theorem Graph.Reads.unique {graph : Graph} {operand : Operand} {symbols others : List Symbol}
    (h : graph.Reads operand symbols) (h' : graph.Reads operand others) : symbols = others := by
  induction h generalizing others with
  | literal value =>
    cases h' with
    | literal => rfl
  | reference hi _ _ ihl ihr =>
    cases h' with
    | reference hi' hl hr =>
      cases hi.symm.trans hi'
      rw [ihl hl, ihr hr]

namespace Tree

/-- The post-order listing with the numbers read. -/
def symbols : Tree → List Symbol
  | leaf number => [.number number.value]
  | node op left right => left.symbols ++ (right.symbols ++ [.operator op])

theorem map_symbol?_listing (tree : Tree) : tree.listing.map Token.symbol? = tree.symbols.map some := by
  induction tree with
  | leaf number =>
    simp only [listing, symbols, List.map_cons, List.map_nil, Token.symbol?, number.reads, Option.map_some]
  | node op left right ihl ihr =>
    simp only [listing, symbols, List.map_append, List.map_cons, List.map_nil, ihl, ihr, Token.symbol?]

theorem operators_nodes (base : Nat) (tree : Tree) :
    (tree.nodes base).map Node.operator = operatorsOf tree.listing := by
  induction tree generalizing base with
  | leaf number => rfl
  | node op left right ihl ihr =>
    rw [operatorsOf, listing, List.filterMap_append, List.filterMap_append, nodes, List.map_append,
      List.map_append, ihl, ihr]
    rfl

theorem length_operatorsOf (tree : Tree) : (operatorsOf tree.listing).length = tree.size := by
  rw [← operators_nodes 0, List.length_map, length_nodes]

/-- A node of a tree stands where its operator stands in the listing, behind the listings of its
operands. -/
theorem exists_children {tree : Tree} {base i : Nat} {node : Node} (h : (tree.nodes base)[i]? = some node) :
    ∃ before left right after,
      tree.listing = before ++ ((Tree.node node.operator left right).listing ++ after) ∧
      i = (operatorsOf before).length + left.size + right.size ∧
      node.left = left.slot (base + (operatorsOf before).length) ∧
      node.right = right.slot (base + (operatorsOf before).length + left.size) := by
  induction tree generalizing base i with
  | leaf number => simp [nodes] at h
  | node op left right ihl ihr =>
    rw [nodes] at h
    rcases Nat.lt_or_ge i left.size with hlt | hge
    · rw [List.getElem?_append_left (by rwa [length_nodes])] at h
      obtain ⟨before, l, r, after, he, hi, hl, hr⟩ := ihl h
      refine ⟨before, l, r, after ++ (right.listing ++ [.operator op]), ?_, hi, hl, hr⟩
      rw [listing, he]
      simp only [List.append_assoc]
    · obtain ⟨k, rfl⟩ := Nat.exists_eq_add_of_le hge
      rw [List.getElem?_append_right (by rwa [length_nodes]), length_nodes, Nat.add_sub_cancel_left] at h
      rcases Nat.lt_or_ge k right.size with hlt | hge
      · rw [List.getElem?_append_left (by rwa [length_nodes])] at h
        obtain ⟨before, l, r, after, he, hi, hl, hr⟩ := ihr h
        have hops : (operatorsOf (left.listing ++ before)).length =
            left.size + (operatorsOf before).length := by
          rw [operatorsOf, List.filterMap_append, List.length_append, ← operatorsOf, length_operatorsOf]
          rfl
        refine ⟨left.listing ++ before, l, r, after ++ [.operator op], ?_, ?_, ?_, ?_⟩
        · rw [listing, he]
          simp only [List.append_assoc]
        · rw [hops]
          omega
        · rw [hops, hl, Nat.add_assoc]
        · rw [hops, hr, Nat.add_assoc base]
      · rw [List.getElem?_append_right (by rwa [length_nodes]), length_nodes] at h
        have hlast : k - right.size < 1 := (List.getElem?_eq_some_iff.mp h).1
        obtain rfl : k = right.size := by omega
        rw [Nat.sub_self] at h
        cases h
        exact ⟨[], left, right, [], (List.append_nil _).symm, (Nat.zero_add _).symm ▸ rfl, rfl, rfl⟩

/-- Where a graph has the nodes of a tree, reading it from what stands for the tree gives the symbols of the
tree. -/
theorem reads_slot {graph : Graph} {tree : Tree} {base : Nat}
    (h : ∀ i node, (tree.nodes base)[i]? = some node → graph.nodes[base + i]? = some node) :
    graph.Reads (tree.slot base) tree.symbols := by
  induction tree generalizing base with
  | leaf number => exact .literal number.value
  | node op left right ihl ihr =>
    have hlen : (left.nodes base).length = left.size := length_nodes base left
    have hlen' : (right.nodes (base + left.size)).length = right.size := length_nodes _ right
    have hleft : graph.Reads (left.slot base) left.symbols := by
      apply ihl
      intro i node hi
      apply h
      rw [nodes, List.getElem?_append_left (List.getElem?_eq_some_iff.mp hi).1, hi]
    have hright : graph.Reads (right.slot (base + left.size)) right.symbols := by
      apply ihr
      intro i node hi
      rw [Nat.add_assoc]
      apply h
      rw [nodes, List.getElem?_append_right (by omega), hlen, Nat.add_sub_cancel_left,
        List.getElem?_append_left (List.getElem?_eq_some_iff.mp hi).1, hi]
    have hroot : graph.nodes[base + left.size + right.size]? =
        some ⟨left.slot base, op, right.slot (base + left.size)⟩ := by
      rw [Nat.add_assoc]
      apply h
      rw [nodes, List.getElem?_append_right (by omega), hlen, Nat.add_sub_cancel_left,
        List.getElem?_append_right (by omega), hlen', Nat.sub_self]
      rfl
    exact .reference hroot hleft hright

end Tree

/-- The stack of an evaluation that has read the listings of these trees, the latest first. -/
def Stacked (stack : List Operand) (trees : List Tree) : Prop :=
  List.Forall₂ (fun operand tree => operand.isZero = tree.isZero ∧ tree.dividesByZero = false) stack trees

/-- Evaluation reads the listings of trees: a number starts one, and an operator joins the two latest. -/
theorem exists_trees_of_build {tokens : List Token} {count : Nat} {stack final : List Operand}
    {nodes : List Node} {trees : List Tree} (hs : Stacked stack trees)
    (hb : build count stack tokens = .ok (final, nodes)) :
    ∃ read, Stacked final read ∧
      read.reverse.flatMap Tree.listing = trees.reverse.flatMap Tree.listing ++ tokens := by
  induction tokens generalizing count stack nodes trees with
  | nil =>
    cases hb
    exact ⟨trees, hs, (List.append_nil _).symm⟩
  | cons token rest ih =>
    cases token with
    | number text =>
      obtain ⟨value, hv, hrest⟩ := build_number hb
      obtain ⟨read, hread, he⟩ := ih (.cons (b := .leaf ⟨text, value, hv⟩) ⟨rfl, rfl⟩ hs) hrest
      refine ⟨read, hread, ?_⟩
      rw [he]
      simp [Tree.listing]
    | operator op =>
      obtain ⟨_, _, _, _, rfl, hz, hrest, _⟩ := build_operator hb
      cases hs with
      | @cons _ right _ _ hr hs =>
        cases hs with
        | @cons _ left _ below hl hs =>
          have hjoin : (Tree.node op left right).dividesByZero = false := by
            rw [hr.1] at hz
            simpa [Tree.dividesByZero, hl.2, hr.2] using hz
          obtain ⟨read, hread, he⟩ := ih (.cons (b := .node op left right) ⟨rfl, hjoin⟩ hs) hrest
          refine ⟨read, hread, ?_⟩
          rw [he]
          simp [Tree.listing]
    | leftParen => cases hb
    | rightParen => cases hb

theorem exists_listing_of_assemble {tokens : List Token} {compiled : Compiled}
    (h : assemble tokens = .ok compiled) :
    ∃ tree : Tree, tree.listing = tokens ∧ tree.dividesByZero = false := by
  have single {operand : Operand} {nodes : List Node} (hb : build 0 [] tokens = .ok ([operand], nodes)) :
      ∃ tree : Tree, tree.listing = tokens ∧ tree.dividesByZero = false := by
    obtain ⟨read, hread, he⟩ := exists_trees_of_build .nil hb
    cases hread with
    | @cons _ tree _ _ ht hnil =>
      cases hnil
      exact ⟨tree, by simpa using he, ht.2⟩
  unfold assemble at h
  split at h
  · cases h
  · next hb => exact single hb
  · next hb => exact single hb
  · cases h

namespace Graph.IsTree
variable {graph : Graph} {i j : Nat}

/-- Every node is reached from the root. -/
theorem reachable (h : graph.IsTree) (hi : i < graph.size) : ReflTransGen graph.Refers graph.root i := by
  -- from the root downwards: each other node is an operand of a node behind it
  induction hk : graph.root - i using Nat.strongRecOn generalizing i with
  | ind k ih =>
    by_cases he : i = graph.root
    · rw [he]
    · have hroot : graph.root = graph.size - 1 := rfl
      obtain ⟨user, reader, hu, hm⟩ := h.exists_user (j := i) (by omega)
      have hlt := h.backward user reader hu i hm
      have hsize : user < graph.size := (List.getElem?_eq_some_iff.mp hu).1
      exact (ih (graph.root - user) (by omega) hsize rfl).tail ⟨reader, hu, hm⟩

/-- Every node but the root stands in one operand of one node. -/
theorem count_references (h : graph.IsTree) (hj : j < graph.root) :
    (graph.nodes.flatMap Node.references).count j = 1 := by
  have hcount := h.partition.count_eq j
  rw [List.count_append, List.count_eq_zero_of_not_mem (a := j) (l := [graph.root])
    (by simpa using Nat.ne_of_lt hj), Nat.add_zero] at hcount
  rw [hcount]
  exact List.count_eq_one_of_mem List.nodup_range (List.mem_range.mpr (Nat.lt_trans hj h.root_lt))

end Graph.IsTree

/-- The graph shows the token list: a node for each operator token, with what the list has in front of it as
operands, put together to one tree under the last node. -/
structure Graph.Depicts (graph : Graph) (tokens : List Token) : Prop where
  operators : graph.nodes.map Node.operator = operatorsOf tokens
  children : ∀ i node, graph.nodes[i]? = some node → ∃ before left right after,
    tokens = before ++ ((Tree.node node.operator left right).listing ++ after) ∧
    i = (operatorsOf before).length + left.size + right.size ∧
    node.left = left.slot (operatorsOf before).length ∧
    node.right = right.slot ((operatorsOf before).length + left.size)
  backward : ∀ (i : Nat) (node : Node), graph.nodes[i]? = some node → ∀ j ∈ node.references, j < i
  referred_once : ∀ j < graph.root, (graph.nodes.flatMap Node.references).count j = 1
  root_not_referred : graph.root ∉ graph.nodes.flatMap Node.references
  root_last : graph.root + 1 = graph.size
  reachable : ∀ i < graph.size, ReflTransGen graph.Refers graph.root i
  reads : ∀ symbols, graph.Reads (.reference graph.root) symbols ↔
    tokens.map Token.symbol? = symbols.map some

theorem depicts_of_assemble {tree : Tree} {graph : Graph} (hz : tree.dividesByZero = false)
    (h : assemble tree.listing = .ok (.graph graph)) : graph.Depicts tree.listing := by
  have htree := isTree_of_assemble h
  have hgraph := (Tree.assemble_listing hz).symm.trans h
  cases tree with
  | leaf number => cases hgraph
  | node op left right =>
    obtain rfl : ⟨(Tree.node op left right).nodes 0⟩ = graph := Compiled.graph.inj (Except.ok.inj hgraph)
    have hlast : (Tree.node op left right).slot 0 =
        .reference (Graph.root ⟨(Tree.node op left right).nodes 0⟩) := by
      rw [Graph.root, Graph.size, Tree.length_nodes, Tree.size, Nat.add_sub_cancel, Tree.slot, Nat.zero_add]
    have hreads : Graph.Reads ⟨(Tree.node op left right).nodes 0⟩ ((Tree.node op left right).slot 0)
        (Tree.node op left right).symbols :=
      Tree.reads_slot fun i node hi => by rwa [Nat.zero_add]
    rw [hlast] at hreads
    exact {
      operators := Tree.operators_nodes 0 _
      children := by
        intro i node hi
        obtain ⟨before, l, r, after, he, hplace, hl, hr⟩ := Tree.exists_children hi
        rw [Nat.zero_add] at hl hr
        exact ⟨before, l, r, after, he, hplace, hl, hr⟩
      backward := htree.backward
      referred_once := fun j hj => htree.count_references hj
      root_not_referred := fun hm => (List.nodup_append.mp htree.nodup).2.2 _ hm _ (List.mem_singleton_self _) rfl
      root_last := Nat.sub_add_cancel (Nat.lt_of_le_of_lt (Nat.zero_le _) htree.root_lt)
      reachable := fun i hi => htree.reachable hi
      reads := by
        intro symbols
        rw [Tree.map_symbol?_listing]
        constructor
        · intro h
          rw [hreads.unique h]
        · intro h
          obtain rfl := (List.map_inj_right fun _ _ => Option.some.inj).mp h
          exact hreads }

/-- Exactly the post-order listings of trees without a division by the number zero can be put together. A
single number gives that number, and every other list a graph that shows it. -/
theorem assemble_ok_iff_listing (tokens : List Token) :
    ((∃ compiled, assemble tokens = .ok compiled) ↔
      ∃ tree : Tree, tree.listing = tokens ∧ tree.dividesByZero = false) ∧
    ∀ tree : Tree, tree.listing = tokens → tree.dividesByZero = false →
      (∀ value, assemble tokens = .ok (.literal value) ↔ ∃ number, tree = .leaf number ∧ number.value = value) ∧
      ((∃ graph, assemble tokens = .ok (.graph graph)) ↔ ∃ op left right, tree = .node op left right) ∧
      ∀ graph, assemble tokens = .ok (.graph graph) → graph.Depicts tokens := by
  refine ⟨⟨?_, ?_⟩, ?_⟩
  · rintro ⟨compiled, h⟩
    exact exists_listing_of_assemble h
  · rintro ⟨tree, rfl, hz⟩
    exact ⟨_, Tree.assemble_listing hz⟩
  · rintro tree rfl hz
    refine ⟨?_, ?_, fun graph h => depicts_of_assemble hz h⟩
    · intro value
      rw [Tree.assemble_listing hz]
      cases tree <;> simp [Tree.compiled]
    · rw [Tree.assemble_listing hz]
      cases tree <;> simp [Tree.compiled]

/-- The divisor is the difference of two fours: no number that is zero, although it is worth zero. -/
theorem five_over_difference_depicted :
    let four : Numeral := ⟨"4", ⟨0x4010000000000000⟩, by decide +kernel⟩
    let five : Numeral := ⟨"5", ⟨0x4014000000000000⟩, by decide +kernel⟩
    let tree : Tree := .node .div (.leaf five) (.node .sub (.leaf four) (.leaf four))
    let tokens : List Token := [.number "5", .number "4", .number "4", .operator .sub, .operator .div]
    let graph : Graph := ⟨[⟨.literal four.value, .sub, .literal four.value⟩,
      ⟨.literal five.value, .div, .reference 0⟩]⟩
    tree.listing = tokens ∧ tree.dividesByZero = false ∧ assemble tokens = .ok (.graph graph) ∧
      graph.Depicts tokens := by
  intro four five tree tokens graph
  have hgraph : assemble tokens = .ok (.graph graph) := by decide +kernel
  exact ⟨rfl, rfl, hgraph, ((assemble_ok_iff_listing tokens).2 tree rfl rfl).2.2 graph hgraph⟩

end ArithDispatch.Formula
