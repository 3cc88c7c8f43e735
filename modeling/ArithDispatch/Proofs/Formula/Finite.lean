import ArithDispatch.Proofs.Formula.Shape

/-! The numbers of a formula are finite. A text of digits may be too long for that, and is no number then. -/
namespace ArithDispatch

/-- The operand is no number that is not finite. -/
def Operand.IsFinite (operand : Operand) : Prop := ∀ value, operand = .literal value → value.isFinite = true

theorem Operand.IsFinite.shift {operand : Operand} (h : operand.IsFinite) (base : Nat) :
    (operand.shift base).IsFinite := by
  cases operand with
  | literal value => exact h
  | reference index => exact nofun

theorem Numeric.isFinite_of_readFinite {text : String} {value : Binary64}
    (h : readFinite text = some value) : value.isFinite = true :=
  (Option.filter_eq_some_iff.mp h).2

namespace Formula

def Node.IsFinite (node : Node) : Prop := node.left.IsFinite ∧ node.right.IsFinite

def Compiled.IsFinite : Compiled → Prop
  | literal value => value.isFinite = true
  | graph g => ∀ node ∈ g.nodes, node.IsFinite

/-- Evaluation puts numbers on the stack that were read as finite ones, and makes nodes of what is on it. -/
theorem isFinite_of_build {tokens : List Token} {count : Nat} {stack final : List Operand} {nodes : List Node}
    (h : build count stack tokens = .ok (final, nodes)) (hs : ∀ operand ∈ stack, operand.IsFinite) :
    (∀ operand ∈ final, operand.IsFinite) ∧ ∀ node ∈ nodes, node.IsFinite := by
  induction tokens generalizing count stack nodes with
  | nil =>
    cases h
    exact ⟨hs, nofun⟩
  | cons token rest ih =>
    cases token with
    | number text =>
      obtain ⟨value, hv, hrest⟩ := build_number h
      refine ih hrest (List.forall_mem_cons.mpr ⟨?_, hs⟩)
      rintro _ ⟨⟩
      exact Numeric.isFinite_of_readFinite hv
    | operator op =>
      obtain ⟨right, left, below, later, rfl, _, hrest, rfl⟩ := build_operator h
      obtain ⟨hr, hs⟩ := List.forall_mem_cons.mp hs
      obtain ⟨hl, hs⟩ := List.forall_mem_cons.mp hs
      obtain ⟨hfinal, hlater⟩ := ih hrest (List.forall_mem_cons.mpr ⟨nofun, hs⟩)
      exact ⟨hfinal, List.forall_mem_cons.mpr ⟨⟨hl, hr⟩, hlater⟩⟩
    | leftParen => cases h
    | rightParen => cases h

theorem isFinite_of_compile {text : String} {compiled : Compiled} (h : compile text = .ok compiled) :
    compiled.IsFinite := by
  obtain ⟨tokens, ha⟩ := exists_assemble_of_compile h
  unfold assemble at ha
  split at ha
  · cases ha
  · next hb =>
    cases ha
    exact (isFinite_of_build hb nofun).1 _ (List.mem_singleton_self _) _ rfl
  · next hb =>
    cases ha
    exact (isFinite_of_build hb nofun).2
  · cases ha

end Formula

end ArithDispatch
