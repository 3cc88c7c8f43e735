import ArithDispatch.Proofs.Expression.Registry
import ArithDispatch.Proofs.Formula.Value

/-! What recorded expressions were compiled from: where the tasks of a graph begin, and whether the
stage of an expression agrees with the value of its formula. -/
namespace ArithDispatch
open Scheduler (Work)

/-- The stage that an expression has come to agrees with the value of its formula. -/
def Formula.Compiled.Explains (work : Work) (compiled : Compiled) : Stage → Prop
  | .pending | .calculating => True
  | .done value => compiled.value? work = some value
  | .invalid _ => ∃ graph, compiled = .graph graph ∧ graph.DividesByZero work

namespace Registry
variable {work : Work} {registry : Registry} {id owner : String} {record : ExpressionRecord}
  {stage : Stage} {graph other : Formula.Graph} {base start : Nat}

/-- The expression is a graph whose first node became task `base`. -/
def Placed (registry : Registry) (owner : String) (graph : Formula.Graph) (base : Nat) : Prop :=
  ∃ record, registry.find? owner = some record ∧ Formula.compile record.source = .ok (.graph graph) ∧
    record.rootTask = some (base + graph.root)

theorem Placed.unique (h : registry.Placed owner graph base) (ho : registry.Placed owner other start) :
    graph = other ∧ base = start := by
  obtain ⟨record, hf, hc, hr⟩ := h
  obtain ⟨found, hf', hc', hr'⟩ := ho
  cases hf.symm.trans hf'
  cases hc.symm.trans hc'
  exact ⟨rfl, Nat.add_right_cancel (Option.some.inj (hr.symm.trans hr'))⟩

theorem Placed.isTree (h : registry.Placed owner graph base) : graph.IsTree := by
  obtain ⟨_, _, hc, _⟩ := h
  exact Formula.isTree_of_compile hc

theorem Placed.moveTo (h : registry.Placed owner graph base) (id : String) (stage : Stage) :
    (registry.moveTo id stage).2.Placed owner graph base := by
  obtain ⟨record, hf, hc, hr⟩ := h
  rw [Placed, find?_moveTo]
  split
  · exact ⟨{ record with stage }, by rw [hf]; rfl, hc, hr⟩
  · exact ⟨record, hf, hc, hr⟩

theorem Placed.markCalculating (h : registry.Placed owner graph base) (id : String) :
    (registry.markCalculating id).2.Placed owner graph base := by
  unfold Registry.markCalculating
  split
  · exact h
  · exact h.moveTo id .calculating

theorem Placed.insert (h : registry.Placed owner graph base) {after : Registry}
    (hnew : registry.find? id = none)
    (hf : ∀ other, after.find? other = if other = id then some record else registry.find? other) :
    after.Placed owner graph base := by
  obtain ⟨found, hfound, hc, hr⟩ := h
  refine ⟨found, ?_, hc, hr⟩
  rw [hf, if_neg, hfound]
  rintro rfl
  rw [hnew] at hfound
  cases hfound

def Explained (work : Work) (registry : Registry) : Prop :=
  ∀ owner record, registry.find? owner = some record →
    ∃ compiled, Formula.compile record.source = .ok compiled ∧ compiled.Explains work record.stage

theorem Explained.moveTo (h : registry.Explained work)
    (hs : ∀ record compiled, registry.find? id = some record →
      Formula.compile record.source = .ok compiled → compiled.Explains work stage) :
    (registry.moveTo id stage).2.Explained work := by
  intro owner record hf
  rw [find?_moveTo] at hf
  split at hf
  · next hm =>
    obtain ⟨_, rfl⟩ := hm
    obtain ⟨before, hb, rfl⟩ := Option.map_eq_some_iff.mp hf
    obtain ⟨compiled, hc, _⟩ := h owner before hb
    exact ⟨compiled, hc, hs before compiled hb hc⟩
  · exact h owner record hf

theorem Explained.markCalculating (h : registry.Explained work) (id : String) :
    (registry.markCalculating id).2.Explained work := by
  unfold Registry.markCalculating
  split
  · exact h
  · exact h.moveTo fun _ _ _ _ => trivial

theorem Explained.insert (h : registry.Explained work) {after : Registry}
    (hf : ∀ other, after.find? other = if other = id then some record else registry.find? other)
    {compiled : Formula.Compiled} (hc : Formula.compile record.source = .ok compiled)
    (hs : compiled.Explains work record.stage) : after.Explained work := by
  intro owner found ho
  rw [hf] at ho
  split at ho
  · cases ho
    exact ⟨compiled, hc, hs⟩
  · exact h owner found ho

end Registry

end ArithDispatch
