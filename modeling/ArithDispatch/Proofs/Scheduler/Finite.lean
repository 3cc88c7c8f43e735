import ArithDispatch.Proofs.Formula.Finite
import ArithDispatch.Proofs.Scheduler.Effects

/-! The numbers that a scheduler keeps are finite as long as all that it is given are. They come in with
formulas and with reports, and on their way to the tasks and the expressions they are only copied. -/
namespace ArithDispatch

def Task.IsFinite (task : Task) : Prop :=
  task.left.IsFinite ∧ task.right.IsFinite ∧ task.result.isFinite = true

namespace Scheduler

/-- Every number in a live task or in the record of an expression is finite. -/
structure KeepsFinite (s : Scheduler) : Prop where
  tasks : ∀ id task, s.table.get? id = some task → task.IsFinite
  results : ∀ owner record value, s.registry.find? owner = some record → record.stage = .done value →
    value.isFinite = true

/-- The numbers that the action brings are finite. -/
def Action.BringsFinite : Action → Prop
  | accept _ _ compiled => compiled.IsFinite
  | pull _ => True
  | report _ value => value.isFinite = true

namespace KeepsFinite
variable {s : Scheduler} {action : Action} {id : Nat} {task : Task} {owner : String} {record : ExpressionRecord}
  {value : Binary64}

theorem fresh (durations : OperationDurations) (lease : Option Duration) :
    KeepsFinite { durations, lease } where
  tasks id task hg := by cases hg
  results owner record value hf := by cases hf

/-- What an operand is read as is the number itself, or the result of a live task. -/
theorem isFinite_of_ready (h : KeepsFinite s) {operand : Operand} (ho : operand.IsFinite)
    (hr : s.table.readiness operand = .ready value) : value.isFinite = true := by
  cases operand with
  | literal known =>
    cases hr
    exact ho value rfl
  | reference index =>
    obtain ⟨task, hg, _, rfl⟩ := TaskTable.readiness_reference_ready hr
    exact (h.tasks index task hg).2.2

theorem tasks_perform (h : KeepsFinite s) (hc : Coherent s) (ha : action.BringsFinite)
    (hg : (s.perform action).table.get? id = some task) : task.IsFinite := by
  cases hc.becomes hg with
  | untouched hold => exact h.tasks id task hold
  | created _ hn =>
    obtain ⟨hl, hr⟩ := ha _ (List.mem_of_getElem? hn)
    exact ⟨hl.shift _, hr.shift _, (by decide : Binary64.zero.isFinite = true)⟩
  | @handedOut now payload old _ ho =>
    obtain ⟨hl, hr, hresult⟩ := h.tasks _ old ho.live
    refine ⟨?_, ?_, hresult⟩
    · rintro _ ⟨⟩
      exact h.isFinite_of_ready hl ho.left
    · rintro _ ⟨⟩
      exact h.isFinite_of_ready hr ho.right
  | @completed id value old ht =>
    obtain ⟨hl, hr, _⟩ := h.tasks id old ht.live
    exact ⟨hl, hr, ha⟩

theorem results_perform (h : KeepsFinite s) (hc : Coherent s) (ha : action.BringsFinite)
    (hf : (s.perform action).registry.find? owner = some record) (hs : record.stage = .done value) :
    value.isFinite = true := by
  rcases hc.find?_perform_cases hf with
    ⟨before, hb, hturn⟩ | ⟨source, written, rfl, rfl⟩ | ⟨source, graph, _, rfl⟩
  · cases hturn with
    | same => exact h.results owner record value hb hs
    | begun => cases hs
    | spoilt => cases hs
    | finished =>
      cases hs
      exact ha
  · cases hs
    exact ha
  · cases hs

theorem perform (h : KeepsFinite s) (hc : Coherent s) (ha : action.BringsFinite) :
    KeepsFinite (s.perform action) where
  tasks _ _ := h.tasks_perform hc ha
  results _ _ _ := h.results_perform hc ha

theorem of_expression (h : KeepsFinite s) {summary : ExpressionSummary} (hs : s.expression owner = .ok summary)
    (hv : summary.result = some value) : value.isFinite = true := by
  obtain ⟨record, hf, rfl⟩ := find?_of_expression hs
  exact h.results owner record value hf (Stage.result?_eq_some.mp hv)

/-- A worker is given finite numbers. -/
theorem of_pull (h : KeepsFinite s) (hc : Coherent s) {now : Nat} {payload : TaskPayload}
    (hp : (s.pull now).1 = .ok (some payload)) : payload.left.isFinite = true ∧ payload.right.isFinite = true := by
  obtain ⟨task, ho⟩ := hc.offers hp
  obtain ⟨hl, hr, _⟩ := h.tasks _ task ho.live
  exact ⟨h.isFinite_of_ready hl ho.left, h.isFinite_of_ready hr ho.right⟩

end KeepsFinite

end Scheduler

end ArithDispatch
