import ArithDispatch.Proofs.Scheduler.Acceptance

/-! Runs of a scheduler, and what holds in every state that one reaches: the live tasks of an open
expression form one tree, and a closed expression has none. -/
namespace ArithDispatch.Scheduler
open Formula (assemble)

inductive Action where
  | accept (id source : String) (compiled : Formula.Compiled)
  | pull (now : Nat)
  | report (id : Nat) (value : Binary64)
  deriving DecidableEq, Repr

/-- Formulas come from the compiler; moments, ids and values are arbitrary. -/
def Action.Admissible : Action → Prop
  | accept _ _ compiled => ∃ tokens, assemble tokens = .ok compiled
  | pull _ | report _ _ => True

theorem admissible_sum (owner source : String) :
    (Action.accept owner source (.graph Formula.sumGraph)).Admissible :=
  Formula.exists_assemble_of_compile Formula.compile_sumGraph

theorem admissible_product (owner source : String) :
    (Action.accept owner source (.graph Formula.productGraph)).Admissible :=
  Formula.exists_assemble_of_compile Formula.compile_productGraph

def perform (s : Scheduler) : Action → Scheduler
  | .accept id source compiled => (s.accept id source compiled).2
  | .pull now => (s.pull now).2
  | .report id value => (s.report id value).2

inductive Reachable : Scheduler → Prop
  | fresh (durations : OperationDurations) (lease : Option Duration) : Reachable { durations, lease }
  | step {s : Scheduler} {action : Action} : Reachable s → action.Admissible →
      Reachable (s.perform action)

namespace Coherent
variable {s t : Scheduler} {now cursor : Nat} {task : Task} {found : Attention}

/-- What a scan finds in a coherent state is a division by zero or a task that is ready. -/
theorem nextAttention_cases (h : Coherent s)
    (ha : s.table.nextAttention s.registry now cursor = some (task, found)) :
    s.table.get? task.id = some task ∧ task.isDone = false ∧
      ∃ left right, s.table.readiness task.left = .ready left ∧
        s.table.readiness task.right = .ready right ∧
        ((task.operator = .div ∧ right.isZero = true ∧ found = .invalidate .divisionByZero) ∨
          (¬ (task.operator = .div ∧ right.isZero = true) ∧
            found = .dispatch left right task.isInProgress)) := by
  obtain ⟨hg, _, ha, _⟩ := TaskTable.nextAttention_eq_some ha
  obtain ⟨hd, _, hr⟩ := h.attention_cases hg ha
  exact ⟨hg, hd, hr⟩

theorem nextAttention_ne_sweep (h : Coherent s) :
    s.table.nextAttention s.registry now cursor ≠ some (task, .sweep) := by
  intro ha
  obtain ⟨_, _, _, _, _, _, ⟨_, _, hf⟩ | ⟨_, hf⟩⟩ := h.nextAttention_cases ha <;> cases hf

theorem scanning (h : Coherent s) (hs : Scanning now s t cursor) : Coherent t := by
  induction hs with
  | start => exact h.advance
  | sweep _ ha ih => exact absurd ha ih.nextAttention_ne_sweep
  | invalidate _ ha ih =>
    obtain ⟨hg, _, _, _, _, _, ⟨_, _, hf⟩ | ⟨_, hf⟩⟩ := ih.nextAttention_cases ha <;> cases hf
    exact ih.invalidate hg

theorem fruitless (h : Coherent s) {outcome : Outcome (Option TaskPayload)} (hf : Fruitless now s outcome t) :
    Coherent t :=
  hf.elim h (fun hs => h.scanning hs) fun h => h.poison

/-- A pull hands nothing out, or a task that has both its operands. -/
theorem pull_cases (h : Coherent s) (now : Nat) :
    (∃ outcome t, Fruitless now s outcome t ∧ s.pull now = (outcome, t)) ∨
    ∃ t cursor task left right, Scanning now s t cursor ∧ t.table.get? task.id = some task ∧
      task.isDone = false ∧ t.table.readiness task.left = .ready left ∧
      t.table.readiness task.right = .ready right ∧ ¬ (task.operator = .div ∧ right.isZero = true) ∧
      s.pull now = (.ok (some (t.dispatch now task left right task.isInProgress).1),
        (t.dispatch now task left right task.isInProgress).2) := by
  rcases s.pull_cases now with hn | ⟨t, cursor, task, _, _, _, hs, ha, _, _, he⟩
  · exact .inl hn
  · obtain ⟨hg, hd, _, _, hl, hr, ⟨_, _, hf⟩ | ⟨hz, hf⟩⟩ := (h.scanning hs).nextAttention_cases ha <;>
      cases hf
    exact .inr ⟨t, cursor, task, _, _, hs, hg, hd, hl, hr, hz, he⟩

theorem pull (h : Coherent s) (now : Nat) : Coherent (s.pull now).2 := by
  rcases h.pull_cases now with
    ⟨outcome, t, hf, he⟩ | ⟨t, cursor, task, left, right, hs, hg, hd, hl, hr, _, he⟩
  · rw [he]
    exact h.fruitless hf
  · rw [he]
    exact (h.scanning hs).dispatch hg hl hr hd now _

theorem perform (h : Coherent s) {action : Action} (ha : action.Admissible) :
    Coherent (s.perform action) := by
  cases action with
  | accept id source compiled =>
    obtain ⟨tokens, ht⟩ := ha
    refine h.accept (fun graph he => ?_) id source
    exact Formula.isTree_of_assemble (he ▸ ht)
  | pull now => exact h.pull now
  | report id value => exact h.report id value

end Coherent

theorem Reachable.coherent {s : Scheduler} (h : Reachable s) : Coherent s := by
  induction h with
  | fresh durations lease => exact .fresh durations lease
  | step _ ha ih => exact ih.perform ha

end ArithDispatch.Scheduler
