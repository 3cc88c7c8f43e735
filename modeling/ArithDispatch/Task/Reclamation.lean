import ArithDispatch.Task.Table

/-! The removal of a subtree turn by turn. Why the subtree goes decides what is noted about its tasks, and
nothing else. -/
namespace ArithDispatch

/-- How a removal is accounted for: the expression became invalid, or the value has been copied out. -/
inductive Reclaim where
  | cancel | free
  deriving DecidableEq, Repr

structure Notice where
  isWarning : Bool
  text : String
  deriving DecidableEq, Repr

/-- What is noted about a removed task. -/
def Reclaim.notice (mode : Reclaim) (id : Nat) (task : Task) : Notice :=
  match mode with
  | cancel =>
    if task.isInProgress then ⟨true, s!"Task {id} cancelled while in progress"⟩
    else ⟨false, s!"Task {id} cancelled"⟩
  | free => ⟨false, s!"Task {id} has been freed"⟩

/-- A removal under way. The id to be visited next stands in front of the worklist, which may name a
task twice or name one that is gone. -/
structure Reclamation where
  table : TaskTable
  worklist : List Nat
  removed : Nat := 0
  notices : List Notice := []

namespace Reclamation

def start (table : TaskTable) (root : Nat) : Reclamation where
  table := table
  worklist := [root]

/-- Visits one id. A live task goes, and its operands are visited before all that waits already, the
right one first. -/
def turn (mode : Reclaim) (state : Reclamation) : Reclamation :=
  match state.worklist with
  | [] => state
  | id :: rest =>
    match state.table.get? id with
    | none => { state with worklist := rest }
    | some task =>
      { table := { state.table with arena := state.table.arena.erase id }
        worklist := task.dependencies.reverse ++ rest
        removed := state.removed + 1
        notices := state.notices ++ [mode.notice id task] }

/-- A bound on the turns to come: a task has two operands at most. -/
def weight (state : Reclamation) : Nat := 2 * state.table.size + state.worklist.length

theorem weight_turn_lt {state : Reclamation} (mode : Reclaim) (h : state.worklist ≠ []) :
    (state.turn mode).weight < state.weight := by
  unfold turn weight
  split
  · next hw => exact absurd hw h
  · next id rest hw =>
    rw [hw, List.length_cons]
    split
    · simp only
      omega
    · next task hg =>
      have hsize : (state.table.arena.erase id).size < state.table.arena.size := Arena.size_erase_lt hg
      have hoperands : task.dependencies.length ≤ 2 := List.length_filterMap_le ..
      simp only [TaskTable.size, List.length_append, List.length_reverse]
      omega

/-- Takes turns until nothing is left to be visited. -/
def finish (mode : Reclaim) (state : Reclamation) : Reclamation :=
  if state.worklist = [] then state else finish mode (state.turn mode)
termination_by state.weight
decreasing_by exact weight_turn_lt mode ‹_›

end Reclamation

/-- Removes a task with all that is reachable from it, and notes what goes. -/
def TaskTable.reclaimAs (mode : Reclaim) (table : TaskTable) (root : Nat) : Reclamation :=
  (Reclamation.start table root).finish mode

end ArithDispatch
