import ArithDispatch.Expression.Registry
import ArithDispatch.Task.Table

/-! Which task needs attention next. The scan changes nothing: it finds the first task, in order of
id, that must be swept away, that makes its expression invalid, or that can be handed out. -/
namespace ArithDispatch

/-- Why an expression cannot be computed. -/
inductive Obstacle where
  | divisionByZero
  | malformedGraph
  deriving DecidableEq, Repr

def Obstacle.reason : Obstacle → String
  | divisionByZero => "division by zero"
  | malformedGraph => "malformed task graph"

/-- What is to be done with a task that the scan stops at. -/
inductive Attention where
  /-- The expression is invalid already, or unknown. -/
  | sweep
  /-- The task can never be computed. -/
  | invalidate (obstacle : Obstacle)
  /-- Both operands are known; the task may have been out before. -/
  | dispatch (left right : Binary64) (redispatch : Bool)
  deriving DecidableEq, Repr

inductive Readiness where
  | ready (value : Binary64)
  | waiting
  | missing
  deriving DecidableEq, Repr

namespace TaskTable

def readiness (table : TaskTable) : Operand → Readiness
  | .literal value => .ready value
  | .reference id =>
    match table.get? id with
    | some task => if task.isDone then .ready task.result else .waiting
    | none => .missing

/-- What follows from the operands alone. -/
def attentionForOperands (table : TaskTable) (task : Task) : Option Attention :=
  match table.readiness task.left, table.readiness task.right with
  | .missing, _ => some (.invalidate .malformedGraph)
  | _, .missing => some (.invalidate .malformedGraph)
  | .ready left, .ready right =>
    if task.operator = .div ∧ right.isZero then some (.invalidate .divisionByZero)
    else some (.dispatch left right task.isInProgress)
  | _, _ => none

def attention (table : TaskTable) (registry : Registry) (now : Nat) (task : Task) :
    Option Attention :=
  if task.isDone then none
  else match registry.status? task.owner with
    | none | some .invalid => some .sweep
    | some _ =>
      if task.isInProgress && !task.leaseExpired now then none
      else table.attentionForOperands task

/-- The first task from `start` on that needs attention. -/
def nextAttention (table : TaskTable) (registry : Registry) (now : Nat) (start : Nat) :
    Option (Task × Attention) :=
  (table.arena.startingAt start).findSome? fun task =>
    (table.attention registry now task).map (task, ·)

theorem nextAttention_mem {table : TaskTable} {registry : Registry} {now : Nat}
    {start : Nat} {task : Task} {found : Attention}
    (h : table.nextAttention registry now start = some (task, found)) :
    task ∈ table.arena.startingAt start := by
  obtain ⟨other, member, eq⟩ := List.exists_of_findSome?_eq_some h
  obtain ⟨_, _, eq⟩ := Option.map_eq_some_iff.mp eq
  cases eq
  exact member

end TaskTable

end ArithDispatch
