import ArithDispatch.Formula.Graph
import ArithDispatch.Operator.Durations
import ArithDispatch.Time.Duration

/-! Tasks: single binary operations that wait for a worker. A pending task is ready once every task
that it refers to is completed; readiness is never stored, and a cancelled task is removed. -/
namespace ArithDispatch

inductive TaskStatus where
  | pending | inProgress | completed
  deriving DecidableEq, Repr

namespace TaskStatus

def all : List TaskStatus := [pending, inProgress, completed]

theorem mem_all (status : TaskStatus) : status ∈ all := by
  cases status <;> simp [all]

def name : TaskStatus → String
  | pending => "pending"
  | inProgress => "in_progress"
  | completed => "completed"

end TaskStatus

structure Task where
  /-- Ids count up from 1, here without the bound of 64 bits: see `TaskTable.nextId`. -/
  id : Nat
  left : Operand
  operator : Operator
  right : Operand
  /-- The advisory duration in milliseconds. -/
  duration : UInt64
  /-- The id of the expression that the task belongs to. -/
  owner : String
  /-- Meaningful once the task is completed. -/
  result : Binary64 := .zero
  status : TaskStatus := .pending
  /-- How often the task has been handed to a worker. -/
  attempts : UInt32 := 0
  deadline : Option Nat := none
  deriving DecidableEq, Repr

namespace Task

def isDone (task : Task) : Bool := task.status == .completed

def isInProgress (task : Task) : Bool := task.status == .inProgress

/-- Whether the task is out at a worker whose time has run out. -/
def leaseExpired (task : Task) (now : Nat) : Bool :=
  task.isInProgress && task.deadline.any (· ≤ now)

/-- The tasks that the operands are still read from. -/
def dependencies (task : Task) : List Nat :=
  [task.left, task.right].filterMap Operand.reference?

end Task

/-- What a worker receives: the operation with both operands known. -/
structure TaskPayload where
  id : Nat
  left : Binary64
  right : Binary64
  operator : Operator
  duration : UInt64
  deriving DecidableEq, Repr

end ArithDispatch
