/-! Counters of what a scheduler has done so far. They are 64 bits wide and wrap. -/
namespace ArithDispatch

structure Metrics where
  /-- Accepted expressions, plain numbers included. -/
  expressionsSubmitted : UInt64 := 0
  expressionsCompleted : UInt64 := 0
  expressionsInvalidated : UInt64 := 0
  tasksCreated : UInt64 := 0
  /-- Tasks handed to a worker for the first time. -/
  tasksDispatched : UInt64 := 0
  /-- Tasks handed out again because a lease had run out. -/
  tasksRedispatched : UInt64 := 0
  tasksCompleted : UInt64 := 0
  tasksCancelled : UInt64 := 0
  tasksFreed : UInt64 := 0
  /-- Reports of workers that were refused. -/
  resultsRejected : UInt64 := 0
  deriving DecidableEq, Repr

namespace Metrics

inductive Event where
  | expressionSubmitted
  | expressionCompleted
  | expressionInvalidated
  | tasksCreated (count : Nat)
  | taskDispatched
  | taskRedispatched
  | taskCompleted
  | tasksCancelled (count : Nat)
  | tasksFreed (count : Nat)
  | resultRejected
  deriving DecidableEq, Repr

def record (m : Metrics) : Event → Metrics
  | .expressionSubmitted => { m with expressionsSubmitted := m.expressionsSubmitted + 1 }
  | .expressionCompleted => { m with expressionsCompleted := m.expressionsCompleted + 1 }
  | .expressionInvalidated => { m with expressionsInvalidated := m.expressionsInvalidated + 1 }
  | .tasksCreated count => { m with tasksCreated := m.tasksCreated + .ofNat count }
  | .taskDispatched => { m with tasksDispatched := m.tasksDispatched + 1 }
  | .taskRedispatched => { m with tasksRedispatched := m.tasksRedispatched + 1 }
  | .taskCompleted => { m with tasksCompleted := m.tasksCompleted + 1 }
  | .tasksCancelled count => { m with tasksCancelled := m.tasksCancelled + .ofNat count }
  | .tasksFreed count => { m with tasksFreed := m.tasksFreed + .ofNat count }
  | .resultRejected => { m with resultsRejected := m.resultsRejected + 1 }

/-- Records an event only when it took place. -/
def recordIf (m : Metrics) (happened : Bool) (event : Event) : Metrics :=
  if happened then m.record event else m

/-- Created tasks that are neither cancelled nor freed. -/
def outstanding (m : Metrics) : Nat :=
  m.tasksCreated.toNat - (m.tasksCancelled + m.tasksFreed).toNat

end Metrics

end ArithDispatch
