import ArithDispatch.Config.Basic
import ArithDispatch.Failure
import ArithDispatch.Scheduler.Metrics
import ArithDispatch.Scheduler.Readiness

/-! The scheduler: it accepts compiled formulas, hands ready tasks to workers and takes their
results. An operation that fails changes nothing but the count of rejected results.

Whoever needs the task table takes its lock. A call that panics while it has the lock leaves it poisoned,
and from then on every call that needs the table fails. -/
namespace ArithDispatch

structure Scheduler where
  /-- The tasks, as the last call left them that gave the lock back. What a call has written that then
  panicked is not kept: nobody can read it. -/
  table : TaskTable := {}
  registry : Registry := {}
  durations : OperationDurations := {}
  /-- How long a worker may keep a task; without a lease it may keep it for ever. -/
  lease : Option Duration := none
  metrics : Metrics := {}
  /-- Whether a call has panicked while it had the lock of the table. -/
  poisoned : Bool := false

structure SchedulerStats where
  liveTasks : Nat
  inProgressTasks : Nat
  lowWaterMark : Nat
  nextTaskId : Nat
  expressions : ExpressionCounts
  metrics : Metrics
  deriving DecidableEq, Repr

namespace Scheduler

def ofConfig (config : Config) : Scheduler :=
  { durations := config.durations, lease := config.taskLease }

def snapshot (s : Scheduler) : SchedulerStats where
  liveTasks := s.table.size
  inProgressTasks := s.table.inProgress
  lowWaterMark := s.table.lowWater
  nextTaskId := s.table.nextId
  expressions := s.registry.counts
  metrics := s.metrics

def stats (s : Scheduler) : Except Failure SchedulerStats :=
  if s.poisoned then .error .tableLockPoisoned else .ok s.snapshot

def expression (s : Scheduler) (id : String) : Except Failure ExpressionSummary :=
  match s.registry.summary? id with
  | some summary => .ok summary
  | none => .error (.expressionNotFound id)

/-- Accepts a compiled formula under an id of its own. The tasks are made only once the id is known
to be free. A number needs no tasks, and so not the table either. -/
def accept (s : Scheduler) (id source : String) : Formula.Compiled → Except Failure Unit × Scheduler
  | .literal value =>
    match s.registry.register id (fun _ => (ExpressionRecord.literal source value, ())) () with
    | none => (.error (.duplicateId id), s)
    | some (registry, _) =>
      (.ok (), { s with
        registry
        metrics := (s.metrics.record .expressionSubmitted).record .expressionCompleted })
  | .graph graph =>
    if s.poisoned then (.error .tableLockPoisoned, s)
    else
      let commit (table : TaskTable) : ExpressionRecord × TaskTable :=
        let (root, table) := table.commit graph id s.durations
        (.pending source root, table)
      match s.registry.register id commit s.table with
      | none => (.error (.duplicateId id), s)
      | some (registry, table) =>
        (.ok (), { s with
          registry, table
          metrics := (s.metrics.record .expressionSubmitted).record (.tasksCreated graph.size) })

/-- Removes a task whose expression needs it no more, with all that it depends on. -/
def sweep (s : Scheduler) (task : Task) : Scheduler :=
  let (cancelled, table) := s.table.reclaim task.id
  { s with table, metrics := s.metrics.record (.tasksCancelled cancelled) }

/-- Makes the task's expression invalid and removes its tasks, from the root and from this task. -/
def invalidate (s : Scheduler) (task : Task) (obstacle : Obstacle) : Scheduler :=
  let (changed, registry) := s.registry.invalidate task.owner obstacle.reason
  let (underRoot, table) :=
    match registry.rootTask? task.owner with
    | some root => s.table.reclaim root
    | none => (0, s.table)
  let (underTask, table) := table.reclaim task.id
  { s with
    registry, table
    metrics := (s.metrics.recordIf changed .expressionInvalidated).record
      (.tasksCancelled (underRoot + underTask)) }

/-- Removes each of the given tasks with all that it depends on, and counts the removed ones. -/
def freeAll (table : TaskTable) : List Nat → Nat × TaskTable
  | [] => (0, table)
  | id :: rest =>
    let (count, table) := table.reclaim id
    let (more, table) := freeAll table rest
    (count + more, table)

/-- Marks the task as handed out with both operands known. The values now live in the task itself, so the
tasks that they came from are freed. -/
def dispatch (s : Scheduler) (now : Nat) (task : Task) (left right : Binary64)
    (redispatch : Bool) : TaskPayload × Scheduler :=
  let table := s.table.modify task.id fun t =>
    { t with
      left := .literal left
      right := .literal right
      status := .inProgress
      attempts := t.attempts + 1
      deadline := s.lease.map (now + ·.nanoseconds) }
  let (freed, table) := freeAll table task.dependencies
  ({ id := task.id, left, right, operator := task.operator, duration := task.duration },
    { s with
      table
      registry := (s.registry.markCalculating task.owner).2
      metrics := (s.metrics.record (if redispatch then .taskRedispatched else .taskDispatched)).record
        (.tasksFreed freed) })

/-- Whether there is a moment at which a lease runs out that begins now. -/
def leaseFits (s : Scheduler) (now : Nat) : Bool :=
  s.lease.all (now + ·.nanoseconds ≤ lastMoment)

def poison (s : Scheduler) : Scheduler := { s with poisoned := true }

/-- Hands out the task that is live under an id. One that is gone by then is an internal failure, and a
lease that runs out behind the last moment makes the call panic. -/
def handOver (s : Scheduler) (now : Nat) (id : Nat) (left right : Binary64) (redispatch : Bool) :
    Outcome (Option TaskPayload) × Scheduler :=
  match s.table.get? id with
  | none => (.error (.internal s!"task {id} vanished during dispatch"), s)
  | some task =>
    if s.leaseFits now then
      let (payload, s) := s.dispatch now task left right redispatch
      (.ok (some payload), s)
    else (.panic, s.poison)

theorem length_startingAt_lt {arena smaller : Arena} {start : Nat} {task : Task}
    (sublist : smaller.tasks.Sublist arena.tasks) (member : task ∈ arena.startingAt start) :
    (smaller.startingAt (task.id + 1)).length < (arena.startingAt start).length := by
  obtain ⟨listed, above⟩ := List.mem_filter.mp member
  have shorter : (smaller.startingAt (task.id + 1)).Sublist
      ((arena.startingAt start).filter (task.id + 1 ≤ ·.id)) := by
    have narrowed : (arena.startingAt start).filter (task.id + 1 ≤ ·.id) =
        arena.tasks.filter (task.id + 1 ≤ ·.id) := by
      simp only [Arena.startingAt, List.filter_filter]
      refine List.filter_congr fun other _ => ?_
      simp only [decide_eq_true_eq] at above
      rw [Bool.eq_iff_iff]
      simp only [Bool.and_eq_true, decide_eq_true_eq]
      omega
    rw [narrowed]
    exact sublist.filter _
  refine Nat.lt_of_le_of_lt shorter.length_le ?_
  exact List.length_filter_lt_length_iff_exists.mpr ⟨task, member, by simp⟩

private theorem sublist_reclaim (table : TaskTable) (id : Nat) :
    (table.reclaim id).2.arena.tasks.Sublist table.arena.tasks :=
  table.arena.sublist_reclaim [id]

theorem sublist_sweep (s : Scheduler) (task : Task) :
    (s.sweep task).table.arena.tasks.Sublist s.table.arena.tasks :=
  sublist_reclaim s.table task.id

theorem sublist_invalidate (s : Scheduler) (task : Task) (obstacle : Obstacle) :
    (s.invalidate task obstacle).table.arena.tasks.Sublist s.table.arena.tasks := by
  refine (sublist_reclaim _ task.id).trans ?_
  split
  · exact sublist_reclaim _ _
  · exact .refl _

/-- Hands out the first ready task from `cursor` on. Tasks met on the way that need to be swept or
that make their expression invalid are dealt with, and the scan goes on behind them. -/
def pullFrom (s : Scheduler) (now : Nat) (cursor : Nat) : Outcome (Option TaskPayload) × Scheduler :=
  match _ : s.table.nextAttention s.registry now cursor with
  | none => (.ok none, s)
  | some (task, .sweep) => pullFrom (s.sweep task) now (task.id + 1)
  | some (task, .invalidate obstacle) => pullFrom (s.invalidate task obstacle) now (task.id + 1)
  | some (task, .dispatch left right redispatch) => s.handOver now task.id left right redispatch
termination_by (s.table.arena.startingAt cursor).length
decreasing_by
  · exact length_startingAt_lt (s.sublist_sweep task) (TaskTable.nextAttention_mem ‹_›)
  · exact length_startingAt_lt (s.sublist_invalidate task obstacle) (TaskTable.nextAttention_mem ‹_›)

/-- Hands out the first ready task, or nothing when none is ready now. -/
def pull (s : Scheduler) (now : Nat) : Outcome (Option TaskPayload) × Scheduler :=
  if s.poisoned then (.error .tableLockPoisoned, s)
  else
    let table := s.table.advance
    pullFrom { s with table } now table.lowWater

/-- Why a report for a live task is refused. -/
inductive Refusal where
  | alreadyCompleted
  | notDispatched
  deriving DecidableEq, Repr

def Refusal.reason : Refusal → String
  | alreadyCompleted => "already completed"
  | notDispatched => "not dispatched"

def refusal? (task : Task) : Option Refusal :=
  if task.isDone then some .alreadyCompleted
  else if task.attempts = 0 then some .notDispatched
  else none

/-- Refuses a report, which only counts it. -/
def refuse (s : Scheduler) : Scheduler :=
  { s with metrics := s.metrics.record .resultRejected }

/-- Ends the expression of a completed task if it is the root, whose value is then known. -/
def finishRoot (s : Scheduler) (task : Task) (value : Binary64) : Scheduler :=
  if s.registry.rootTask? task.owner = some task.id then
    let (completed, registry) := s.registry.complete task.owner value
    let (freed, table) := s.table.reclaim task.id
    { s with
      registry, table
      metrics := (s.metrics.recordIf completed .expressionCompleted).record (.tasksFreed freed) }
  else s

/-- Takes a worker's result for a task that was handed out and is not completed. -/
def report (s : Scheduler) (id : Nat) (value : Binary64) : Except Failure Unit × Scheduler :=
  if s.poisoned then (.error .tableLockPoisoned, s)
  else match s.table.get? id with
    | none => (.error (.taskNotFound id), s.refuse)
    | some task =>
      match refusal? task with
      | some refusal => (.error (.taskNotAwaitingResult id refusal.reason), s.refuse)
      | none =>
        let completed : Scheduler :=
          { s with
            table := s.table.modify id fun t =>
              { t with result := value, status := .completed, deadline := none }
            metrics := s.metrics.record .taskCompleted }
        (.ok (), completed.finishRoot task value)

end Scheduler

end ArithDispatch
