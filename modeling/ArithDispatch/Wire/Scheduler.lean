import ArithDispatch.Scheduler.Basic
import ArithDispatch.Wire.Expression

/-! The JSON forms of counters and statistics. -/
namespace ArithDispatch.Wire
open Json

def metrics : Codec Metrics :=
  ((required "expressions_submitted" .uint64).both <|
    (required "expressions_completed" .uint64).both <|
    (required "expressions_invalidated" .uint64).both <| (required "tasks_created" .uint64).both <|
    (required "tasks_dispatched" .uint64).both <| (required "tasks_redispatched" .uint64).both <|
    (required "tasks_completed" .uint64).both <| (required "tasks_cancelled" .uint64).both <|
    (required "tasks_freed" .uint64).both <| required "results_rejected" .uint64).codec true |>.map
    (fun (submitted, completed, invalidated, created, dispatched, redispatched, finished, cancelled,
        freed, rejected) =>
      ⟨submitted, completed, invalidated, created, dispatched, redispatched, finished, cancelled,
        freed, rejected⟩)
    (fun m => (m.expressionsSubmitted, m.expressionsCompleted, m.expressionsInvalidated,
      m.tasksCreated, m.tasksDispatched, m.tasksRedispatched, m.tasksCompleted, m.tasksCancelled,
      m.tasksFreed, m.resultsRejected))

def schedulerStats : Codec SchedulerStats :=
  ((required "live_tasks" count).both <| (required "in_progress_tasks" count).both <|
    (required "low_water_mark" count).both <| (required "next_task_id" count).both <|
    (required "expressions" expressionCounts).both <| required "metrics" metrics).codec true |>.map
    (fun (liveTasks, inProgressTasks, lowWaterMark, nextTaskId, expressions, metrics) =>
      { liveTasks, inProgressTasks, lowWaterMark, nextTaskId, expressions, metrics })
    (fun s => (s.liveTasks, s.inProgressTasks, s.lowWaterMark, s.nextTaskId, s.expressions,
      s.metrics))

end ArithDispatch.Wire
