import ArithDispatch.Proofs.Expression.Count
import ArithDispatch.Proofs.Scheduler.Run
import ArithDispatch.Proofs.Task.Count

/-! What each operation counts. The exact numbers behind the counters are kept beside them, so that the limit
of a counter does not matter until the very end. -/
namespace ArithDispatch

/-- The numbers that the counters of a scheduler stand for. -/
structure Totals where
  submitted : Nat := 0
  completed : Nat := 0
  invalidated : Nat := 0
  created : Nat := 0
  dispatched : Nat := 0
  redispatched : Nat := 0
  taken : Nat := 0
  cancelled : Nat := 0
  freed : Nat := 0
  rejected : Nat := 0

namespace Totals

def record (totals : Totals) : Metrics.Event → Totals
  | .expressionSubmitted => { totals with submitted := totals.submitted + 1 }
  | .expressionCompleted => { totals with completed := totals.completed + 1 }
  | .expressionInvalidated => { totals with invalidated := totals.invalidated + 1 }
  | .tasksCreated count => { totals with created := totals.created + count }
  | .taskDispatched => { totals with dispatched := totals.dispatched + 1 }
  | .taskRedispatched => { totals with redispatched := totals.redispatched + 1 }
  | .taskCompleted => { totals with taken := totals.taken + 1 }
  | .tasksCancelled count => { totals with cancelled := totals.cancelled + count }
  | .tasksFreed count => { totals with freed := totals.freed + count }
  | .resultRejected => { totals with rejected := totals.rejected + 1 }

/-- The counters, which are 64 bits wide. -/
def metrics (totals : Totals) : Metrics where
  expressionsSubmitted := .ofNat totals.submitted
  expressionsCompleted := .ofNat totals.completed
  expressionsInvalidated := .ofNat totals.invalidated
  tasksCreated := .ofNat totals.created
  tasksDispatched := .ofNat totals.dispatched
  tasksRedispatched := .ofNat totals.redispatched
  tasksCompleted := .ofNat totals.taken
  tasksCancelled := .ofNat totals.cancelled
  tasksFreed := .ofNat totals.freed
  resultsRejected := .ofNat totals.rejected

theorem metrics_record (totals : Totals) (event : Metrics.Event) :
    (totals.record event).metrics = totals.metrics.record event := by
  cases event <;> simp [record, metrics, Metrics.record, UInt64.ofNat_add]

end Totals

namespace Scheduler
variable {s : Scheduler} {task : Task} {owner source : String}

theorem size_freeAll (table : TaskTable) (ids : List Nat) :
    (freeAll table ids).1 + (freeAll table ids).2.size = table.size := by
  induction ids generalizing table with
  | nil => exact Nat.zero_add _
  | cons id rest ih =>
    have hone := table.size_reclaim id
    have hrest := ih (table.reclaim id).2
    simp only [freeAll]
    omega

/-- A hand-out counts the tasks that go with it as freed. -/
theorem metrics_dispatch (s : Scheduler) (now : Nat) (task : Task) (left right : Binary64)
    (redispatch : Bool) : ∃ count,
      count + (s.dispatch now task left right redispatch).2.table.size = s.table.size ∧
      (s.dispatch now task left right redispatch).2.metrics =
        (s.metrics.record (if redispatch then .taskRedispatched else .taskDispatched)).record
          (.tasksFreed count) :=
  ⟨_, (size_freeAll _ _).trans (TaskTable.size_modify ..), rfl⟩

/-- An invalidation counts the tasks that go with it as cancelled. -/
theorem metrics_invalidate (h : Coherent s) (hg : s.table.get? task.id = some task) (obstacle : Obstacle) :
    ∃ count, count + (s.invalidate task obstacle).table.size = s.table.size ∧
      (s.invalidate task obstacle).metrics =
        (s.metrics.record .expressionInvalidated).record (.tasksCancelled count) := by
  obtain ⟨root, ho, _⟩ := h.owned task.id task hg
  have hmoved : (s.registry.invalidate task.owner obstacle.reason).1 = true :=
    Registry.moveTo_of_open ho rfl
  have hroot : (s.registry.invalidate task.owner obstacle.reason).2.rootTask? task.owner = some root :=
    (Registry.rootTask?_moveTo ..).trans (Registry.rootTask?_of_openRoot? ho)
  simp only [invalidate, hroot, hmoved]
  refine ⟨_, ?_, rfl⟩
  have hunder := s.table.size_reclaim root
  have hrest := (s.table.reclaim root).2.size_reclaim task.id
  omega

/-- The report for a root counts the tasks that go with it as freed. -/
theorem metrics_finishRoot (ho : s.registry.openRoot? task.owner = some task.id) (value : Binary64) :
    ∃ count, count + ((s.record task.id value).finishRoot task value).table.size = s.table.size ∧
      ((s.record task.id value).finishRoot task value).metrics =
        ((s.metrics.record .taskCompleted).record .expressionCompleted).record (.tasksFreed count) := by
  have hmoved : ((s.record task.id value).registry.complete task.owner value).1 = true :=
    Registry.moveTo_of_open ho rfl
  have hroot : (s.record task.id value).registry.rootTask? task.owner = some task.id :=
    Registry.rootTask?_of_openRoot? ho
  simp only [finishRoot, if_pos hroot, hmoved]
  refine ⟨_, ?_, rfl⟩
  exact ((s.record task.id value).table.size_reclaim task.id).trans (TaskTable.size_modify ..)

theorem metrics_accept_literal {value : Binary64}
    (h : (s.accept owner source (.literal value)).1 = .ok ()) :
    (s.accept owner source (.literal value)).2.registry.entries =
        s.registry.entries ++ [(owner, .literal source value)] ∧
      (s.accept owner source (.literal value)).2.metrics =
        (s.metrics.record .expressionSubmitted).record .expressionCompleted := by
  simp only [accept] at h ⊢
  split at h
  · cases h
  · next hr => exact ⟨(Registry.register_eq_some hr).2.2, rfl⟩

theorem metrics_accept_graph {graph : Formula.Graph}
    (h : (s.accept owner source (.graph graph)).1 = .ok ()) :
    (s.accept owner source (.graph graph)).2.registry.entries =
        s.registry.entries ++ [(owner, .pending source (s.table.nextId + graph.root))] ∧
      (s.accept owner source (.graph graph)).2.metrics =
        (s.metrics.record .expressionSubmitted).record (.tasksCreated graph.size) := by
  simp only [accept] at h ⊢
  split at h
  · cases h
  · next hp =>
    simp only [if_neg hp]
    split at h
    · cases h
    · next hr => exact ⟨(Registry.register_eq_some hr).2.2, rfl⟩

end Scheduler

end ArithDispatch
