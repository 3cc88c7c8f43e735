import ArithDispatch.Proofs.Expression.Status
import ArithDispatch.Proofs.Scheduler.Poisoning
import ArithDispatch.Proofs.Task.Update

/-! Reports for different tasks may come in either order. A report is taken apart into what it answers and
what it changes, which both depend on the reported task alone, and the changes are seen to commute. -/
namespace ArithDispatch

theorem Metrics.record_comm (m : Metrics) (first second : Event) :
    (m.record first).record second = (m.record second).record first := by
  have hcomm : ∀ i j k : UInt64, i + j + k = i + k + j := fun i j k => by
    rw [UInt64.add_assoc, UInt64.add_comm j, UInt64.add_assoc]
  cases first <;> cases second <;> simp only [record, hcomm]

namespace Scheduler
variable {s t : Scheduler} {task : Task} {id a b : Nat} {owner : String}

/-- What a report changes: nothing but a counter, the task, or the expression whose root the task is. -/
inductive Effect where
  | refused
  | recorded
  | finished (owner : String)

namespace Effect

def events : Effect → List Metrics.Event
  | refused => [.resultRejected]
  | recorded => [.taskCompleted]
  | finished _ => [.taskCompleted, .expressionCompleted, .tasksFreed 1]

def onArena (id : Nat) (value : Binary64) (arena : Arena) : Effect → Arena
  | refused => arena
  | recorded => arena.modify id (withResult · value)
  | finished _ => arena.erase id

def onRegistry (value : Binary64) (registry : Registry) : Effect → Registry
  | finished owner => (registry.complete owner value).2
  | refused | recorded => registry

def apply (s : Scheduler) (id : Nat) (value : Binary64) (effect : Effect) : Scheduler :=
  { s with
    table := { s.table with arena := effect.onArena id value s.table.arena }
    registry := effect.onRegistry value s.registry
    metrics := effect.events.foldl Metrics.record s.metrics }

variable {effect other : Effect} {x y : Binary64}

theorem onArena_comm (hne : a ≠ b) (arena : Arena) :
    other.onArena b y (effect.onArena a x arena) = effect.onArena a x (other.onArena b y arena) := by
  cases effect with
  | refused => rfl
  | recorded =>
    cases other with
    | refused => rfl
    | recorded => exact arena.modify_comm hne _ _
    | finished _ => exact (arena.erase_modify_comm b a _).symm
  | finished _ =>
    cases other with
    | refused => rfl
    | recorded => exact arena.erase_modify_comm a b _
    | finished _ => exact arena.erase_comm a b

theorem onRegistry_comm (hapart : ∀ owner, effect = .finished owner → other ≠ .finished owner)
    (registry : Registry) :
    other.onRegistry y (effect.onRegistry x registry) = effect.onRegistry x (other.onRegistry y registry) := by
  cases effect with
  | refused => rfl
  | recorded => rfl
  | finished owner =>
    cases other with
    | refused => rfl
    | recorded => rfl
    | finished owner' =>
      have hne : owner ≠ owner' := fun he => hapart owner rfl (congrArg finished he.symm)
      exact Registry.moveTo_comm hne registry _ _

theorem apply_comm (hne : a ≠ b) (hapart : ∀ owner, effect = .finished owner → other ≠ .finished owner)
    (s : Scheduler) (x y : Binary64) :
    other.apply (effect.apply s a x) b y = effect.apply (other.apply s b y) a x := by
  have hmetrics : ∀ m : Metrics, (effect.events ++ other.events).foldl Metrics.record m =
      (other.events ++ effect.events).foldl Metrics.record m :=
    have : RightCommutative Metrics.record := ⟨Metrics.record_comm⟩
    List.perm_append_comm.foldl_eq
  simp only [List.foldl_append] at hmetrics
  simp only [apply, onArena_comm hne, onRegistry_comm hapart, hmetrics]

/-- The other tasks are as they were. -/
theorem get?_apply (hne : b ≠ a) (s : Scheduler) (x : Binary64) :
    (effect.apply s a x).table.get? b = s.table.get? b := by
  cases effect with
  | refused => rfl
  | recorded =>
    refine (Arena.get?_modify ..).trans ?_
    simp only [if_neg hne, Option.map_id']
    rfl
  | finished owner => exact (Arena.get?_erase ..).trans (if_neg hne)

theorem rootTask?_apply (s : Scheduler) (id : Nat) (value : Binary64) (owner : String) :
    (effect.apply s id value).registry.rootTask? owner = s.registry.rootTask? owner := by
  cases effect with
  | refused => rfl
  | recorded => rfl
  | finished other => exact s.registry.rootTask?_moveTo other owner _

end Effect

/-- How a report for the task is answered, and what it changes. -/
def verdict (s : Scheduler) (id : Nat) : Except Failure Unit × Effect :=
  match s.table.get? id with
  | none => (.error (.taskNotFound id), .refused)
  | some task =>
    match refusal? task with
    | some refusal => (.error (.taskNotAwaitingResult id refusal.reason), .refused)
    | none => (.ok (), if s.registry.rootTask? task.owner = some id then .finished task.owner else .recorded)

theorem verdict_congr (hg : t.table.get? id = s.table.get? id)
    (hr : ∀ owner, t.registry.rootTask? owner = s.registry.rootTask? owner) :
    t.verdict id = s.verdict id := by
  simp only [verdict, hg, hr]

/-- Only the report for its root ends an expression. -/
theorem rootTask?_of_finished (h : (s.verdict id).2 = .finished owner) :
    s.registry.rootTask? owner = some id := by
  unfold verdict at h
  split at h
  · cases h
  · split at h
    · cases h
    · simp only at h
      split at h
      · next hroot =>
        cases h
        exact hroot
      · cases h

/-- The root of an expression whose result comes in has no operand left to free: it goes alone. -/
theorem finishRoot_record (h : Coherent s) (hg : s.table.get? task.id = some task)
    (hd : task.dependencies = []) (hroot : s.registry.rootTask? task.owner = some task.id)
    (value : Binary64) : (s.record task.id value).finishRoot task value =
      (Effect.finished task.owner).apply s task.id value := by
  obtain ⟨root, ho, _⟩ := h.owned task.id task hg
  have hmoved : (s.registry.complete task.owner value).1 = true := Registry.moveTo_of_open ho rfl
  have hrecord := get?_record hg value task.id
  rw [if_pos rfl] at hrecord
  have hgone : (s.record task.id value).table.arena.reclaim [task.id] =
      (s.table.arena.erase task.id, 1) := by
    rw [Arena.reclaim_of_settled hrecord hd]
    exact congrArg (·, 1) (s.table.arena.erase_modify_self task.id _)
  have hstill : (s.record task.id value).registry = s.registry := rfl
  rw [finishRoot, hstill, if_pos hroot]
  simp only [TaskTable.reclaim, hgone, hmoved]
  rfl

/-- A report that gets the lock does what its verdict says. -/
theorem Coherent.report_eq_verdict (h : Coherent s) (hsound : s.poisoned = false) (id : Nat)
    (value : Binary64) : s.report id value = ((s.verdict id).1, (s.verdict id).2.apply s id value) := by
  have hlock : ¬ s.poisoned = true := Bool.eq_false_iff.mp hsound
  cases hg : s.table.get? id with
  | none =>
    simp only [Scheduler.report, if_neg hlock, verdict, hg]
    rfl
  | some task =>
    obtain rfl : task.id = id := Arena.id_of_get? hg
    cases hr : refusal? task with
    | some refusal =>
      simp only [Scheduler.report, if_neg hlock, verdict, hg, hr]
      rfl
    | none =>
      rw [report_of_awaited hsound hg hr]
      simp only [verdict, hg, hr]
      have hsent := h.inProgress_of_awaited hg hr
      have hd := h.settled task.id task hg (by simp [hsent])
      split
      · next hroot => rw [finishRoot_record h hg hd hroot]
      · next hroot =>
        exact congrArg (Except.ok (), ·) (@finishRoot_of_inner (s.record task.id value) task hroot value)

/-- The report for one task leaves the verdict on another as it was. -/
theorem Coherent.verdict_report (h : Coherent s) (hsound : s.poisoned = false) (hne : b ≠ a)
    (value : Binary64) : (s.report a value).2.verdict b = s.verdict b := by
  rw [h.report_eq_verdict hsound]
  exact verdict_congr (Effect.get?_apply hne s value) (Effect.rootTask?_apply s a value)

/-- Reports for two tasks are answered alike in either order, and lead to the same state. -/
theorem reports_commute (h : Reachable s) (hne : a ≠ b) (x y : Binary64) :
    ((s.report b y).2.report a x).1 = (s.report a x).1 ∧
      ((s.report a x).2.report b y).1 = (s.report b y).1 ∧
      ((s.report a x).2.report b y).2 = ((s.report b y).2.report a x).2 := by
  by_cases hlock : s.poisoned = true
  · simp only [report_of_poisoned hlock]
    exact ⟨trivial, trivial, trivial⟩
  have hsound : s.poisoned = false := Bool.eq_false_iff.mpr hlock
  have still (id : Nat) (value : Binary64) : (s.report id value).2.poisoned = false :=
    (s.poisoned_report id value).trans hsound
  have hc := h.coherent
  have hapart : ∀ owner, (s.verdict a).2 = .finished owner → (s.verdict b).2 ≠ .finished owner := by
    intro owner ha hb
    have hroot := rootTask?_of_finished ha
    rw [rootTask?_of_finished hb] at hroot
    exact hne (Option.some.inj hroot).symm
  rw [(hc.report b y).report_eq_verdict (still b y) a x, (hc.report a x).report_eq_verdict (still a x) b y,
    hc.verdict_report hsound hne y, hc.verdict_report hsound hne.symm x, hc.report_eq_verdict hsound a x,
    hc.report_eq_verdict hsound b y]
  exact ⟨rfl, rfl, Effect.apply_comm hne hapart s x y⟩

/-- The roots of two sums are out at workers, and either report ends its expression. -/
theorem reports_of_two_sums_commute :
    let start : Scheduler := {}
    let s := [Action.accept "a" "1+2" (.graph Formula.sumGraph), .accept "b" "1+2" (.graph Formula.sumGraph),
      .pull 0, .pull 0].foldl perform start
    ((s.report 2 .zero).2.report 1 .three).1 = .ok () ∧ ((s.report 1 .three).2.report 2 .zero).1 = .ok () ∧
      ((s.report 1 .three).2.report 2 .zero).2 = ((s.report 2 .zero).2.report 1 .three).2 := by
  intro start s
  have hpull : (Action.pull 0).Admissible := trivial
  have hs : Reachable s := ((((Reachable.fresh {} none).step (admissible_sum "a" "1+2")).step
    (admissible_sum "b" "1+2")).step hpull).step hpull
  have hone : (s.report 1 .three).1 = .ok () := by decide +kernel
  have htwo : (s.report 2 .zero).1 = .ok () := by decide +kernel
  obtain ⟨hfirst, hsecond, hsame⟩ := reports_commute hs (by decide : 1 ≠ 2) .three .zero
  exact ⟨hfirst.trans hone, hsecond.trans htwo, hsame⟩

end Scheduler

end ArithDispatch
