import ArithDispatch.Proofs.Scheduler.Coherence

/-! Every operation of the scheduler keeps its state coherent. Of each the effect on the live tasks is
stated first. -/
namespace ArithDispatch.Scheduler
variable {s t : Scheduler} {now : Nat} {task : Task}

theorem get?_freeAll {table : TaskTable} {ids : List Nat}
    (leaf : ∀ id ∈ ids, ∀ dep, ¬ table.arena.Refers id dep) (other : Nat) :
    (freeAll table ids).2.get? other = if other ∈ ids then none else table.get? other := by
  induction ids generalizing table with
  | nil => simp [freeAll]
  | cons id rest ih =>
    have hone : ∀ other, (table.reclaim id).2.get? other =
        if other = id then none else table.get? other :=
      Arena.get?_reclaim_leaf (leaf id List.mem_cons_self)
    have hrest : ∀ id' ∈ rest, ∀ dep, ¬ (table.reclaim id).2.arena.Refers id' dep := by
      rintro id' hm dep ⟨reader, hg, hd⟩
      exact leaf id' (List.mem_cons_of_mem _ hm) dep ⟨reader, Arena.get?_of_reclaim hg, hd⟩
    have hall : (freeAll table (id :: rest)).2.get? other =
        (freeAll (table.reclaim id).2 rest).2.get? other := rfl
    rw [hall, ih hrest, hone]
    by_cases hr : other ∈ rest
    · rw [if_pos hr, if_pos (List.mem_cons_of_mem _ hr)]
    · simp [hr]

@[simp] theorem nextId_freeAll (table : TaskTable) (ids : List Nat) :
    (freeAll table ids).2.nextId = table.nextId := by
  induction ids generalizing table with
  | nil => rfl
  | cons id rest ih => exact ih (table.reclaim id).2

@[simp] theorem lowWater_freeAll (table : TaskTable) (ids : List Nat) :
    (freeAll table ids).2.lowWater = table.lowWater := by
  induction ids generalizing table with
  | nil => rfl
  | cons id rest ih => exact ih (table.reclaim id).2

/-- The task as it is once a worker has it. -/
def handedOut (s : Scheduler) (now : Nat) (task : Task) (left right : Binary64) : Task :=
  { task with
    left := .literal left
    right := .literal right
    status := .inProgress
    attempts := task.attempts + 1
    deadline := s.lease.map (now + ·.nanoseconds) }

theorem get?_dispatch (hg : s.table.get? task.id = some task)
    (below : ∀ dep ∈ task.dependencies, dep < task.id)
    (leaf : ∀ dep ∈ task.dependencies, ∀ id, ¬ s.table.arena.Refers dep id)
    (now : Nat) (left right : Binary64) (redispatch : Bool) (id : Nat) :
    (s.dispatch now task left right redispatch).2.table.get? id =
      if id = task.id then some (s.handedOut now task left right)
      else if id ∈ task.dependencies then none else s.table.get? id := by
  let change (other : Task) : Task := s.handedOut now other left right
  have hmod : ∀ id, (s.table.modify task.id change).get? id =
      if id = task.id then some (s.handedOut now task left right) else s.table.get? id := by
    intro id
    rw [TaskTable.get?_modify]
    split
    · next he => rw [he, hg]; rfl
    · next he => rw [Option.map_congr fun other _ => rfl, Option.map_id']
  have hfree := @get?_freeAll (s.table.modify task.id change) task.dependencies (by
    rintro dep hd id ⟨reader, hr, hm⟩
    have hr' := hmod dep
    rw [if_neg (Nat.ne_of_lt (below dep hd))] at hr'
    exact leaf dep hd id ⟨reader, hr'.symm.trans hr, hm⟩) id
  refine hfree.trans ?_
  rw [hmod]
  by_cases he : id = task.id
  · rw [if_neg fun hd => absurd (below id hd) (by omega)]
    simp only [he, if_true]
  · simp only [he, if_false]

/-- An invalidation removes the live tasks of the expression and no others. -/
theorem get?_invalidate (h : Coherent s) (hg : s.table.get? task.id = some task) (obstacle : Obstacle)
    (id : Nat) : (s.invalidate task obstacle).table.get? id =
      (s.table.get? id).filter (·.owner != task.owner) := by
  obtain ⟨root, ho, _⟩ := h.owned task.id task hg
  have hroot : (s.registry.invalidate task.owner obstacle.reason).2.rootTask? task.owner = some root :=
    (Registry.rootTask?_moveTo ..).trans (Registry.rootTask?_of_openRoot? ho)
  have htable : (s.invalidate task obstacle).table =
      ((s.table.reclaim root).2.reclaim task.id).2 := by
    simp only [invalidate, hroot]
  have hgone : (s.table.reclaim root).2.get? task.id = none := by
    rw [h.get?_reclaim_root ho, hg, Option.filter_some_neg (by simp)]
  rw [htable]
  exact (Arena.get?_reclaim_absent hgone id).trans (h.get?_reclaim_root ho id)

/-- A completed root was the last live task of its expression. -/
theorem owner_ne_of_finished (h : Coherent s) (hg : s.table.get? task.id = some task)
    (ho : s.registry.openRoot? task.owner = some task.id) (hd : task.dependencies = []) {id : Nat}
    {other : Task} (hother : s.table.get? id = some other) (hne : id ≠ task.id) :
    other.owner ≠ task.owner := by
  intro hsame
  obtain ⟨user, reader, hu, hm⟩ := h.used id other hother (by rw [hsame, ho]; simpa using hne.symm)
  have hreach := h.reaches hother (hsame ▸ ho)
  rcases hreach.cases_head with he | ⟨dep, ⟨top, htop, hdep⟩, _⟩
  · exact hne he.symm
  · obtain rfl : task = top := Option.some.inj (hg.symm.trans htop)
    rw [hd] at hdep
    cases hdep

theorem refusal?_eq_none (h : refusal? task = none) : task.isDone = false ∧ task.attempts ≠ 0 := by
  unfold refusal? at h
  split at h
  · cases h
  · split at h
    · cases h
    · next hd ha => exact ⟨Bool.eq_false_iff.mpr hd, ha⟩

/-- A live task that takes a report is out at a worker. -/
theorem Coherent.inProgress_of_awaited (h : Coherent s) {id : Nat} (hg : s.table.get? id = some task)
    (hr : refusal? task = none) : task.status = .inProgress := by
  obtain ⟨hd, ha⟩ := refusal?_eq_none hr
  cases hs : task.status with
  | pending => exact absurd (h.untried id task hg hs) ha
  | inProgress => rfl
  | completed => rw [Task.isDone, hs] at hd; cases hd

/-- The task as it is once its result has come in. -/
def withResult (task : Task) (value : Binary64) : Task :=
  { task with result := value, status := .completed, deadline := none }

/-- A report that is taken, but for the end of the expression. -/
def record (s : Scheduler) (id : Nat) (value : Binary64) : Scheduler :=
  { s with
    table := s.table.modify id (withResult · value)
    metrics := s.metrics.record .taskCompleted }

theorem report_of_awaited {id : Nat} (hp : s.poisoned = false) (hg : s.table.get? id = some task)
    (hr : refusal? task = none) (value : Binary64) :
    s.report id value = (.ok (), (s.record id value).finishRoot task value) := by
  rw [report, if_neg (Bool.eq_false_iff.mp hp)]
  simp only [hg, hr]
  rfl

/-- What a report that is refused answers and leaves behind. Behind a poisoned lock it is not even counted. -/
inductive Refused (s : Scheduler) (id : Nat) : Failure → Scheduler → Prop
  | locked : s.poisoned = true → Refused s id .tableLockPoisoned s
  | unknown : s.poisoned = false → s.table.get? id = none → Refused s id (.taskNotFound id) s.refuse
  | unawaited {task : Task} {refusal : Refusal} : s.poisoned = false → s.table.get? id = some task →
      refusal? task = some refusal → Refused s id (.taskNotAwaitingResult id refusal.reason) s.refuse

theorem Refused.elim {id : Nat} {failure : Failure} {motive : Scheduler → Prop}
    (h : Refused s id failure t) (before : motive s) (counted : motive s.refuse) : motive t := by
  cases h with
  | locked => exact before
  | unknown => exact counted
  | unawaited => exact counted

theorem Refused.unchanged {id : Nat} {failure : Failure} (h : Refused s id failure t) :
    t.table = s.table ∧ t.registry = s.registry := by
  cases h <;> exact ⟨rfl, rfl⟩

theorem report_of_poisoned (h : s.poisoned = true) (id : Nat) (value : Binary64) :
    s.report id value = (.error .tableLockPoisoned, s) := by
  simp only [report, h, if_true]

theorem report_of_refused {id : Nat}
    (h : s.poisoned = false → ∀ task, s.table.get? id = some task → refusal? task ≠ none)
    (value : Binary64) :
    ∃ failure t, Refused s id failure t ∧ s.report id value = (.error failure, t) := by
  cases hp : s.poisoned with
  | true => exact ⟨_, s, .locked hp, report_of_poisoned hp id value⟩
  | false =>
    simp only [report, hp, Bool.false_eq_true, if_false]
    cases hg : s.table.get? id with
    | none => exact ⟨_, _, .unknown hp hg, rfl⟩
    | some task =>
      cases hr : refusal? task with
      | none => exact absurd hr (h hp task hg)
      | some refusal => exact ⟨_, _, .unawaited hp hg hr, by simp only [hr]⟩

theorem get?_record (hg : s.table.get? task.id = some task) (value : Binary64) (id : Nat) :
    (s.record task.id value).table.get? id =
      if id = task.id then some (withResult task value) else s.table.get? id := by
  refine (TaskTable.get?_modify ..).trans ?_
  split
  · next he => rw [he, hg]; rfl
  · rw [Option.map_congr fun other _ => rfl, Option.map_id']

theorem finishRoot_of_inner (ho : s.registry.rootTask? task.owner ≠ some task.id) (value : Binary64) :
    s.finishRoot task value = s := by
  rw [finishRoot, if_neg ho]

theorem finishRoot_of_root (ho : s.registry.rootTask? task.owner = some task.id) (value : Binary64) :
    (s.finishRoot task value).registry = (s.registry.complete task.owner value).2 ∧
      (s.finishRoot task value).table = (s.table.reclaim task.id).2 := by
  rw [finishRoot, if_pos ho]
  exact ⟨rfl, rfl⟩

/-- The report for a root closes its expression. -/
theorem get?_finishRoot (h : Coherent s) (hg : s.table.get? task.id = some task)
    (hd : task.dependencies = []) (ho : s.registry.openRoot? task.owner = some task.id)
    (value : Binary64) (id : Nat) :
    ((s.record task.id value).finishRoot task value).table.get? id =
      (s.table.get? id).filter (·.owner != task.owner) := by
  have hroot : (s.record task.id value).registry.rootTask? task.owner = some task.id :=
    Registry.rootTask?_of_openRoot? ho
  have hleaf : ∀ dep, ¬ (s.record task.id value).table.arena.Refers task.id dep := by
    rintro dep ⟨reader, hr, hm⟩
    have hrec := get?_record hg value task.id
    rw [if_pos rfl] at hrec
    obtain rfl := Option.some.inj (hrec.symm.trans hr)
    rw [show (withResult task value).dependencies = task.dependencies from rfl, hd] at hm
    cases hm
  rw [(finishRoot_of_root hroot value).2]
  refine (Arena.get?_reclaim_leaf hleaf id).trans ?_
  split
  · next he => rw [he, hg, Option.filter_some_neg (by simp)]
  · next he =>
    refine (get?_record hg value id).trans ?_
    rw [if_neg he]
    cases hother : s.table.get? id with
    | none => rfl
    | some other =>
      have hne := owner_ne_of_finished h hg ho hd hother he
      rw [Option.filter_some_pos (by simpa using hne)]

namespace Coherent

/-- Nothing but what is recorded besides the tasks has changed. -/
theorem of_same_tasks (h : Coherent s) (hg : ∀ id, t.table.get? id = s.table.get? id)
    (ho : ∀ other, t.registry.openRoot? other = s.registry.openRoot? other)
    (hr : t.registry.Regular) (hn : t.table.nextId = s.table.nextId)
    (hm : ∀ id task, s.table.get? id = some task → id < t.table.lowWater → task.isDone = true)
    (hl : t.table.lowWater ≤ s.table.nextId) : Coherent t := by
  have refers : ∀ user id, t.table.arena.Refers user id ↔ s.table.arena.Refers user id := by
    intro user id
    have hu : t.table.arena.get? user = s.table.arena.get? user := hg user
    simp only [Arena.Refers, hu]
  refine ⟨hr, ?owned, ?rooted, ?reads, ?used, ?used_once, ?distinct, ?settled,
    ?untried, ?bounded, ?marked, ?mark_le⟩ <;> simp only [hg, ho, hn, refers]
  case owned => exact h.owned
  case rooted => exact h.rooted
  case reads => exact h.reads
  case used => exact h.used
  case used_once => exact h.used_once
  case distinct => exact h.distinct
  case settled => exact h.settled
  case untried => exact h.untried
  case bounded => exact h.bounded
  case marked => exact hm
  case mark_le => exact hl

theorem refuse (h : Coherent s) : Coherent s.refuse :=
  h.of_same_tasks (fun _ => rfl) (fun _ => rfl) h.regular rfl h.marked h.mark_le

theorem poison (h : Coherent s) : Coherent s.poison :=
  h.of_same_tasks (fun _ => rfl) (fun _ => rfl) h.regular rfl h.marked h.mark_le

theorem advance (h : Coherent s) : Coherent { s with table := s.table.advance } := by
  refine h.of_same_tasks s.table.get?_advance (fun _ => rfl) h.regular s.table.nextId_advance ?_ ?_
  · intro id task hg hlt
    exact TaskTable.isDone_of_lt_advance h.marked hg hlt
  · exact TaskTable.lowWater_advance_le h.bounded

/-- In a coherent state a task needs attention only to be handed out or for a division by zero. -/
theorem attention_cases (h : Coherent s) {found : Attention} (hg : s.table.get? task.id = some task)
    (ha : s.table.attention s.registry now task = some found) :
    task.isDone = false ∧ (task.isInProgress = true → task.leaseExpired now = true) ∧
      ∃ left right, s.table.readiness task.left = .ready left ∧
        s.table.readiness task.right = .ready right ∧
        ((task.operator = .div ∧ right.isZero = true ∧ found = .invalidate .divisionByZero) ∨
          (¬ (task.operator = .div ∧ right.isZero = true) ∧
            found = .dispatch left right task.isInProgress)) := by
  obtain ⟨hd, hs | ⟨hl, ho⟩⟩ := TaskTable.attention_cases ha
  · obtain ⟨root, ho, _⟩ := h.owned task.id task hg
    obtain ⟨record, hf, hopen, _⟩ := Registry.openRoot?_eq_some.mp ho
    simp only [Registry.status?, hf, Option.map_some, Option.some.injEq, reduceCtorEq, false_or] at hs
    rw [hs] at hopen
    cases hopen
  · refine ⟨hd, hl, ?_⟩
    rcases TaskTable.attentionForOperands_cases ho with ⟨dep, hm, hn⟩ | hr
    · obtain ⟨_, other, hother, _⟩ := h.reads task.id task dep hg hm
      rw [hn] at hother
      cases hother
    · exact hr

theorem leaf_of_ready (h : Coherent s) {left right : Binary64}
    (hl : s.table.readiness task.left = .ready left)
    (hr : s.table.readiness task.right = .ready right) :
    ∀ dep ∈ task.dependencies, ∀ id, ¬ s.table.arena.Refers dep id := by
  intro dep hd
  obtain ⟨other, hother, hdone⟩ := TaskTable.done_of_ready hl hr dep hd
  apply h.not_refers_of_settled hother
  intro hp
  rw [Task.isDone, hp] at hdone
  cases hdone

theorem invalidate (h : Coherent s) (hg : s.table.get? task.id = some task) :
    Coherent (s.invalidate task .divisionByZero) := by
  apply h.close task.owner (get?_invalidate h hg _)
  · intro other
    exact s.registry.openRoot?_moveTo_terminal task.owner other rfl
  · exact h.regular.moveTo task.owner fun reason hs => (Stage.invalid.inj hs).symm
  · simp only [Scheduler.invalidate]
    split <;> rfl
  · simp only [Scheduler.invalidate]
    split <;> rfl

theorem dispatch (h : Coherent s) (hg : s.table.get? task.id = some task) {left right : Binary64}
    (hl : s.table.readiness task.left = .ready left)
    (hr : s.table.readiness task.right = .ready right) (hd : task.isDone = false) (now : Nat)
    (redispatch : Bool) : Coherent (s.dispatch now task left right redispatch).2 := by
  have leaf := h.leaf_of_ready hl hr
  have below := fun dep hm => (h.reads task.id task dep hg hm).1
  have hget := get?_dispatch hg below leaf now left right redispatch
  refine h.settle (s.handedOut now task left right) hg leaf rfl rfl ?_ ?_ ?_ hget
    (s.registry.openRoot?_markCalculating task.owner) (h.regular.markCalculating task.owner) ?_ ?_
  · simp [handedOut]
  · simp [handedOut, Task.isDone]
  · simp [hd]
  · exact nextId_freeAll ..
  · exact lowWater_freeAll ..

/-- A report is refused, is recorded, or closes the expression whose root it is for. -/
theorem report_cases (h : Coherent s) (id : Nat) (value : Binary64) :
    (∃ failure t, Refused s id failure t ∧ s.report id value = (.error failure, t)) ∨
    ∃ task, task.id = id ∧ s.table.get? task.id = some task ∧ task.status = .inProgress ∧
      ((s.registry.openRoot? task.owner ≠ some task.id ∧
          s.report id value = (.ok (), s.record task.id value)) ∨
        ∃ t, s.registry.openRoot? task.owner = some task.id ∧ s.report id value = (.ok (), t) ∧
          t.registry = (s.registry.complete task.owner value).2 ∧
          (∀ other, t.table.get? other = (s.table.get? other).filter (·.owner != task.owner)) ∧
          t.table.nextId = s.table.nextId ∧ t.table.lowWater = s.table.lowWater) := by
  by_cases hr : s.poisoned = false ∧ ∃ task, s.table.get? id = some task ∧ refusal? task = none
  · obtain ⟨hlock, task, hg, hr⟩ := hr
    obtain rfl : task.id = id := Arena.id_of_get? hg
    have hp := h.inProgress_of_awaited hg hr
    refine .inr ⟨task, rfl, hg, hp, ?_⟩
    rw [report_of_awaited hlock hg hr]
    by_cases ho : s.registry.openRoot? task.owner = some task.id
    · have hd := h.settled task.id task hg (by simp [hp])
      obtain ⟨hreg, htab⟩ := @finishRoot_of_root (s.record task.id value) task
        (Registry.rootTask?_of_openRoot? ho) value
      refine .inr ⟨_, ho, rfl, hreg, get?_finishRoot h hg hd ho value, ?_, ?_⟩
      · rw [htab]
        rfl
      · rw [htab]
        rfl
    · refine .inl ⟨ho, ?_⟩
      obtain ⟨root, hroot, _⟩ := h.owned task.id task hg
      rw [finishRoot_of_inner]
      apply ne_of_eq_of_ne (Registry.rootTask?_of_openRoot? hroot)
      rwa [hroot] at ho
  · exact .inl (report_of_refused (fun hlock task hg hn => hr ⟨hlock, task, hg, hn⟩) value)

theorem report (h : Coherent s) (id : Nat) (value : Binary64) : Coherent (s.report id value).2 := by
  rcases h.report_cases id value with
    ⟨failure, t, hf, he⟩ | ⟨task, rfl, hg, hp, ⟨ho, he⟩ | ⟨t, ho, he, hreg, hget, hn, hl⟩⟩
  · rw [he]
    exact hf.elim h h.refuse
  · rw [he]
    have hd := h.settled task.id task hg (by simp [hp])
    have hget : ∀ other, (s.record task.id value).table.get? other =
        if other = task.id then some (withResult task value)
        else if other ∈ task.dependencies then none else s.table.get? other := by
      intro other
      rw [get?_record hg, hd]
      simp
    exact h.settle (withResult task value) hg (by simp [hd]) rfl hd (by simp [withResult]) (fun _ => ho)
      (fun _ => rfl) hget (fun _ => rfl) h.regular rfl rfl
  · rw [he]
    apply h.close task.owner hget ?_ ?_ hn hl
    · intro other
      rw [hreg]
      exact s.registry.openRoot?_moveTo_terminal task.owner other rfl
    · rw [hreg]
      exact h.regular.moveTo task.owner (by simp)

end Coherent

end ArithDispatch.Scheduler
