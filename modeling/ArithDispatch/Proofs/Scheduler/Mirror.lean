import ArithDispatch.Proofs.Scheduler.Frame

/-! Two schedulers of which one has a single expression of the other, with its ids counted from 1. What is
done to this expression can be done in both, and what is done to others does not show. -/
namespace ArithDispatch

/-- The same operand when the first `offset` ids do not count. -/
def Operand.lower (offset : Nat) : Operand → Operand
  | literal value => literal value
  | reference id => reference (id - offset)

def Task.lower (offset : Nat) (task : Task) : Task :=
  { task with
    id := task.id - offset
    left := task.left.lower offset
    right := task.right.lower offset }

def TaskPayload.lower (offset : Nat) (payload : TaskPayload) : TaskPayload :=
  { payload with id := payload.id - offset }

def ExpressionRecord.lower (offset : Nat) (record : ExpressionRecord) : ExpressionRecord :=
  { record with rootTask := record.rootTask.map (· - offset) }

def Failure.lower (offset : Nat) : Failure → Failure
  | taskNotFound task => taskNotFound (task - offset)
  | taskNotAwaitingResult task reason => taskNotAwaitingResult (task - offset) reason
  | failure => failure

theorem Task.lower_dependencies (offset : Nat) (task : Task) :
    (task.lower offset).dependencies = task.dependencies.map (· - offset) := by
  obtain ⟨_, left, _, right⟩ := task
  cases left <;> cases right <;> rfl

theorem TaskTable.lower_taskOfNode {offset base : Nat} (h : base = offset + 1) (owner : String)
    (durations : OperationDurations) (i : Nat) (node : Formula.Node) :
    (taskOfNode owner durations base i node).lower offset = taskOfNode owner durations 1 i node := by
  have hid : ∀ j, base + j - offset = 1 + j := by omega
  obtain ⟨left, op, right⟩ := node
  cases left <;> cases right <;> simp [taskOfNode, Task.lower, Operand.shift, Operand.lower, hid]

namespace Scheduler

/-- An expression with its ids, which are the first `size` behind `offset`. -/
structure Window where
  owner : String
  offset : Nat
  size : Nat
  deriving DecidableEq, Repr

def Window.contains (w : Window) (id : Nat) : Bool := w.offset < id && id ≤ w.offset + w.size

/-- All that `r` has is the expression, with the same record and the same live tasks as in `s`, behind a lock
that is poisoned only if that of `s` is. -/
structure Mirrors (w : Window) (s r : Scheduler) : Prop where
  durations : r.durations = s.durations
  lease : r.lease = s.lease
  lock : r.poisoned = s.poisoned
  record : r.registry.find? w.owner = (s.registry.find? w.owner).map (·.lower w.offset)
  tasks : ∀ id, r.table.get? id =
    ((s.table.get? (id + w.offset)).filter (·.owner == w.owner)).map (·.lower w.offset)
  inside : ∀ id task, s.table.get? id = some task → (task.owner = w.owner ↔ w.contains id = true)
  /-- Before the expression is accepted, no id has been given out. -/
  unborn : s.registry.find? w.owner = none → r.table.nextId = 1

namespace Mirrors
variable {w : Window} {s t r q : Scheduler} {task : Task} {id now : Nat}

theorem offset_lt (h : Mirrors w s r) (hg : s.table.get? id = some task) (ho : task.owner = w.owner) :
    w.offset < id := by
  have hc := (h.inside id task hg).mp ho
  simp only [Window.contains, Bool.and_eq_true, decide_eq_true_eq] at hc
  exact hc.1

theorem get?_lower (h : Mirrors w s r) (hg : s.table.get? id = some task) (ho : task.owner = w.owner) :
    r.table.get? (id - w.offset) = some (task.lower w.offset) := by
  have hlt := h.offset_lt hg ho
  rw [h.tasks, Nat.sub_add_cancel (Nat.le_of_lt hlt), hg, Option.filter_some_pos (by simpa using ho)]
  rfl

theorem get?_lower_self (h : Mirrors w s r) (hg : s.table.get? task.id = some task)
    (ho : task.owner = w.owner) :
    r.table.get? (task.lower w.offset).id = some (task.lower w.offset) :=
  h.get?_lower hg ho

theorem exists_lower (h : Mirrors w s r) (hg : r.table.get? id = some task) :
    ∃ other, s.table.get? (id + w.offset) = some other ∧ other.owner = w.owner ∧
      task = other.lower w.offset := by
  rw [h.tasks, Option.map_eq_some_iff] at hg
  obtain ⟨other, hf, rfl⟩ := hg
  obtain ⟨hg, ho⟩ := Option.filter_eq_some_iff.mp hf
  exact ⟨other, hg, by simpa using ho, rfl⟩

theorem get?_eq_none (h : Mirrors w s r) (hid : w.contains id = true) (hg : s.table.get? id = none) :
    r.table.get? (id - w.offset) = none := by
  simp only [Window.contains, Bool.and_eq_true, decide_eq_true_eq] at hid
  rw [h.tasks, Nat.sub_add_cancel (Nat.le_of_lt hid.1), hg]
  rfl

theorem owner_eq (h : Mirrors w s r) (hg : r.table.get? id = some task) : task.owner = w.owner := by
  obtain ⟨other, _, ho, rfl⟩ := h.exists_lower hg
  exact ho

theorem status? (h : Mirrors w s r) : r.registry.status? w.owner = s.registry.status? w.owner := by
  rw [Registry.status?, h.record, Option.map_map]
  rfl

theorem summary? (h : Mirrors w s r) : r.registry.summary? w.owner = s.registry.summary? w.owner := by
  rw [Registry.summary?, h.record, Option.map_map]
  rfl

theorem openRoot? (h : Mirrors w s r) :
    r.registry.openRoot? w.owner = (s.registry.openRoot? w.owner).map (· - w.offset) := by
  rw [Registry.openRoot?, h.record, Registry.openRoot?]
  cases s.registry.find? w.owner with
  | none => rfl
  | some record =>
    simp only [Option.map_some, Option.bind_some, ExpressionRecord.openRoot?, ExpressionRecord.lower]
    split <;> rfl

theorem record_moveTo (h : Mirrors w s r) (stage : Stage) :
    (r.registry.moveTo w.owner stage).2.find? w.owner =
      ((s.registry.moveTo w.owner stage).2.find? w.owner).map (·.lower w.offset) := by
  rw [Registry.find?_moveTo_self, Registry.find?_moveTo_self, h.record, Option.map_map, Option.map_map]
  refine Option.map_congr fun record _ => ?_
  simp only [Function.comp_apply, ExpressionRecord.lower]
  split <;> rfl

theorem refuse (h : Mirrors w s r) : Mirrors w s.refuse r.refuse :=
  ⟨h.durations, h.lease, h.lock, h.record, h.tasks, h.inside, h.unborn⟩

/-- Work on other expressions does not show. -/
theorem frame (h : Mirrors w s r) (f : Frame w.owner s t) : Mirrors w t r where
  durations := h.durations.trans f.durations.symm
  lease := h.lease.trans f.lease.symm
  lock := h.lock.trans f.lock.symm
  record := f.record ▸ h.record
  tasks id := by rw [h.tasks, f.tasks]
  inside id task hg := by
    obtain ⟨old, hold, hsame⟩ := f.live id task hg
    rw [← hsame]
    exact h.inside id old hold
  unborn hn := h.unborn (f.record ▸ hn)

/-- Both work on the expression. -/
theorem step (h : Mirrors w s r) (hs : Extends s t) (hr : Extends r q)
    (hlock : t.poisoned = s.poisoned) (hlock' : q.poisoned = r.poisoned) (hn : q.table.nextId = r.table.nextId)
    (hrecord : q.registry.find? w.owner = (t.registry.find? w.owner).map (·.lower w.offset))
    (htasks : ∀ id, q.table.get? id =
      ((t.table.get? (id + w.offset)).filter (·.owner == w.owner)).map (·.lower w.offset))
    (hlive : ∀ id task, t.table.get? id = some task →
      ∃ old, s.table.get? id = some old ∧ old.owner = task.owner) : Mirrors w t q where
  durations := hr.durations.trans (h.durations.trans hs.durations.symm)
  lease := hr.lease.trans (h.lease.trans hs.lease.symm)
  lock := hlock'.trans (h.lock.trans hlock.symm)
  record := hrecord
  tasks := htasks
  inside id task hg := by
    obtain ⟨old, hold, hsame⟩ := hlive id task hg
    rw [← hsame]
    exact h.inside id old hold
  unborn hnone := hn.trans (h.unborn (hs.records _ hnone))

/-- Both close the expression. -/
theorem close (h : Mirrors w s r) (hs : Extends s t) (hr : Extends r q)
    (hlock : t.poisoned = s.poisoned) (hlock' : q.poisoned = r.poisoned) (hn : q.table.nextId = r.table.nextId) {stage : Stage}
    (hsreg : t.registry = (s.registry.moveTo w.owner stage).2)
    (hrreg : q.registry = (r.registry.moveTo w.owner stage).2)
    (hsget : ∀ id, t.table.get? id = (s.table.get? id).filter (·.owner != w.owner))
    (hrget : ∀ id, q.table.get? id = (r.table.get? id).filter (·.owner != w.owner)) :
    Mirrors w t q := by
  refine h.step hs hr hlock hlock' hn (hsreg ▸ hrreg ▸ h.record_moveTo stage) (fun id => ?_) fun id task hg => ?_
  · have hempty : q.table.get? id = none := by
      rw [hrget]
      cases hg : r.table.get? id with
      | none => rfl
      | some task => exact Option.filter_some_neg (by simpa using h.owner_eq hg)
    rw [hempty, hsget]
    cases s.table.get? (id + w.offset) with
    | none => rfl
    | some task =>
      by_cases ho : task.owner = w.owner
      · rw [Option.filter_some_neg (by simpa using ho)]
        rfl
      · rw [Option.filter_some_pos (by simpa using ho), Option.filter_some_neg (by simpa using ho)]
        rfl
  · rw [hsget, Option.filter_eq_some_iff] at hg
    exact ⟨task, hg.1, rfl⟩

theorem invalidate (h : Mirrors w s r) (hs : Coherent s) (hr : Coherent r)
    (hg : s.table.get? task.id = some task) (ho : task.owner = w.owner) (obstacle : Obstacle) :
    Mirrors w (s.invalidate task obstacle) (r.invalidate (task.lower w.offset) obstacle) := by
  have hlow := h.get?_lower_self hg ho
  have hsreg : (s.invalidate task obstacle).registry =
      (s.registry.moveTo w.owner (.invalid obstacle.reason)).2 := ho ▸ rfl
  have hrreg : (r.invalidate (task.lower w.offset) obstacle).registry =
      (r.registry.moveTo w.owner (.invalid obstacle.reason)).2 := ho ▸ rfl
  refine h.close (.invalidate ..) (.invalidate ..) rfl rfl ?_ hsreg hrreg ?_ ?_
  · simp only [Scheduler.invalidate]
    split <;> rfl
  · exact ho ▸ get?_invalidate hs hg obstacle
  · exact (show (task.lower w.offset).owner = w.owner from ho) ▸ get?_invalidate hr hlow obstacle

theorem readiness (h : Mirrors w s r) (hs : Coherent s) (hg : s.table.get? id = some task)
    (ho : task.owner = w.owner) {operand : Operand} (hm : task.left = operand ∨ task.right = operand) :
    r.table.readiness (operand.lower w.offset) = s.table.readiness operand := by
  cases operand with
  | literal value => rfl
  | reference dep =>
    obtain ⟨_, other, hother, hsame⟩ := hs.reads id task dep hg (Task.mem_dependencies.mpr hm)
    simp only [Operand.lower, TaskTable.readiness, hother, h.get?_lower hother (hsame.trans ho)]
    rfl

theorem attention (h : Mirrors w s r) (hs : Coherent s) (hg : s.table.get? id = some task)
    (ho : task.owner = w.owner) (now : Nat) :
    r.table.attention r.registry now (task.lower w.offset) =
      s.table.attention s.registry now task := by
  have hleft : r.table.readiness (task.lower w.offset).left = s.table.readiness task.left :=
    h.readiness hs hg ho (.inl rfl)
  have hright : r.table.readiness (task.lower w.offset).right = s.table.readiness task.right :=
    h.readiness hs hg ho (.inr rfl)
  have hstatus : r.registry.status? (task.lower w.offset).owner = s.registry.status? task.owner :=
    ho ▸ h.status?
  simp only [TaskTable.attention, TaskTable.attentionForOperands, hleft, hright, hstatus]
  rfl

theorem eq_lower_iff (h : Mirrors w s r) (hg : s.table.get? task.id = some task)
    (ho : task.owner = w.owner) : id = (task.lower w.offset).id ↔ id + w.offset = task.id := by
  have := h.offset_lt hg ho
  simp only [Task.lower]
  omega

theorem mem_lower_dependencies (h : Mirrors w s r) (hs : Coherent s)
    (hg : s.table.get? task.id = some task) (ho : task.owner = w.owner) :
    id ∈ (task.lower w.offset).dependencies ↔ id + w.offset ∈ task.dependencies := by
  rw [Task.lower_dependencies, List.mem_map]
  constructor
  · rintro ⟨dep, hdep, rfl⟩
    obtain ⟨_, other, hother, hsame⟩ := hs.reads task.id task dep hg hdep
    rwa [Nat.sub_add_cancel (Nat.le_of_lt (h.offset_lt hother (hsame.trans ho)))]
  · exact fun hdep => ⟨_, hdep, Nat.add_sub_cancel id w.offset⟩

/-- A task of the expression moves on in both, and what it read from goes. -/
theorem settle (h : Mirrors w s r) (hs : Coherent s) (next : Task)
    (hg : s.table.get? task.id = some task) (ho : task.owner = w.owner) (hse : Extends s t) (hre : Extends r q)
    (hlock : t.poisoned = s.poisoned) (hlock' : q.poisoned = r.poisoned) (hn : q.table.nextId = r.table.nextId)
    (hrecord : q.registry.find? w.owner = (t.registry.find? w.owner).map (·.lower w.offset))
    (hnext : next.owner = task.owner)
    (hget : ∀ id, t.table.get? id = if id = task.id then some next
      else if id ∈ task.dependencies then none else s.table.get? id)
    (hget' : ∀ id, q.table.get? id = if id = (task.lower w.offset).id then some (next.lower w.offset)
      else if id ∈ (task.lower w.offset).dependencies then none else r.table.get? id) :
    Mirrors w t q := by
  refine h.step hse hre hlock hlock' hn hrecord (fun id => ?_) fun id other hgt => ?_
  · rw [hget, hget']
    simp only [h.eq_lower_iff hg ho, h.mem_lower_dependencies hs hg ho]
    split
    · rw [Option.filter_some_pos (by simpa using hnext.trans ho)]
      rfl
    · split
      · rfl
      · exact h.tasks id
  · rw [hget] at hgt
    split at hgt
    · next hid =>
      obtain rfl := Option.some.inj hgt
      exact ⟨task, hid ▸ hg, hnext.symm⟩
    · split at hgt
      · cases hgt
      · exact ⟨other, hgt, rfl⟩

theorem dispatch (h : Mirrors w s r) (hs : Coherent s) (hr : Coherent r)
    (hg : s.table.get? task.id = some task) (ho : task.owner = w.owner) {left right : Binary64}
    (hleft : s.table.readiness task.left = .ready left)
    (hright : s.table.readiness task.right = .ready right) (now : Nat) (redispatch : Bool) :
    Mirrors w (s.dispatch now task left right redispatch).2
      (r.dispatch now (task.lower w.offset) left right redispatch).2 := by
  have hlow := h.get?_lower_self hg ho
  have hleft' : r.table.readiness (task.lower w.offset).left = .ready left :=
    (h.readiness hs hg ho (.inl rfl)).trans hleft
  have hright' : r.table.readiness (task.lower w.offset).right = .ready right :=
    (h.readiness hs hg ho (.inr rfl)).trans hright
  have hnext : r.handedOut now (task.lower w.offset) left right =
      (s.handedOut now task left right).lower w.offset := by
    simp only [handedOut, h.lease]
    rfl
  have hget := get?_dispatch hg (fun dep hm => (hs.reads task.id task dep hg hm).1)
    (hs.leaf_of_ready hleft hright) now left right redispatch
  have hget' := get?_dispatch hlow (fun dep hm => (hr.reads _ _ dep hlow hm).1)
    (hr.leaf_of_ready hleft' hright') now left right redispatch
  rw [hnext] at hget'
  have hmark := h.record_moveTo .calculating
  rw [← Registry.markCalculating_eq_moveTo, ← Registry.markCalculating_eq_moveTo, ← ho] at hmark
  exact h.settle hs (s.handedOut now task left right) hg ho (.dispatch ..) (.dispatch ..) rfl rfl
    (nextId_freeAll ..) (ho ▸ hmark) rfl hget hget'

theorem recorded (h : Mirrors w s r) (hs : Coherent s) (hr : Coherent r)
    (hg : s.table.get? task.id = some task) (ho : task.owner = w.owner) (hp : task.status ≠ .pending)
    (value : Binary64) :
    Mirrors w (s.record task.id value) (r.record (task.lower w.offset).id value) := by
  have hlow := h.get?_lower_self hg ho
  have hd := hs.settled _ task hg hp
  have hd' := hr.settled _ _ hlow hp
  refine h.settle hs (withResult task value) hg ho (.record ..) (.record ..) rfl rfl rfl h.record rfl
    (fun id => ?_) fun id => ?_
  · rw [get?_record hg, hd]
    simp
  · rw [get?_record hlow, hd']
    simp only [List.not_mem_nil, if_false]
    rfl

/-- The root of the expression is completed. -/
theorem finished (h : Mirrors w s r) (hs : Coherent s) (hr : Coherent r)
    (hg : s.table.get? task.id = some task) (ho : task.owner = w.owner)
    (hp : task.status ≠ .pending) (hroot : s.registry.openRoot? task.owner = some task.id)
    (value : Binary64) :
    Mirrors w ((s.record task.id value).finishRoot task value)
      ((r.record (task.lower w.offset).id value).finishRoot (task.lower w.offset) value) := by
  have hown : (task.lower w.offset).owner = w.owner := ho
  have hlow := h.get?_lower_self hg ho
  have hroot' : r.registry.openRoot? (task.lower w.offset).owner = some (task.lower w.offset).id := by
    rw [hown, h.openRoot?, ← ho, hroot]
    rfl
  obtain ⟨hsreg, _⟩ := @finishRoot_of_root (s.record task.id value) task
    (Registry.rootTask?_of_openRoot? hroot) value
  obtain ⟨hrreg, hrtab⟩ := @finishRoot_of_root (r.record (task.lower w.offset).id value)
    (task.lower w.offset) (Registry.rootTask?_of_openRoot? hroot') value
  have hget := get?_finishRoot hs hg (hs.settled _ task hg hp) hroot value
  have hget' := get?_finishRoot hr hlow (hr.settled _ _ hlow hp) hroot' value
  rw [ho] at hsreg hget
  rw [hown] at hrreg hget'
  refine h.close (.trans (.record ..) (.finishRoot ..)) (.trans (.record ..) (.finishRoot ..))
    (poisoned_finishRoot ..) (poisoned_finishRoot ..) ?_ hsreg hrreg hget hget'
  rw [hrtab]
  rfl

/-- A report for one of the ids gets the same answer from both. -/
theorem report (h : Mirrors w s r) (hs : Coherent s) (hr : Coherent r) (hid : w.contains id = true)
    (value : Binary64) :
    (r.report (id - w.offset) value).1 = (s.report id value).1.mapError (Failure.lower w.offset) ∧
      Mirrors w (s.report id value).2 (r.report (id - w.offset) value).2 := by
  by_cases hlock : s.poisoned = true
  · rw [report_of_poisoned hlock, report_of_poisoned (h.lock.trans hlock)]
    exact ⟨rfl, h⟩
  have hlock' : ¬ r.poisoned = true := h.lock ▸ hlock
  cases hg : s.table.get? id with
  | none =>
    simp only [Scheduler.report, if_neg hlock, if_neg hlock', hg, h.get?_eq_none hid hg]
    exact ⟨rfl, h.refuse⟩
  | some task =>
    obtain rfl : task.id = id := Arena.id_of_get? hg
    have ho := (h.inside _ task hg).mpr hid
    have hlow := h.get?_lower_self hg ho
    have hsame : refusal? (task.lower w.offset) = refusal? task := rfl
    rw [show task.id - w.offset = (task.lower w.offset).id from rfl]
    cases hrefusal : refusal? task with
    | some refusal =>
      simp only [Scheduler.report, if_neg hlock, if_neg hlock', hg, hlow, hsame, hrefusal]
      exact ⟨rfl, h.refuse⟩
    | none =>
      rw [report_of_awaited (Bool.eq_false_iff.mpr hlock) hg hrefusal,
        report_of_awaited (Bool.eq_false_iff.mpr hlock') hlow (hsame.trans hrefusal)]
      refine ⟨rfl, ?_⟩
      have hp : task.status ≠ .pending := by
        rw [hs.inProgress_of_awaited hg hrefusal]
        simp
      by_cases hroot : s.registry.openRoot? task.owner = some task.id
      · exact h.finished hs hr hg ho hp hroot value
      · obtain ⟨root, hopen, _⟩ := hs.owned task.id task hg
        obtain ⟨top, htop, howner, _⟩ := hs.rooted task.owner root hopen
        have hne : root ≠ task.id := by
          rintro rfl
          exact hroot hopen
        have hopen' : r.registry.openRoot? (task.lower w.offset).owner = some (root - w.offset) := by
          rw [show (task.lower w.offset).owner = w.owner from ho, h.openRoot?, ← ho, hopen]
          rfl
        rw [finishRoot_of_inner, finishRoot_of_inner]
        · exact h.recorded hs hr hg ho hp value
        · refine ne_of_eq_of_ne (Registry.rootTask?_of_openRoot? hopen') ?_
          have := h.offset_lt hg ho
          have := h.offset_lt htop (howner.trans ho)
          simp only [Task.lower, ne_eq, Option.some.injEq]
          omega
        · refine ne_of_eq_of_ne (Registry.rootTask?_of_openRoot? hopen) ?_
          simpa using hne

/-- The expression is accepted with the next free ids. -/
theorem commit (h : Mirrors w s r) (hs : Coherent s) (hr : Coherent r)
    (hnew : s.registry.find? w.owner = none) {graph : Formula.Graph}
    (hoffset : s.table.nextId = w.offset + 1) (hsize : graph.size = w.size) {source : String}
    (hst : t.table = (s.table.commit graph w.owner s.durations).2)
    (hsf : ∀ other, t.registry.find? other =
      if other = w.owner then some (.pending source (s.table.nextId + graph.root))
      else s.registry.find? other)
    (hqt : q.table = (r.table.commit graph w.owner r.durations).2)
    (hqf : ∀ other, q.registry.find? other =
      if other = w.owner then some (.pending source (r.table.nextId + graph.root))
      else r.registry.find? other)
    (hse : Extends s t) (hre : Extends r q) (hlock : t.poisoned = s.poisoned)
    (hlock' : q.poisoned = r.poisoned) : Mirrors w t q where
  durations := hre.durations.trans (h.durations.trans hse.durations.symm)
  lease := hre.lease.trans (h.lease.trans hse.lease.symm)
  lock := hlock'.trans (h.lock.trans hlock.symm)
  record := by
    rw [hqf, hsf, if_pos rfl, if_pos rfl, h.unborn hnew, hoffset]
    simp only [ExpressionRecord.pending, ExpressionRecord.lower, Option.map_some]
    rw [show w.offset + 1 + graph.root - w.offset = 1 + graph.root by omega]
  tasks id := by
    have hone := h.unborn hnew
    rw [hqt, hst]
    cases id with
    | zero =>
      rw [TaskTable.get?_commit_of_lt (by omega), TaskTable.get?_commit_of_lt (by omega)]
      exact h.tasks 0
    | succ i =>
      rw [show i + 1 = r.table.nextId + i by omega, TaskTable.get?_commit_add hr.bounded,
        show r.table.nextId + i + w.offset = s.table.nextId + i by omega,
        TaskTable.get?_commit_add hs.bounded]
      cases graph.nodes[i]? with
      | none => rfl
      | some node =>
        simp only [Option.map_some]
        rw [Option.filter_some_pos (by simp [TaskTable.taskOfNode]), Option.map_some, hone, h.durations,
          TaskTable.lower_taskOfNode hoffset]
  inside id task hg := by
    rcases TaskTable.get?_commit_cases hs.bounded (hst ▸ hg) with ⟨hlt, hg⟩ | ⟨i, node, rfl, hn, rfl⟩
    · have hne := hs.owner_ne_of_new hnew hg
      have hc : w.contains id = false := by
        simp only [Window.contains, Bool.and_eq_false_iff, decide_eq_false_iff_not]
        omega
      simp [hne, hc]
    · have hi : i < graph.size := (List.getElem?_eq_some_iff.mp hn).1
      have hc : w.contains (s.table.nextId + i) = true := by
        simp only [Window.contains, Bool.and_eq_true, decide_eq_true_eq]
        omega
      exact iff_of_true rfl hc
  unborn hn := by
    rw [hsf, if_pos rfl] at hn
    cases hn

theorem accept_self (h : Mirrors w s r) (hs : Coherent s) (hr : Coherent r) (hsound : s.poisoned = false)
    (hnew : s.registry.find? w.owner = none) {graph : Formula.Graph}
    (hoffset : s.table.nextId = w.offset + 1) (hsize : graph.size = w.size) (source : String) :
    (s.accept w.owner source (.graph graph)).1 = .ok () ∧
      (r.accept w.owner source (.graph graph)).1 = .ok () ∧
      Mirrors w (s.accept w.owner source (.graph graph)).2 (r.accept w.owner source (.graph graph)).2 ∧
      w.offset + w.size < (s.accept w.owner source (.graph graph)).2.table.nextId := by
  have hnew' : r.registry.find? w.owner = none := by
    rw [h.record, hnew]
    rfl
  have free {s : Scheduler} (hp : s.poisoned = false) (hn : s.registry.find? w.owner = none) :
      (s.accept w.owner source (.graph graph)).1 = .ok () :=
    accept_free hp (by simp [Registry.contains, hn])
  obtain ⟨t, he, ht, hf⟩ := accept_graph (free hsound hnew)
  obtain ⟨q, he', hq, hf'⟩ := accept_graph (free (h.lock.trans hsound) hnew')
  have hse := Extends.accept s w.owner source (.graph graph)
  have hre := Extends.accept r w.owner source (.graph graph)
  have hlock := s.poisoned_accept w.owner source (.graph graph)
  have hlock' := r.poisoned_accept w.owner source (.graph graph)
  rw [he] at hse hlock
  rw [he'] at hre hlock'
  rw [he, he']
  refine ⟨rfl, rfl, h.commit hs hr hnew hoffset hsize ht hf hq hf' hse hre hlock hlock', ?_⟩
  have hnext : t.table.nextId = s.table.nextId + graph.size := by
    rw [ht]
    rfl
  simp only
  omega

/-- Another expression is accepted, which does not get ids of the expression. -/
theorem accept_other (h : Mirrors w s r) (hs : Coherent s) {owner source : String}
    (hne : owner ≠ w.owner) (compiled : Formula.Compiled)
    (hgap : w.offset + w.size < s.table.nextId ∨
      (s.accept owner source compiled).2.table.nextId ≤ w.offset + 1) :
    Mirrors w (s.accept owner source compiled).2 r := by
  have hext := Extends.accept s owner source compiled
  have hlock := s.poisoned_accept owner source compiled
  rcases s.accept_cases owner source compiled with
    ⟨failure, he⟩ | ⟨_, ⟨value, t, _, he, ht, hf⟩ | ⟨graph, t, _, he, ht, hf⟩⟩
  · rw [he]
    exact h
  · rw [he] at hext hlock ⊢
    have hrecord : t.registry.find? w.owner = s.registry.find? w.owner := by
      rw [hf, if_neg hne.symm]
    exact h.frame ⟨hext.durations, hext.lease, hlock, by rw [ht], hrecord, fun id => by rw [ht],
      fun id task hg => ⟨task, ht ▸ hg, rfl⟩⟩
  · rw [he] at hext hlock hgap ⊢
    replace hgap : w.offset + w.size < s.table.nextId ∨ t.table.nextId ≤ w.offset + 1 := hgap
    have hrecord : t.registry.find? w.owner = s.registry.find? w.owner := by
      rw [hf, if_neg hne.symm]
    refine ⟨h.durations.trans hext.durations.symm, h.lease.trans hext.lease.symm,
      h.lock.trans hlock.symm, hrecord ▸ h.record, fun id => ?_, fun id task hg => ?_,
      fun hn => h.unborn (hrecord ▸ hn)⟩
    · rw [h.tasks, ht]
      rcases Nat.lt_or_ge (id + w.offset) s.table.nextId with hlt | hge
      · rw [TaskTable.get?_commit_of_lt hlt]
      · -- behind the ids given out so far only the new expression has tasks
        have hold : s.table.get? (id + w.offset) = none := by
          cases hg : s.table.get? (id + w.offset) with
          | none => rfl
          | some task => exact absurd (hs.bounded _ task hg) (Nat.not_lt.mpr hge)
        obtain ⟨i, hi⟩ := Nat.exists_eq_add_of_le hge
        rw [hold, hi, TaskTable.get?_commit_add hs.bounded]
        cases graph.nodes[i]? with
        | none => rfl
        | some node =>
          rw [Option.map_some, Option.filter_some_neg (by simpa [TaskTable.taskOfNode] using hne)]
          rfl
    · have hnext : t.table.nextId = s.table.nextId + graph.size := by
        rw [ht]
        rfl
      rw [ht] at hg
      rcases TaskTable.get?_commit_cases hs.bounded hg with ⟨_, hg⟩ | ⟨i, node, rfl, hn, rfl⟩
      · exact h.inside id task hg
      · have hi : i < graph.size := (List.getElem?_eq_some_iff.mp hn).1
        have hc : w.contains (s.table.nextId + i) = false := by
          simp only [Window.contains, Bool.and_eq_false_iff, decide_eq_false_iff_not]
          omega
        simp [hc, TaskTable.taskOfNode, hne]

end Mirrors

end Scheduler

end ArithDispatch
