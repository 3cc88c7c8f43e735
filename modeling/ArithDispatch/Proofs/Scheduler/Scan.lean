import ArithDispatch.Proofs.Task.Table
import ArithDispatch.Scheduler.Basic

/-! The scan of a pull: why a task needs attention, which task is found first, and the states that
the scan goes through on its way to an answer. -/
namespace ArithDispatch

namespace TaskTable
variable {table : TaskTable} {registry : Registry} {now start : Nat} {task : Task} {found : Attention}

theorem readiness_reference_ready {id : Nat} {value : Binary64}
    (h : table.readiness (.reference id) = .ready value) :
    ∃ dep, table.get? id = some dep ∧ dep.isDone = true ∧ dep.result = value := by
  simp only [readiness] at h
  split at h
  · next dep hg =>
    split at h
    · next hd => exact ⟨dep, hg, hd, Readiness.ready.inj h⟩
    · cases h
  · cases h

theorem readiness_missing {operand : Operand} (h : table.readiness operand = .missing) :
    ∃ id, operand = .reference id ∧ table.get? id = none := by
  cases operand with
  | literal value => cases h
  | reference id =>
    simp only [readiness] at h
    split at h
    · split at h <;> cases h
    · next hg => exact ⟨id, rfl, hg⟩

/-- The tasks that a ready task reads from are completed. -/
theorem done_of_ready {left right : Binary64} (hl : table.readiness task.left = .ready left)
    (hr : table.readiness task.right = .ready right) :
    ∀ dep ∈ task.dependencies, ∃ other, table.get? dep = some other ∧ other.isDone = true := by
  intro dep hd
  have hready : ∃ value, table.readiness (.reference dep) = .ready value := by
    rcases Task.mem_dependencies.mp hd with he | he
    · exact ⟨left, he ▸ hl⟩
    · exact ⟨right, he ▸ hr⟩
  obtain ⟨value, hv⟩ := hready
  obtain ⟨other, hother, hdone, _⟩ := readiness_reference_ready hv
  exact ⟨other, hother, hdone⟩

/-- Operands that are all known decide between division by zero and work for a worker. -/
theorem attentionForOperands_ready {left right : Binary64}
    (hl : table.readiness task.left = .ready left) (hr : table.readiness task.right = .ready right) :
    table.attentionForOperands task =
      if task.operator = .div ∧ right.isZero then some (.invalidate .divisionByZero)
      else some (.dispatch left right task.isInProgress) := by
  simp only [attentionForOperands, hl, hr]

theorem attentionForOperands_cases (h : table.attentionForOperands task = some found) :
    (∃ id ∈ task.dependencies, table.get? id = none) ∨
      ∃ left right, table.readiness task.left = .ready left ∧ table.readiness task.right = .ready right ∧
        ((task.operator = .div ∧ right.isZero = true ∧ found = .invalidate .divisionByZero) ∨
          (¬ (task.operator = .div ∧ right.isZero = true) ∧
            found = .dispatch left right task.isInProgress)) := by
  have lost : ∀ operand, task.left = operand ∨ task.right = operand →
      table.readiness operand = .missing → ∃ id ∈ task.dependencies, table.get? id = none := by
    intro operand hm hr
    obtain ⟨id, rfl, hg⟩ := readiness_missing hr
    exact ⟨id, Task.mem_dependencies.mpr hm, hg⟩
  cases hl : table.readiness task.left with
  | missing => exact .inl (lost task.left (.inl rfl) hl)
  | waiting =>
    cases hr : table.readiness task.right with
    | missing => exact .inl (lost task.right (.inr rfl) hr)
    | waiting => simp [attentionForOperands, hl, hr] at h
    | ready right => simp [attentionForOperands, hl, hr] at h
  | ready left =>
    cases hr : table.readiness task.right with
    | missing => exact .inl (lost task.right (.inr rfl) hr)
    | waiting => simp [attentionForOperands, hl, hr] at h
    | ready right =>
      rw [attentionForOperands_ready hl hr] at h
      split at h <;> cases h
      · next hz => exact .inr ⟨left, right, rfl, rfl, .inl ⟨hz.1, hz.2, rfl⟩⟩
      · next hz => exact .inr ⟨left, right, rfl, rfl, .inr ⟨hz, rfl⟩⟩

theorem attention_cases (h : table.attention registry now task = some found) :
    task.isDone = false ∧
      ((registry.status? task.owner = none ∨ registry.status? task.owner = some .invalid) ∨
        (task.isInProgress = true → task.leaseExpired now = true) ∧
          table.attentionForOperands task = some found) := by
  unfold attention at h
  split at h
  · cases h
  · next hd =>
    refine ⟨Bool.eq_false_iff.mpr hd, ?_⟩
    split at h
    · next hs => exact .inl (.inl hs)
    · next hs => exact .inl (.inr hs)
    · split at h
      · cases h
      · next hp => exact .inr ⟨by simpa using hp, h⟩

theorem attention_of_open {status : ExpressionStatus} (hd : task.isDone = false)
    (hs : registry.status? task.owner = some status) (hi : status ≠ .invalid) :
    table.attention registry now task =
      if task.isInProgress && !task.leaseExpired now then none
      else table.attentionForOperands task := by
  unfold attention
  rw [hd, hs]
  cases status with
  | invalid => exact absurd rfl hi
  | pending => rfl
  | calculating => rfl
  | done => rfl

theorem nextAttention_eq_none (h : table.nextAttention registry now start = none) {id : Nat}
    (hg : table.get? id = some task) (hs : start ≤ id) : table.attention registry now task = none := by
  have hid : task.id = id := Arena.id_of_get? hg
  have hm : task ∈ table.arena.startingAt start :=
    Arena.mem_startingAt.mpr ⟨by rw [hid]; exact hg, by rw [hid]; exact hs⟩
  have hn := List.findSome?_eq_none_iff.mp h task hm
  exact Option.map_eq_none_iff.mp hn

/-- What is found is a live task that needs attention, and no live task before it does. -/
theorem nextAttention_eq_some (h : table.nextAttention registry now start = some (task, found)) :
    table.get? task.id = some task ∧ start ≤ task.id ∧
      table.attention registry now task = some found ∧
      ∀ id other, table.get? id = some other → start ≤ id → id < task.id →
        table.attention registry now other = none := by
  obtain ⟨before, found', after, hl, hf, hb⟩ := List.findSome?_eq_some_iff.mp h
  obtain ⟨attention, ha, he⟩ := Option.map_eq_some_iff.mp hf
  cases he
  have hm := Arena.mem_startingAt.mp (nextAttention_mem h)
  refine ⟨hm.1, hm.2, ha, ?_⟩
  intro id other hg hs hlt
  have hid : other.id = id := Arena.id_of_get? hg
  have ho : other ∈ table.arena.startingAt start :=
    Arena.mem_startingAt.mpr ⟨by rw [hid]; exact hg, by rw [hid]; exact hs⟩
  have hsorted : (table.arena.startingAt start).Pairwise (·.id < ·.id) :=
    table.arena.ascending.filter _
  rw [hl] at ho hsorted
  -- the list ascends, so what has a smaller id stands before the task that was found
  rcases List.mem_append.mp ho with ho | ho
  · exact Option.map_eq_none_iff.mp (hb other ho)
  · rcases List.mem_cons.mp ho with rfl | ho
    · omega
    · have hafter := (List.pairwise_append.mp hsorted).2.1
      have := List.rel_of_pairwise_cons hafter ho
      omega

end TaskTable

/-- The task that a pull has handed out. -/
def Outcome.payload? : Outcome (Option TaskPayload) → Option TaskPayload
  | .ok payload => payload
  | .error _ | .panic => none

theorem Outcome.payload?_eq_some {outcome : Outcome (Option TaskPayload)} {payload : TaskPayload} :
    outcome.payload? = some payload ↔ outcome = .ok (some payload) := by
  cases outcome <;> simp [payload?]

namespace Scheduler

/-- The states that the scan of a pull goes through, each with the id from which it goes on. -/
inductive Scanning (now : Nat) (s : Scheduler) : Scheduler → Nat → Prop
  | start : Scanning now s { s with table := s.table.advance } s.table.advance.lowWater
  | sweep {t : Scheduler} {cursor : Nat} {task : Task} : Scanning now s t cursor →
      t.table.nextAttention t.registry now cursor = some (task, .sweep) →
      Scanning now s (t.sweep task) (task.id + 1)
  | invalidate {t : Scheduler} {cursor : Nat} {task : Task} {obstacle : Obstacle} :
      Scanning now s t cursor →
      t.table.nextAttention t.registry now cursor = some (task, .invalidate obstacle) →
      Scanning now s (t.invalidate task obstacle) (task.id + 1)

/-- What a pull answers and leaves behind that hands nothing out: the lock was poisoned before, nothing was
ready, or the call has panicked over the lease of the task that it found. -/
inductive Fruitless (now : Nat) (s : Scheduler) : Outcome (Option TaskPayload) → Scheduler → Prop
  | locked : s.poisoned = true → Fruitless now s (.error .tableLockPoisoned) s
  | idle {t : Scheduler} {cursor : Nat} : s.poisoned = false → Scanning now s t cursor →
      t.table.nextAttention t.registry now cursor = none → Fruitless now s (.ok none) t
  | panicked {t : Scheduler} {cursor : Nat} {task : Task} {left right : Binary64} {redispatch : Bool} :
      s.poisoned = false → Scanning now s t cursor →
      t.table.nextAttention t.registry now cursor = some (task, .dispatch left right redispatch) →
      s.leaseFits now = false → Fruitless now s .panic t.poison

variable {s t : Scheduler} {now cursor : Nat} {task : Task} {outcome : Outcome (Option TaskPayload)}

theorem Scanning.lease (h : Scanning now s t cursor) : t.lease = s.lease := by
  induction h with
  | start => rfl
  | sweep _ _ ih => exact ih
  | invalidate _ _ ih => exact ih

theorem Scanning.poisoned (h : Scanning now s t cursor) : t.poisoned = s.poisoned := by
  induction h with
  | start => rfl
  | sweep _ _ ih => exact ih
  | invalidate _ _ ih => exact ih

theorem leaseFits_congr (h : t.lease = s.lease) (now : Nat) : t.leaseFits now = s.leaseFits now := by
  rw [leaseFits, h, leaseFits]

/-- What holds before a pull, is kept by its scan and does not depend on the lock holds after it when nothing
is handed out. -/
theorem Fruitless.elim {motive : Scheduler → Prop} (h : Fruitless now s outcome t) (before : motive s)
    (scan : ∀ {t cursor}, Scanning now s t cursor → motive t)
    (poison : ∀ {t}, motive t → motive t.poison) : motive t := by
  cases h with
  | locked => exact before
  | idle _ hs => exact scan hs
  | panicked _ hs => exact poison (scan hs)

theorem Fruitless.payload?_eq_none (h : Fruitless now s outcome t) : outcome.payload? = none := by
  cases h <;> rfl

theorem Fruitless.ne_some (h : Fruitless now s outcome t) (payload : TaskPayload) :
    outcome ≠ .ok (some payload) := by
  rw [Ne, ← Outcome.payload?_eq_some, h.payload?_eq_none]
  simp

/-- The task that the scan has found is live, so it is handed out unless its lease is too long. -/
theorem handOver_of_found {left right : Binary64} {redispatch : Bool}
    (h : t.table.nextAttention t.registry now cursor = some (task, .dispatch left right redispatch)) :
    t.handOver now task.id left right redispatch =
      if t.leaseFits now then
        (.ok (some (t.dispatch now task left right redispatch).1),
          (t.dispatch now task left right redispatch).2)
      else (.panic, t.poison) := by
  simp only [handOver, (TaskTable.nextAttention_eq_some h).1]

private theorem pullFrom_cases (hp : s.poisoned = false) (t : Scheduler) (cursor : Nat)
    (h : Scanning now s t cursor) :
    (∃ outcome u, Fruitless now s outcome u ∧ t.pullFrom now cursor = (outcome, u)) ∨
    ∃ u last task left right redispatch, Scanning now s u last ∧
      u.table.nextAttention u.registry now last = some (task, .dispatch left right redispatch) ∧
      s.leaseFits now = true ∧
      t.pullFrom now cursor = (.ok (some (u.dispatch now task left right redispatch).1),
        (u.dispatch now task left right redispatch).2) := by
  fun_induction pullFrom t now cursor with
  | case1 t cursor found => exact .inl ⟨_, t, .idle hp h found, rfl⟩
  | case2 t cursor task found ih => exact ih (h.sweep found)
  | case3 t cursor task obstacle found ih => exact ih (h.invalidate found)
  | case4 t cursor task left right redispatch found =>
    rw [handOver_of_found found, leaseFits_congr h.lease]
    cases hf : s.leaseFits now with
    | true => exact .inr ⟨t, cursor, task, left, right, redispatch, h, found, rfl, rfl⟩
    | false => exact .inl ⟨_, t.poison, .panicked hp h found hf, rfl⟩

theorem pull_of_poisoned (h : s.poisoned = true) (now : Nat) :
    s.pull now = (.error .tableLockPoisoned, s) := by
  simp only [pull, h, if_true]

/-- A pull hands nothing out, or the task that the scan finds. -/
theorem pull_cases (s : Scheduler) (now : Nat) :
    (∃ outcome t, Fruitless now s outcome t ∧ s.pull now = (outcome, t)) ∨
    ∃ t cursor task left right redispatch, Scanning now s t cursor ∧
      t.table.nextAttention t.registry now cursor = some (task, .dispatch left right redispatch) ∧
      s.poisoned = false ∧ s.leaseFits now = true ∧
      s.pull now = (.ok (some (t.dispatch now task left right redispatch).1),
        (t.dispatch now task left right redispatch).2) := by
  cases hp : s.poisoned with
  | true => exact .inl ⟨_, s, .locked hp, pull_of_poisoned hp now⟩
  | false =>
    have hpull : s.pull now =
        ({ s with table := s.table.advance } : Scheduler).pullFrom now s.table.advance.lowWater := by
      simp only [pull, hp, Bool.false_eq_true, if_false]
    rw [hpull]
    rcases pullFrom_cases hp _ _ .start with h | ⟨t, cursor, task, left, right, again, hs, ha, hf, he⟩
    · exact .inl h
    · exact .inr ⟨t, cursor, task, left, right, again, hs, ha, rfl, hf, he⟩

/-- A pull that hands nothing out, with its answer. -/
theorem fruitless_of_pull {outcome : Outcome (Option TaskPayload)} (he : s.pull now = (outcome, t))
    (h : outcome.payload? = none) : Fruitless now s outcome t := by
  rcases s.pull_cases now with ⟨_, _, hf, hp⟩ | ⟨_, _, _, _, _, _, _, _, _, _, hp⟩
  · cases he.symm.trans hp
    exact hf
  · cases he.symm.trans hp
    cases h

theorem pull_eq_none (h : (s.pull now).1 = .ok none) :
    ∃ t cursor, Scanning now s t cursor ∧ t.table.nextAttention t.registry now cursor = none ∧
      s.pull now = (.ok none, t) := by
  have he : s.pull now = (.ok none, (s.pull now).2) := Prod.ext h rfl
  cases fruitless_of_pull he rfl with
  | idle _ hs ha => exact ⟨_, _, hs, ha, he⟩

end Scheduler

end ArithDispatch
