import ArithDispatch.Proofs.Scheduler.Poisoning
import Mathlib.Data.Nat.Find

/-! A pull that finds nothing leaves nothing to hand out: every live task needs no attention, so each open
expression waits for a worker whose time has not run out. -/
namespace ArithDispatch

namespace TaskTable
variable {table other : TaskTable} {registry newer : Registry} {now : Nat} {task : Task}

theorem readiness_congr {operand : Operand}
    (h : ∀ id, operand = .reference id → table.get? id = other.get? id) :
    table.readiness operand = other.readiness operand := by
  cases operand with
  | literal value => rfl
  | reference id => simp only [readiness, h id rfl]

/-- Attention depends on the task, its operands and the stage of its expression alone. -/
theorem attention_congr (hs : registry.status? task.owner = newer.status? task.owner)
    (hd : ∀ dep ∈ task.dependencies, table.get? dep = other.get? dep) :
    table.attention registry now task = other.attention newer now task := by
  have same : ∀ side, task.left = side ∨ task.right = side → table.readiness side = other.readiness side := by
    intro side hm
    apply readiness_congr
    rintro id rfl
    exact hd id (Task.mem_dependencies.mpr hm)
  have hl := same task.left (.inl rfl)
  have hr := same task.right (.inr rfl)
  simp only [attention, attentionForOperands, hs, hl, hr]

theorem attention_of_done (h : task.isDone = true) : table.attention registry now task = none := by
  rw [attention, if_pos h]

/-- A task that reads from completed tasks alone has both its operands. -/
theorem ready_of_dependencies_done
    (h : ∀ dep ∈ task.dependencies, ∃ other, table.get? dep = some other ∧ other.isDone = true) :
    ∃ left right, table.readiness task.left = .ready left ∧ table.readiness task.right = .ready right := by
  have ready : ∀ side, task.left = side ∨ task.right = side →
      ∃ value, table.readiness side = .ready value := by
    intro side hm
    cases side with
    | literal value => exact ⟨value, rfl⟩
    | reference id =>
      obtain ⟨other, hg, hd⟩ := h id (Task.mem_dependencies.mpr hm)
      exact ⟨other.result, by simp only [readiness, hg, hd, if_true]⟩
  obtain ⟨left, hl⟩ := ready task.left (.inl rfl)
  obtain ⟨right, hr⟩ := ready task.right (.inr rfl)
  exact ⟨left, right, hl, hr⟩

end TaskTable

theorem Registry.status?_moveTo_of_ne (registry : Registry) {id other : String} (h : other ≠ id)
    (stage : Stage) : (registry.moveTo id stage).2.status? other = registry.status? other := by
  rw [status?, find?_moveTo, if_neg (fun hm => h hm.2), status?]

theorem Task.isInProgress_iff {task : Task} : task.isInProgress = true ↔ task.status = .inProgress := by
  rw [isInProgress, beq_iff_eq]

namespace Scheduler
variable {s t : Scheduler} {now cursor : Nat} {task : Task}

namespace Coherent

/-- Closing one expression changes nothing about the tasks of the others. -/
theorem attention_invalidate (h : Coherent s) (hg : s.table.get? task.id = some task) {id : Nat}
    {other : Task} (ho : s.table.get? id = some other) (hne : other.owner ≠ task.owner)
    (obstacle : Obstacle) (now : Nat) :
    (s.invalidate task obstacle).table.attention (s.invalidate task obstacle).registry now other =
      s.table.attention s.registry now other := by
  apply TaskTable.attention_congr (s.registry.status?_moveTo_of_ne hne _)
  intro dep hd
  obtain ⟨_, below, hb, howner⟩ := h.reads id other dep ho hd
  rw [get?_invalidate h hg, hb, Option.filter_some_pos (by simpa [howner] using hne)]

/-- The scan leaves behind only tasks that need no attention. -/
theorem attention_behind_cursor (h : Coherent s) (hs : Scanning now s t cursor) {id : Nat}
    (hg : t.table.get? id = some task) (hlt : id < cursor) :
    t.table.attention t.registry now task = none := by
  induction hs generalizing id task with
  | start =>
    refine TaskTable.attention_of_done (TaskTable.isDone_of_lt_advance h.marked ?_ hlt)
    rwa [TaskTable.get?_advance] at hg
  | sweep hs ha => exact absurd ha (h.scanning hs).nextAttention_ne_sweep
  | @invalidate t cursor found obstacle hs ha ih =>
    have ht := h.scanning hs
    obtain ⟨hfound, _, _, hbefore⟩ := TaskTable.nextAttention_eq_some ha
    rw [get?_invalidate ht hfound, Option.filter_eq_some_iff] at hg
    obtain ⟨hg, hne⟩ := hg
    have hne : task.owner ≠ found.owner := by simpa using hne
    rw [ht.attention_invalidate hfound hg hne]
    rcases Nat.lt_or_ge id cursor with hc | hc
    · exact ih hg hc
    · apply hbefore id task hg hc
      have hid : id ≠ found.id := by
        rintro rfl
        exact hne (congrArg Task.owner (Option.some.inj (hg.symm.trans hfound)))
      omega

/-- A scan only removes tasks. -/
theorem get?_of_scanning (h : Coherent s) (hs : Scanning now s t cursor) {id : Nat}
    (hg : t.table.get? id = some task) : s.table.get? id = some task := by
  induction hs with
  | start => rwa [TaskTable.get?_advance] at hg
  | sweep _ _ ih => exact ih (Arena.get?_of_reclaim hg)
  | invalidate hs ha ih =>
    have hfound := (TaskTable.nextAttention_eq_some ha).1
    rw [get?_invalidate (h.scanning hs) hfound, Option.filter_eq_some_iff] at hg
    exact ih hg.1

theorem get?_of_pull_none (h : Coherent s) (hp : (s.pull now).1 = .ok none) {id : Nat}
    (hg : (s.pull now).2.table.get? id = some task) : s.table.get? id = some task := by
  obtain ⟨t, cursor, hs, _, he⟩ := pull_eq_none hp
  rw [he] at hg
  exact h.get?_of_scanning hs hg

/-- After a pull that finds nothing, no live task needs attention. -/
theorem attention_of_pull_none (h : Coherent s) (hp : (s.pull now).1 = .ok none) {id : Nat}
    (hg : (s.pull now).2.table.get? id = some task) :
    (s.pull now).2.table.attention (s.pull now).2.registry now task = none := by
  obtain ⟨t, cursor, hs, hn, he⟩ := pull_eq_none hp
  rw [he] at hg ⊢
  rcases Nat.lt_or_ge id cursor with hc | hc
  · exact h.attention_behind_cursor hs hg hc
  · exact TaskTable.nextAttention_eq_none hn hg hc

/-- The least task of an open expression that is not completed has both its operands. -/
theorem exists_ready (h : Coherent s) {owner : String} (ho : s.registry.IsOpen owner) :
    ∃ id task left right, s.table.get? id = some task ∧ task.owner = owner ∧ task.isDone = false ∧
      s.table.readiness task.left = .ready left ∧ s.table.readiness task.right = .ready right := by
  classical
  obtain ⟨root, hroot⟩ := h.regular.openRoot? ho
  obtain ⟨top, htop, hown, hopen⟩ := h.rooted owner root hroot
  have hex : ∃ id task, s.table.get? id = some task ∧ task.owner = owner ∧ task.isDone = false :=
    ⟨root, top, htop, hown, hopen⟩
  obtain ⟨task, hg, htask, hd⟩ := Nat.find_spec hex
  refine ⟨Nat.find hex, task, ?_⟩
  have hready : ∀ dep ∈ task.dependencies,
      ∃ other, s.table.get? dep = some other ∧ other.isDone = true := by
    intro dep hm
    obtain ⟨hlt, other, hother, hsame⟩ := h.reads _ task dep hg hm
    refine ⟨other, hother, ?_⟩
    cases hdone : other.isDone with
    | true => rfl
    | false => exact absurd ⟨other, hother, hsame.trans htask, hdone⟩ (Nat.find_min hex hlt)
  obtain ⟨left, right, hl, hr⟩ := TaskTable.ready_of_dependencies_done hready
  exact ⟨left, right, hg, htask, hd, hl, hr⟩

/-- An open expression without a task that needs attention waits for a worker. -/
theorem exists_inProgress (h : Coherent s) {owner : String} (ho : s.registry.IsOpen owner)
    (hq : ∀ id task, s.table.get? id = some task → s.table.attention s.registry now task = none) :
    ∃ id task, s.table.get? id = some task ∧ task.owner = owner ∧ task.status = .inProgress ∧
      task.leaseExpired now = false := by
  obtain ⟨id, task, left, right, hg, rfl, hd, hl, hr⟩ := h.exists_ready ho
  refine ⟨id, task, hg, rfl, ?_⟩
  have hstatus : ∃ status, s.registry.status? task.owner = some status ∧ status ≠ .invalid := by
    rcases ho with ho | ho <;> exact ⟨_, ho, by simp⟩
  obtain ⟨status, hs, hi⟩ := hstatus
  have hn := hq id task hg
  rw [TaskTable.attention_of_open hd hs hi, TaskTable.attentionForOperands_ready hl hr] at hn
  split at hn
  · next hp =>
    simp only [Bool.and_eq_true, Bool.not_eq_true'] at hp
    exact ⟨Task.isInProgress_iff.mp hp.1, hp.2⟩
  · split at hn <;> cases hn

end Coherent

/-- The task is out at a worker whose time, if it is limited, has not run out. -/
def InFlight (s : Scheduler) (now id : Nat) (task : Task) : Prop :=
  s.table.get? id = some task ∧ task.status = .inProgress ∧ task.leaseExpired now = false

/-- Where nothing stands in the way of the lock and of the lease, a pull hands a task out or finds none. -/
theorem pull_of_fits (hp : s.poisoned = false) (hfit : s.leaseFits now = true) :
    (s.pull now).1 = .ok none ∨ ∃ payload, (s.pull now).1 = .ok (some payload) := by
  rcases s.pull_cases now with ⟨outcome, t, hf, he⟩ | ⟨_, _, _, _, _, _, _, _, _, _, he⟩
  · rw [he]
    cases hf with
    | locked hl => exact absurd hl (Bool.eq_false_iff.mp hp)
    | idle => exact .inl rfl
    | panicked _ _ _ hn => exact absurd hfit (Bool.eq_false_iff.mp hn)
  · rw [he]
    exact .inr ⟨_, rfl⟩

/-- Where the lease is too long, a pull panics or finds nothing. -/
theorem pull_of_overflow (hp : s.poisoned = false) (hfit : s.leaseFits now = false) :
    (s.pull now).1 = .ok none ∨ (s.pull now).1 = .panic := by
  rcases s.pull_cases now with ⟨outcome, t, hf, he⟩ | ⟨_, _, _, _, _, _, _, _, _, hfits, _⟩
  · rw [he]
    cases hf with
    | locked hl => exact absurd hl (Bool.eq_false_iff.mp hp)
    | idle => exact .inl rfl
    | panicked => exact .inr rfl
  · exact absurd hfits (Bool.eq_false_iff.mp hfit)

/-- When an expression can get stuck. A pull that finds nothing leaves every open expression with a task that
is in flight; so if no task was out, all expressions are closed and no task is live. If no worker had time
left and an expression stays open, then a pull hands out a task or panics, and it panics if and only if
the lease would run out behind the last moment. After that no task is ever handed out, and what was open
stays open. -/
theorem open_expressions_progress {s : Scheduler} (h : Reachable s) (now : Nat) :
    ((s.pull now).1 = .ok none → ∀ owner, (s.pull now).2.registry.IsOpen owner →
      ∃ id task, (s.pull now).2.InFlight now id task ∧ task.owner = owner) ∧
    ((s.pull now).1 = .ok none → (∀ id task, s.table.get? id = some task → task.status ≠ .inProgress) →
      (∀ owner status, (s.pull now).2.registry.status? owner = some status →
        status = .done ∨ status = .invalid) ∧
      (s.pull now).2.table.size = 0) ∧
    (s.poisoned = false → (∀ id task, s.table.get? id = some task → task.status = .inProgress →
        task.leaseExpired now = true) →
      (∃ owner, (s.pull now).2.registry.IsOpen owner) →
      ((∃ payload, (s.pull now).1 = .ok (some payload)) ↔ s.leaseFits now = true) ∧
      ((s.pull now).1 = .panic ↔ s.leaseFits now = false)) ∧
    (s.poisoned = true ∨ (s.pull now).1 = .panic → ∀ actions owner, (s.pull now).2.registry.IsOpen owner →
      ((s.pull now).2.run actions).registry.IsOpen owner ∧
      ∀ later payload, (((s.pull now).2.run actions).pull later).1 ≠ .ok (some payload)) := by
  have hc := h.coherent
  have hafter := hc.pull now
  have waits : (s.pull now).1 = .ok none → ∀ owner, (s.pull now).2.registry.IsOpen owner →
      ∃ id task, (s.pull now).2.InFlight now id task ∧ task.owner = owner := by
    intro hp owner ho
    obtain ⟨id, task, hg, howner, hs, hl⟩ :=
      hafter.exists_inProgress ho fun id task hg => hc.attention_of_pull_none hp hg
    exact ⟨id, task, ⟨hg, hs, hl⟩, howner⟩
  refine ⟨waits, ?closed, ?handed, ?stuck⟩
  case closed =>
    intro hp hidle
    have closed : ∀ owner, ¬ (s.pull now).2.registry.IsOpen owner := by
      intro owner ho
      obtain ⟨id, task, ⟨hg, hs, _⟩, _⟩ := waits hp owner ho
      exact hidle id task (hc.get?_of_pull_none hp hg) hs
    refine ⟨?_, ?_⟩
    · intro owner status hs
      cases status with
      | pending => exact absurd (.inl hs) (closed owner)
      | calculating => exact absurd (.inr hs) (closed owner)
      | done => exact .inl rfl
      | invalid => exact .inr rfl
    · refine List.length_eq_zero_iff.mpr (List.eq_nil_iff_forall_not_mem.mpr fun task hm => ?_)
      obtain ⟨root, ho, _⟩ := hafter.owned task.id task (Arena.mem_tasks_iff.mp hm)
      exact closed task.owner (Registry.isOpen_of_openRoot? ho)
  case handed =>
    rintro hlock hexpired ⟨owner, ho⟩
    have found : (s.pull now).1 ≠ .ok none := by
      intro hp
      obtain ⟨id, task, ⟨hg, hs, hl⟩, _⟩ := waits hp owner ho
      have he := hexpired id task (hc.get?_of_pull_none hp hg) hs
      rw [hl] at he
      cases he
    cases hfit : s.leaseFits now with
    | true =>
      obtain ⟨payload, hp⟩ := (pull_of_fits hlock hfit).resolve_left found
      simp [hp]
    | false =>
      have hp := (pull_of_overflow hlock hfit).resolve_left found
      simp [hp]
  case stuck =>
    intro hend actions owner ho
    have hlock : (s.pull now).2.poisoned = true := by
      change (s.perform (.pull now)).poisoned = true
      exact poisoned_perform_iff.mpr (hend.imp_right fun hp => ⟨now, rfl, hp⟩)
    refine ⟨isOpen_run_of_poisoned hlock ho actions, fun later payload => ?_⟩
    rw [pull_of_poisoned (poisoned_run hlock actions)]
    simp

/-- A lease of one nanosecond runs out at once, so what was handed out at 0 is handed out again at 1;
until then the expression waits for its worker. -/
theorem progress_of_expired_lease :
    let fresh : Scheduler := { lease := some ⟨1⟩ }
    let s := (fresh.perform (.accept "a" "1+2" (.graph Formula.sumGraph))).perform (.pull 0)
    Reachable s ∧ (s.pull 0).1 = .ok none ∧ (∃ id task, (s.pull 0).2.InFlight 0 id task ∧ task.owner = "a") ∧
      ∃ payload, (s.pull 1).1 = .ok (some payload) := by
  intro fresh s
  have hr : Reachable s := .step (.step (.fresh {} (some ⟨1⟩)) (admissible_sum "a" "1+2")) trivial
  have hempty : (s.pull 0).1 = .ok none := by decide +kernel
  refine ⟨hr, hempty, ?_, ?_⟩
  · exact (open_expressions_progress hr 0).1 hempty "a" (.inr (by decide +kernel))
  · have hexpired : ∀ task ∈ s.table.arena.tasks, task.leaseExpired 1 = true := by decide +kernel
    have hopen : ∃ owner, (s.pull 1).2.registry.IsOpen owner := ⟨"a", .inr (by decide +kernel)⟩
    obtain ⟨_, _, hhanded, _⟩ := open_expressions_progress hr 1
    refine ((hhanded (by decide +kernel) (fun id task hg _ => ?_) hopen).1).mpr (by decide +kernel)
    exact hexpired task (Arena.mem_of_get? hg)

/-- Under the longest lease the first pull panics although a task is ready, and the expression is pending for
ever after. -/
theorem sum_stuck_under_longest_lease :
    let fresh : Scheduler := { lease := some .longest }
    let s := fresh.perform (.accept "a" "1+2" (.graph Formula.sumGraph))
    Reachable s ∧ (∀ id task, s.table.get? id = some task → task.status ≠ .inProgress) ∧
      (s.pull 0).1 = .panic ∧ ∀ actions, ((s.pull 0).2.run actions).registry.status? "a" = some .pending := by
  intro fresh s
  have hidle : ∀ task ∈ s.table.arena.tasks, task.status ≠ .inProgress := by decide +kernel
  refine ⟨.step (.fresh {} (some .longest)) (admissible_sum "a" "1+2"), ?_, by decide +kernel, ?_⟩
  · exact fun id task hg => hidle task (Arena.mem_of_get? hg)
  · intro actions
    have hlock : (s.pull 0).2.poisoned = true := by decide +kernel
    have hf : (s.pull 0).2.registry.find? "a" = some (.pending "1+2" 1) := by decide +kernel
    rw [Registry.status?, find?_run_of_poisoned hlock hf actions]
    rfl

end Scheduler

end ArithDispatch
