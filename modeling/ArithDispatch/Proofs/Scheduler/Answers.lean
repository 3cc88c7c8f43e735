import ArithDispatch.Proofs.Scheduler.Recorded

/-! How a report is answered, from the history of the run alone, although the scheduler decides by what
is live, a status and a counter. Once a pull has panicked, every report fails on the lock. -/
namespace ArithDispatch.Scheduler
variable {events : List Event} {s : Scheduler} {task : Task} {id : Nat} {owner : String}

/-- The task was assigned to an expression that is not invalid. -/
def InForce (events : List Event) (s : Scheduler) (id : Nat) : Prop :=
  ∃ owner, BelongsTo events id owner ∧ s.registry.status? owner ≠ some .invalid

/-- The task was handed out, and no result of it was taken. -/
def Awaited (events : List Event) (s : Scheduler) (id : Nat) : Prop :=
  .handedOut id ∈ events ∧ ¬ Taken events id ∧ InForce events s id

def Undispatched (events : List Event) (s : Scheduler) (id : Nat) : Prop :=
  .handedOut id ∉ events ∧ InForce events s id

/-- A result of the task was taken, and the task that it is an operand of was not handed out yet. -/
def Unread (events : List Event) (s : Scheduler) (id : Nat) : Prop :=
  Taken events id ∧ ∃ owner user, s.registry.status? owner = some .calculating ∧
    Consumes events owner user id ∧ .handedOut user ∉ events

namespace Recorded

theorem inForce (h : Recorded events s) (hc : Coherent s) (hg : s.table.get? id = some task) :
    InForce events s id := by
  obtain ⟨root, ho, _⟩ := hc.owned id task hg
  exact ⟨task.owner, (h.live id task hg).belongsTo, Registry.status?_ne_of_open ho rfl⟩

/-- A task that was not handed out yet keeps its operands live. -/
theorem live_of_unread (h : Recorded events s) (hc : Coherent s) (hu : Unread events s id) :
    ∃ task, s.table.get? id = some task := by
  obtain ⟨_, owner, user, hs, ⟨graph, base, i, j, node, ha, hn, hi, rfl, rfl⟩, hout⟩ := hu
  have hj := (List.getElem?_eq_some_iff.mp hn).1
  obtain ⟨reader, hr⟩ := h.exists_live ⟨graph, base, j, ha, hj, rfl⟩ (by simp [hs])
    fun ht => hout (h.sent _ ht)
  have hm := h.live _ reader hr
  obtain ⟨graph', base', k, node', ha', hn', he, hdeps⟩ := hm.origin
  obtain ⟨_, rfl, rfl⟩ := ha.unique ha' hj (List.getElem?_eq_some_iff.mp hn').1 he
  obtain rfl : j = k := Nat.add_left_cancel he
  cases hn.symm.trans hn'
  have hdep : base + i ∈ reader.dependencies := by
    rw [hdeps (hm.waiting.mpr hout)]
    exact List.mem_map_of_mem hi
  obtain ⟨_, task, hg, _⟩ := hc.reads _ reader _ hr hdep
  exact ⟨task, hg⟩

/-- A completed task that is still live is to be read. -/
theorem unread_of_done (h : Recorded events s) (hc : Coherent s) (hg : s.table.get? id = some task)
    (hd : task.isDone = true) : Unread events s id := by
  refine ⟨⟨task.result, ((h.live id task hg).result _).mpr ⟨hd, rfl⟩⟩, ?_⟩
  have hroot : s.registry.openRoot? task.owner ≠ some id := by
    intro ho
    obtain ⟨top, htop, _, hopen⟩ := hc.rooted task.owner id ho
    obtain rfl : task = top := Option.some.inj (hg.symm.trans htop)
    rw [hd] at hopen
    cases hopen
  obtain ⟨user, reader, hu, hdep⟩ := hc.used id task hg hroot
  have hp : reader.status = .pending := by
    by_contra hp
    rw [hc.settled user reader hu hp] at hdep
    cases hdep
  have hm := h.live user reader hu
  obtain ⟨graph, base, j, node, ha, hn, rfl, hdeps⟩ := hm.origin
  rw [hdeps hp] at hdep
  obtain ⟨i, hi, rfl⟩ := List.mem_map.mp hdep
  obtain ⟨_, other, hother, hsame⟩ := hc.reads _ reader _ hu (hdeps hp ▸ hdep)
  obtain rfl : task = other := Option.some.inj (hg.symm.trans hother)
  refine ⟨reader.owner, _, ?_, ⟨graph, base, i, j, node, ha, hn, hi, rfl, rfl⟩, hm.waiting.mp hp⟩
  rw [← hsame]
  apply h.begun _ task hg
  intro hs
  rw [Task.isDone, hs] at hd
  cases hd

/-- What a report finds, and what the history says about it. -/
theorem report_cases (h : Recorded events s) (hc : Coherent s) (hsound : s.poisoned = false)
    (hcount : events.count (.handedOut id) < UInt32.size) (value : Binary64) :
    ((s.report id value).1 = .error (.taskNotFound id) ∧
      ¬ Awaited events s id ∧ ¬ Undispatched events s id ∧ ¬ Unread events s id) ∨
    ((s.report id value).1 = .error (.taskNotAwaitingResult id "already completed") ∧
      Unread events s id) ∨
    ((s.report id value).1 = .error (.taskNotAwaitingResult id "not dispatched") ∧
      Undispatched events s id) ∨
    ((s.report id value).1 = .ok () ∧ Awaited events s id) := by
  have hlock : ¬ s.poisoned = true := Bool.eq_false_iff.mp hsound
  cases hg : s.table.get? id with
  | none =>
    have absent : ∀ {P : Prop}, (∃ task, s.table.get? id = some task) → P := by
      rintro _ ⟨task, hlive⟩
      cases hg.symm.trans hlive
    refine .inl ⟨by simp only [Scheduler.report, if_neg hlock, hg], ?_, ?_, ?_⟩
    · rintro ⟨_, ht, owner, hb, hi⟩
      exact absent (h.exists_live hb hi ht)
    · rintro ⟨ho, owner, hb, hi⟩
      exact absent (h.exists_live hb hi fun ht => ho (h.sent id ht))
    · exact fun hu => absent (h.live_of_unread hc hu)
  | some task =>
    have hm := h.live id task hg
    have hf := h.inForce hc hg
    simp only [Scheduler.report, if_neg hlock, hg, refusal?]
    cases hd : task.isDone with
    | true => exact .inr (.inl ⟨rfl, h.unread_of_done hc hg hd⟩)
    | false =>
      have hnot := hm.not_taken hd
      -- the counter of the task is the number of its pulls as long as that fits
      have hzero : task.attempts = 0 ↔ .handedOut id ∉ events := by
        rw [hm.attempts, ← UInt32.toNat_inj, UInt32.toNat_ofNat_of_lt' hcount, ← List.count_eq_zero]
        rfl
      by_cases ha : task.attempts = 0
      · exact .inr (.inr (.inl ⟨by simp [ha]; rfl, hzero.mp ha, hf⟩))
      · exact .inr (.inr (.inr ⟨by simp [ha], not_not.mp (ha ∘ hzero.mpr), hnot, hf⟩))

/-- The cases exclude each other, so each answer tells which one it is. -/
theorem report_iff (h : Recorded events s) (hc : Coherent s) (hsound : s.poisoned = false)
    (hcount : events.count (.handedOut id) < UInt32.size) (value : Binary64) :
    ((s.report id value).1 = .ok () ↔ Awaited events s id) ∧
    ((s.report id value).1 = .error (.taskNotAwaitingResult id "not dispatched") ↔
      Undispatched events s id) ∧
    ((s.report id value).1 = .error (.taskNotAwaitingResult id "already completed") ↔
      Unread events s id) ∧
    ((s.report id value).1 = .error (.taskNotFound id) ↔
      ¬ Awaited events s id ∧ ¬ Undispatched events s id ∧ ¬ Unread events s id) := by
  have awaited_dispatched : Awaited events s id → ¬ Undispatched events s id :=
    fun hw hn => hn.1 hw.1
  have awaited_unread : Awaited events s id → ¬ Unread events s id := fun hw hu => hw.2.1 hu.1
  have unread_dispatched : Unread events s id → ¬ Undispatched events s id :=
    fun hu hn => hn.1 (h.sent id hu.1)
  rcases h.report_cases hc hsound hcount value with
    ⟨he, hw, hn, hu⟩ | ⟨he, hu⟩ | ⟨he, hn⟩ | ⟨he, hw⟩
  · simp [he, hw, hn, hu]
  · have hw : ¬ Awaited events s id := fun hw => awaited_unread hw hu
    simp [he, hw, unread_dispatched hu, hu]
  · have hw : ¬ Awaited events s id := fun hw => awaited_dispatched hw hn
    have hu : ¬ Unread events s id := fun hu => unread_dispatched hu hn
    simp [he, hw, hn, hu]
  · simp [he, hw, awaited_dispatched hw, awaited_unread hw]

end Recorded

/-- Behind a poisoned lock every report fails on it, and nowhere else. -/
theorem report_eq_locked_iff (s : Scheduler) (id : Nat) (value : Binary64) :
    (s.report id value).1 = .error .tableLockPoisoned ↔ s.poisoned = true := by
  constructor
  · intro he
    by_contra hlock
    rw [report, if_neg hlock] at he
    split at he
    · cases he
    · split at he <;> cases he
  · exact fun hlock => congrArg Prod.fst (report_of_poisoned hlock id value)

/-- The answer to a report is a function of the history of the run: what was handed out and what was taken
before, and whether the expression of the task is invalid or still being computed. This is so until a pull
panics; then every report fails on the lock. At most one result of a task is taken, and none is
overwritten. The counter of hand-outs is 32 bits wide, so there must have been fewer than 2 ^ 32 of the
task. -/
theorem report_answers_from_history (durations : OperationDurations) (lease : Option Duration)
    {actions : List Action} (ha : ∀ action ∈ actions, action.Admissible) (id : Nat) (value : Binary64)
    (hcount : (({ durations, lease } : Scheduler).history actions).count (.handedOut id) < UInt32.size) :
    let start : Scheduler := { durations, lease }
    let s := start.run actions
    let events := start.history actions
    let answer := (s.report id value).1
    (answer = .error .tableLockPoisoned ↔ s.poisoned = true) ∧
    (s.poisoned = true ↔ ∃ before now after, actions = before ++ .pull now :: after ∧
      ((start.run before).pull now).1 = .panic) ∧
    (s.poisoned = false →
      (answer = .ok () ↔ Awaited events s id) ∧
      (answer = .error (.taskNotAwaitingResult id "not dispatched") ↔ Undispatched events s id) ∧
      (answer = .error (.taskNotAwaitingResult id "already completed") ↔ Unread events s id) ∧
      (answer = .error (.taskNotFound id) ↔
        ¬ Awaited events s id ∧ ¬ Undispatched events s id ∧ ¬ Unread events s id)) ∧
    (∀ id, events.countP (Event.takes id) ≤ 1) ∧
    ∀ id value task, .taken id value ∈ events → s.table.get? id = some task → task.result = value := by
  intro start s events answer
  have hfresh : Coherent start := .fresh durations lease
  have h : Recorded events s := (Recorded.fresh durations lease).run hfresh ha
  have hpanic : s.poisoned = true ↔ ∃ before now after, actions = before ++ .pull now :: after ∧
      ((start.run before).pull now).1 = .panic := by
    rw [poisoned_run_iff, or_iff_right]
    exact Bool.false_ne_true
  refine ⟨s.report_eq_locked_iff id value, hpanic, ?_, h.once, ?_⟩
  · exact fun hsound => h.report_iff (hfresh.run ha) hsound hcount value
  · intro id value task ht hg
    exact (((h.live id task hg).result value).mp ht).2

/-- The sum is handed out twice, since its lease runs out. The second worker comes too late while the
product still waits for its turn. -/
theorem late_report_of_sum :
    let start : Scheduler := { lease := some ⟨1⟩ }
    let actions : List Action :=
      [.accept "a" "(1+2)*3" (.graph Formula.productGraph), .pull 0, .pull 1, .report 1 .three]
    let s := start.run actions
    (s.report 1 .zero).1 = .error (.taskNotAwaitingResult 1 "already completed") ∧
      Unread (start.history actions) s 1 ∧ (start.history actions).countP (Event.takes 1) ≤ 1 := by
  intro start actions s
  have ha : ∀ action ∈ actions, action.Admissible :=
    List.forall_mem_cons.mpr ⟨admissible_product .., by simp [Action.Admissible]⟩
  have hcount : (start.history actions).count (.handedOut 1) < UInt32.size := by decide +kernel
  obtain ⟨_, _, hiff, honce, _⟩ := report_answers_from_history {} (some ⟨1⟩) ha 1 .zero hcount
  have hanswer : (s.report 1 .zero).1 = .error (.taskNotAwaitingResult 1 "already completed") := by
    decide +kernel
  obtain ⟨_, _, hdone, _⟩ := hiff (by decide +kernel)
  exact ⟨hanswer, hdone.mp hanswer, honce 1⟩

/-- Under the longest lease the pull panics. The task was never handed out, but a report for it fails on the
lock, and so does a report for a task that was never made. -/
theorem locked_report_under_longest_lease :
    let start : Scheduler := { lease := some .longest }
    let actions : List Action := [.accept "a" "1+2" (.graph Formula.sumGraph), .pull 0]
    let s := start.run actions
    Undispatched (start.history actions) s 1 ∧
      (s.report 1 .three).1 ≠ .error (.taskNotAwaitingResult 1 "not dispatched") ∧
      s.table.nextId = 2 ∧ (s.report 2 .three).1 ≠ .error (.taskNotFound 2) := by
  intro start actions s
  have hassigned : BelongsTo (start.history actions) 1 "a" := by
    refine ⟨Formula.sumGraph, 1, 0, ⟨[], [], ?_, rfl⟩, by decide +kernel, rfl⟩
    decide +kernel
  exact ⟨⟨by decide +kernel, "a", hassigned, by decide +kernel⟩, by decide +kernel, by decide +kernel,
    by decide +kernel⟩

end ArithDispatch.Scheduler
