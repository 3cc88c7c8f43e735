import ArithDispatch.Proofs.Scheduler.Answers

/-! How long a task can be handed out again. Its counter is 32 bits wide and is the number of its hand-outs
modulo 2 ^ 32, and a report takes a counter of zero for a task that was never handed out. -/
namespace ArithDispatch.Scheduler
variable {events : List Event} {s : Scheduler} {task : Task} {id count : Nat}

theorem Matches.attempts_eq_zero_iff (h : Matches events id task) :
    task.attempts = 0 ↔ UInt32.size ∣ events.count (.handedOut id) := by
  rw [h.attempts, UInt32.ofNat_eq_iff_mod_eq_toNat]
  exact Nat.dvd_iff_mod_eq_zero.symm

/-- A report for a task that is out is taken, unless the counter of the task is zero. -/
theorem report_of_inProgress (hsound : s.poisoned = false) (hg : s.table.get? id = some task)
    (hp : task.status = .inProgress) (value : Binary64) : (s.report id value).1 =
      if task.attempts = 0 then .error (.taskNotAwaitingResult id "not dispatched") else .ok () := by
  have hlock : ¬ s.poisoned = true := Bool.eq_false_iff.mp hsound
  have hd : task.isDone = false := by rw [Task.isDone, hp]; rfl
  by_cases ha : task.attempts = 0
  · simp only [Scheduler.report, if_neg hlock, hg, refusal?, hd, ha]
    rfl
  · simp only [Scheduler.report, if_neg hlock, hg, refusal?, hd, ha]
    rfl

/-- Accepts the sum of 1 and 2 and pulls at each moment from 0 on. -/
def lendings (count : Nat) : List Action :=
  .accept "a" "1+2" (.graph Formula.sumGraph) :: (List.range' 0 count).map .pull

theorem admissible_lendings (count : Nat) : ∀ action ∈ lendings count, action.Admissible := by
  refine List.forall_mem_cons.mpr ⟨admissible_sum .., ?_⟩
  simp [Action.Admissible]

/-- A task that is out has been handed out, and its counter is zero exactly when the number of its hand-outs is
a multiple of 2 ^ 32. Exactly then a report for it is refused as one for a task that was never handed out, and
else it is taken, unless the lock is poisoned. So up to 2 ^ 32 - 1 hand-outs no report for a task that is out
is refused as one for a task that was never handed out. -/
theorem in_flight_refused_iff_counter_wrapped (durations : OperationDurations) (lease : Option Duration)
    {actions : List Action} (ha : ∀ action ∈ actions, action.Admissible) (id : Nat) (value : Binary64) :
    let start : Scheduler := { durations, lease }
    let s := start.run actions
    let handOuts := (start.history actions).count (.handedOut id)
    ∀ task, s.table.get? id = some task → task.status = .inProgress →
      0 < handOuts ∧ (task.attempts = 0 ↔ UInt32.size ∣ handOuts) ∧
      ((s.report id value).1 = .error .tableLockPoisoned ↔ s.poisoned = true) ∧
      ((s.report id value).1 = .error (.taskNotAwaitingResult id "not dispatched") ↔
        s.poisoned = false ∧ UInt32.size ∣ handOuts) ∧
      ((s.report id value).1 = .ok () ↔ s.poisoned = false ∧ ¬ UInt32.size ∣ handOuts) := by
  intro start s handOuts task hg hp
  have h : Recorded (start.history actions) s :=
    (Recorded.fresh durations lease).run (.fresh durations lease) ha
  have hm := h.live id task hg
  have hzero : task.attempts = 0 ↔ UInt32.size ∣ handOuts := hm.attempts_eq_zero_iff
  have hout := hm.handedOut_mem (by simp [hp])
  refine ⟨List.count_pos_iff.mpr hout, hzero, s.report_eq_locked_iff id value, ?_⟩
  cases hlock : s.poisoned with
  | true =>
    rw [report_of_poisoned hlock]
    simp [Failure.tableLockPoisoned]
  | false =>
    rw [report_of_inProgress hlock hg hp, ← hzero, ite_eq_left_iff, ite_eq_right_iff]
    simp

/-- The sum of 1 and 2 is out for the second time, and its report is taken. -/
theorem sum_taken_when_lent_twice :
    let start : Scheduler := { lease := some ⟨1⟩ }
    let s := start.run (lendings 2)
    (∃ task, s.table.get? 1 = some task ∧ task.status = .inProgress ∧ task.attempts = 2) ∧
      (start.history (lendings 2)).count (.handedOut 1) = 2 ∧
      (s.report 1 .three).1 = .ok () := by
  intro start s
  have hcount : (start.history (lendings 2)).count (.handedOut 1) = 2 := by decide +kernel
  have hout : (s.table.get? 1).any fun task => task.status = .inProgress ∧ task.attempts = 2 := by
    decide +kernel
  obtain ⟨task, hg, hlent⟩ := (Option.any_eq_true _ _).mp hout
  obtain ⟨hp, htwice⟩ := of_decide_eq_true hlent
  obtain ⟨_, _, _, _, htaken⟩ := in_flight_refused_iff_counter_wrapped {} (some ⟨1⟩)
    (admissible_lendings 2) 1 .three task hg hp
  refine ⟨⟨task, hg, hp, htwice⟩, hcount, htaken.mpr ⟨by decide +kernel, ?_⟩⟩
  rw [hcount]
  decide

/-- The sum of 1 and 2 after a number of hand-outs, one at each moment from 0 on, under a lease of one
nanosecond. -/
def lentSum (count : Nat) : Task where
  id := 1
  left := .literal .one
  operator := .add
  right := .literal .two
  duration := 1000
  owner := "a"
  status := .inProgress
  attempts := .ofNat count
  deadline := some count

structure LendsSum (count : Nat) (s : Scheduler) : Prop where
  tasks : s.table.arena.tasks = [lentSum count]
  lowWater : s.table.lowWater = 1
  status : s.registry.status? (lentSum count).owner = some .calculating
  lease : s.lease = some ⟨1⟩
  lock : s.poisoned = false

namespace LendsSum

theorem get? (h : LendsSum count s) : s.table.get? 1 = some (lentSum count) := by
  rw [TaskTable.get?, Arena.get?, h.tasks]
  rfl

theorem advance (h : LendsSum count s) : s.table.advance = s.table := by
  have hfirst : (s.table.arena.startingAt s.table.lowWater).find? (!·.isDone) = some (lentSum count) := by
    rw [Arena.startingAt, h.tasks, h.lowWater]
    rfl
  have hmark : (lentSum count).id = s.table.lowWater := h.lowWater.symm
  simp only [TaskTable.advance, hfirst, hmark]

/-- The lease has run out at the next moment, so the sum can be handed out once more. -/
theorem nextAttention (h : LendsSum count s) : s.table.nextAttention s.registry count 1 =
    some (lentSum count, .dispatch .one .two true) := by
  have hexpired : (lentSum count).leaseExpired count = true := by
    simp [lentSum, Task.leaseExpired, Task.isInProgress]
  have ha : s.table.attention s.registry count (lentSum count) =
      some (.dispatch .one .two true) := by
    simp only [TaskTable.attention, h.status, hexpired]
    rfl
  rw [TaskTable.nextAttention, Arena.startingAt, h.tasks]
  have hfilter : [lentSum count].filter (1 ≤ ·.id) = [lentSum count] := rfl
  simp only [hfilter, List.findSome?_cons, ha, Option.map_some]

theorem pull (h : LendsSum count s) (hlast : count < lastMoment) :
    LendsSum (count + 1) (s.pull count).2 ∧ s.observe (.pull count) = [.handedOut 1] := by
  have hfits : s.leaseFits count = true := by
    rw [leaseFits, h.lease]
    exact decide_eq_true hlast
  have hpull : s.pull count =
      (.ok (some (s.dispatch count (lentSum count) .one .two true).1),
        (s.dispatch count (lentSum count) .one .two true).2) := by
    rw [Scheduler.pull, if_neg (Bool.eq_false_iff.mp h.lock)]
    simp only [h.advance, h.lowWater]
    unfold pullFrom
    split <;> rename_i he <;> cases h.nextAttention.symm.trans he
    exact (handOver_of_found h.nextAttention).trans (if_pos hfits)
  constructor
  · rw [hpull]
    constructor
    · calc (s.table.modify 1 (s.handedOut count · .one .two)).arena.tasks
        _ = [s.handedOut count (lentSum count) .one .two] := by
          simp only [TaskTable.modify, Arena.modify, h.tasks]
          rfl
        _ = [lentSum (count + 1)] := by
          rw [Scheduler.handedOut, h.lease, lentSum, lentSum, UInt32.ofNat_add]
          rfl
    · exact h.lowWater
    · simp only [Scheduler.dispatch, Registry.markCalculating, if_pos h.status]
      exact h.status
    · exact h.lease
    · exact h.lock
  · rw [observe_pull (congrArg Prod.fst hpull)]
    rfl

/-- The sum is handed out at every moment, to the end of time. -/
theorem pulls (h : LendsSum count s) {more : Nat} (hlast : count + more ≤ lastMoment) :
    LendsSum (count + more) (s.run ((List.range' count more).map .pull)) ∧
      s.history ((List.range' count more).map .pull) = List.replicate more (.handedOut 1) := by
  induction more generalizing count s with
  | zero => exact ⟨h, rfl⟩
  | succ more ih =>
    obtain ⟨hnext, hseen⟩ := h.pull (by omega)
    obtain ⟨hrun, hhistory⟩ := ih hnext (by omega)
    rw [List.range'_succ, List.map_cons, history, hseen, List.replicate_succ, Nat.add_comm more,
      ← Nat.add_assoc]
    exact ⟨hrun, congrArg _ hhistory⟩

end LendsSum

/-- Each of these pulls hands the sum out. -/
theorem lendings_hand_out (h : 0 < count) (hlast : count ≤ lastMoment) :
    LendsSum count (({ lease := some ⟨1⟩ } : Scheduler).run (lendings count)) ∧
      ({ lease := some ⟨1⟩ } : Scheduler).history (lendings count) =
        .accepted "a" Formula.sumGraph :: List.replicate count (.handedOut 1) := by
  obtain ⟨more, rfl⟩ := Nat.exists_eq_add_one.mpr h
  let first : List Action := [.accept "a" "1+2" (.graph Formula.sumGraph), .pull 0]
  have hfirst : LendsSum 1 (({ lease := some ⟨1⟩ } : Scheduler).run first) :=
    ⟨by decide +kernel, by decide +kernel, by decide +kernel, by decide +kernel, by decide +kernel⟩
  have hbegun : ({ lease := some ⟨1⟩ } : Scheduler).history first =
      [.accepted "a" Formula.sumGraph, .handedOut 1] := by decide +kernel
  have hsplit : lendings (more + 1) = first ++ (List.range' 1 more).map .pull := by
    rw [lendings, List.range'_succ, List.map_cons]
    rfl
  have hall : 1 + more ≤ lastMoment := by omega
  obtain ⟨hrun, hseen⟩ := hfirst.pulls hall
  rw [hsplit, run_append, history_append, hseen, hbegun, Nat.add_comm more]
  refine ⟨hrun, ?_⟩
  rw [Nat.add_comm, List.replicate_succ]
  rfl

/-- The sum is out while its counter is zero. -/
theorem lent_sum_refused (hpos : 0 < count) (hlast : count ≤ lastMoment) (hd : UInt32.size ∣ count) :
    let s := ({ lease := some ⟨1⟩ } : Scheduler).run (lendings count)
    (∃ task, s.table.get? 1 = some task ∧ task.status = .inProgress ∧ task.attempts = 0) ∧
      (s.report 1 .three).1 = .error (.taskNotAwaitingResult 1 "not dispatched") := by
  intro s
  have hlent : LendsSum count s := (lendings_hand_out hpos hlast).1
  have hzero : (lentSum count).attempts = 0 :=
    (UInt32.ofNat_eq_iff_mod_eq_toNat _ _).mpr (Nat.mod_eq_zero_of_dvd hd)
  refine ⟨⟨_, hlent.get?, rfl, hzero⟩, ?_⟩
  rw [report_of_inProgress hlent.lock hlent.get? rfl, if_pos hzero]

/-- After 2 ^ 32 hand-outs the sum is out and its counter is zero. The first report for it is refused. -/
theorem sum_refused_after_wrap :
    let s := ({ lease := some ⟨1⟩ } : Scheduler).run (lendings UInt32.size)
    (∀ action ∈ lendings UInt32.size, action.Admissible) ∧
      ({ lease := some ⟨1⟩ } : Scheduler).history (lendings UInt32.size) =
        .accepted "a" Formula.sumGraph :: List.replicate UInt32.size (.handedOut 1) ∧
      (∃ task, s.table.get? 1 = some task ∧ task.status = .inProgress ∧ task.attempts = 0) ∧
      (s.report 1 .three).1 = .error (.taskNotAwaitingResult 1 "not dispatched") := by
  have hpos : 0 < UInt32.size := by decide
  have hlast : UInt32.size ≤ lastMoment := by decide
  exact ⟨admissible_lendings _, (lendings_hand_out hpos hlast).2,
    lent_sum_refused hpos hlast (Nat.dvd_refl _)⟩

end ArithDispatch.Scheduler
