import ArithDispatch.Proofs.Scheduler.Balance
import ArithDispatch.Proofs.Scheduler.Forecast
import Mathlib.Data.Set.Card

/-! A single worker that starts when nobody works and goes on until a pull comes back empty. It gets through
everything, in ascending order of id, and what it is handed out and which expressions are lost on the way
follow from the state that it starts in. So does whether a pull panics over a lease before that. -/
namespace ArithDispatch.Scheduler

/-- What the worker got from a pull, and how its report was answered. -/
structure Turn where
  payload : TaskPayload
  answer : Except Failure Unit

def Turn.id (turn : Turn) : Nat := turn.payload.id

def Turn.step (work : Work) (turn : Turn) : WorkStep :=
  ⟨turn.payload, work turn.payload.operator turn.payload.left turn.payload.right⟩

/-- The worker's loop from its pull number `k` on, as long as its pulls succeed: it pulls, reports what `work`
makes of a payload, and stops when there is none. Pull `k` takes place at the moment `clock k`. -/
inductive Drains (work : Work) (clock : Nat → Nat) : Nat → Scheduler → List Turn → Scheduler → Prop
  | stop {k : Nat} {s t : Scheduler} : s.pull (clock k) = (.ok none, t) → Drains work clock k s [] t
  | turn {k : Nat} {s t after last : Scheduler} {payload : TaskPayload} {answer : Except Failure Unit}
      {turns : List Turn} : s.pull (clock k) = (.ok (some payload), t) →
      t.report payload.id (work payload.operator payload.left payload.right) = (answer, after) →
      Drains work clock (k + 1) after turns last → Drains work clock k s (⟨payload, answer⟩ :: turns) last

variable {work : Work} {clock : Nat → Nat} {s t : Scheduler} {task : Task} {payload : TaskPayload}
  {id now k : Nat} {turns : List Turn}

namespace Drains

theorem unique {last : Scheduler} {others : List Turn} (h : Drains work clock k s turns t)
    (h' : Drains work clock k s others last) : turns = others ∧ t = last := by
  induction h generalizing others with
  | stop hp =>
    cases h' with
    | stop hp' => exact ⟨rfl, congrArg Prod.snd (hp.symm.trans hp')⟩
    | turn hp' => cases hp.symm.trans hp'
  | turn hp hr _ ih =>
    cases h' with
    | stop hp' => cases hp.symm.trans hp'
    | turn hp' hr' hrest =>
      cases hp.symm.trans hp'
      cases hr.symm.trans hr'
      obtain ⟨rfl, rfl⟩ := ih hrest
      exact ⟨rfl, rfl⟩

/-- The loop is a run. -/
theorem exists_run (h : Drains work clock k s turns t) :
    ∃ actions : List Action, (∀ action ∈ actions, action.Admissible) ∧ t = s.run actions := by
  induction h with
  | @stop k s t hp =>
    refine ⟨[.pull (clock k)], by simp [Action.Admissible], ?_⟩
    simp only [run, List.foldl_cons, List.foldl_nil, Scheduler.perform, hp]
  | @turn k s t after last payload answer turns hp hr _ ih =>
    obtain ⟨actions, ha, rfl⟩ := ih
    refine ⟨.pull (clock k) :: .report payload.id (work payload.operator payload.left payload.right) :: actions,
      List.forall_mem_cons.mpr ⟨trivial, List.forall_mem_cons.mpr ⟨trivial, ha⟩⟩, ?_⟩
    simp only [run, List.foldl_cons, Scheduler.perform, hp, hr]

/-- At a standing clock, and with pulls enough, a worker goes through the loop. -/
theorem drain_eq (h : Drains work (fun _ => now) k s turns t) {limit : Nat} (hl : turns.length < limit) :
    s.drain work now limit = (turns.map (Turn.step work), t) := by
  induction h generalizing limit with
  | stop hp =>
    obtain ⟨limit, rfl⟩ := Nat.exists_eq_add_of_lt hl
    simp only [drain, hp, List.map_nil]
  | turn hp hr _ ih =>
    obtain ⟨limit, rfl⟩ := Nat.exists_eq_add_one_of_ne_zero (Nat.ne_zero_of_lt hl)
    simp only [drain, hp, hr, ih (Nat.lt_of_succ_lt_succ hl), List.map_cons, Turn.step]

end Drains

/-- From `s` to `t` the task was handed out, and at most tasks that have their results went away. -/
structure Sends (s : Scheduler) (now : Nat) (payload : TaskPayload) (task : Task) (t : Scheduler) : Prop where
  coherent : Coherent t
  lock : t.poisoned = s.poisoned
  sent : t.table.get? payload.id = some (s.handedOut now task payload.left payload.right)
  live : ∀ id other, t.table.get? id = some other → id ≠ payload.id → s.table.get? id = some other
  kept : ∀ id other, s.Undone id other → id ≠ payload.id → t.table.get? id = some other
  invalid : ∀ owner, t.registry.status? owner = some .invalid ↔ s.registry.status? owner = some .invalid

/-- From `s` to `t` the task got its result, and may have gone with it. All other tasks without a result are as
they were. -/
structure Settles (s : Scheduler) (id : Nat) (value : Binary64) (t : Scheduler) : Prop where
  live : ∀ other task, t.table.get? other = some task → (s.table.get? other = some task ∧ other ≠ id) ∨
    other = id ∧ task.isDone = true ∧ task.result = value
  kept : ∀ other task, s.Undone other task → other ≠ id → t.table.get? other = some task
  invalid : ∀ owner, t.registry.status? owner = some .invalid ↔ s.registry.status? owner = some .invalid

theorem Settles.undone_iff {value : Binary64} (h : s.Settles id value t) (other : Nat) (task : Task) :
    t.Undone other task ↔ s.Undone other task ∧ other ≠ id := by
  constructor
  · intro hu
    rcases h.live other task hu.1 with ⟨hg, hne⟩ | ⟨_, hd, _⟩
    · exact ⟨⟨hg, hu.2⟩, hne⟩
    · cases hd.symm.trans hu.2
  · rintro ⟨hu, hne⟩
    exact ⟨h.kept other task hu hne, hu.2⟩

theorem Sends.settles {value : Binary64} {last : Scheduler} (h : s.Sends now payload task t)
    (ht : t.Settles payload.id value last) : s.Settles payload.id value last where
  live id other hg := (ht.live id other hg).imp_left fun ⟨hg, hne⟩ => ⟨h.live id other hg hne, hne⟩
  kept id other hu hne := ht.kept id other ⟨h.kept id other hu hne, hu.2⟩ hne
  invalid owner := (ht.invalid owner).trans (h.invalid owner)

namespace Coherent

/-- A pull comes to the first task without a result that is left after what it removes, and hands it out if its
lease fits. -/
theorem pull_of_idle (h : Coherent s) (hidle : s.Idle) (hsound : s.poisoned = false) (work : Work)
    (now : Nat) :
    (∃ t, s.pull now = (.ok none, t) ∧ Coherent t ∧ Foresees work s [] t ∧ ∀ id task, ¬ t.Undone id task) ∨
    ∃ t payload task, Coherent t ∧ t.Idle ∧ t.poisoned = false ∧ Foresees work s [] t ∧
      t.Offers now payload task ∧ (∀ id other, t.Undone id other → payload.id ≤ id) ∧
      s.pull now =
        if s.leaseFits now then
          (.ok (some payload), (t.dispatch now task payload.left payload.right task.isInProgress).2)
        else (.panic, t.poison) := by
  have found {t : Scheduler} {cursor : Nat} {task : Task} {left right : Binary64} {again : Bool}
      (hs : Scanning now s t cursor)
      (ha : t.table.nextAttention t.registry now cursor = some (task, .dispatch left right again)) :
      again = task.isInProgress ∧ Coherent t ∧ t.Idle ∧ t.poisoned = false ∧ Foresees work s [] t ∧
        t.Offers now ⟨task.id, left, right, task.operator, task.duration⟩ task ∧
        ∀ id other, t.Undone id other → task.id ≤ id := by
    obtain ⟨hidle', hbehind, hforesees⟩ := h.foresees_scanning hidle work hs
    have ht := h.scanning hs
    obtain ⟨hg, _, hneeds, _⟩ := TaskTable.nextAttention_eq_some ha
    obtain ⟨hd, hx, _, _, hl, hr, ⟨_, _, hf⟩ | ⟨hz, hf⟩⟩ := ht.attention_cases hg hneeds <;> cases hf
    exact ⟨rfl, ht, hidle', hs.poisoned.trans hsound, hforesees, ⟨hg, rfl, rfl, hd, hx, hl, hr, hz⟩,
      fun id other hu => ht.least_of_nextAttention hidle' hbehind ha hu⟩
  rcases s.pull_cases now with
    ⟨outcome, t, hf, he⟩ | ⟨t, cursor, task, left, right, again, hs, ha, _, hfits, he⟩
  · cases hf with
    | locked hlock => exact absurd hlock (Bool.eq_false_iff.mp hsound)
    | idle _ hs ha =>
      obtain ⟨hidle', hbehind, hforesees⟩ := h.foresees_scanning hidle work hs
      exact .inl ⟨t, he, h.scanning hs, hforesees, fun id task =>
        (h.scanning hs).not_undone_of_nextAttention hidle' hbehind ha⟩
    | panicked _ hs ha hfits =>
      obtain ⟨_, ht, hidle', hlock, hforesees, ho, hleast⟩ := found hs ha
      exact .inr ⟨_, _, _, ht, hidle', hlock, hforesees, ho, hleast, by rw [hfits]; exact he⟩
  · obtain ⟨rfl, ht, hidle', hlock, hforesees, ho, hleast⟩ := found hs ha
    exact .inr ⟨_, _, _, ht, hidle', hlock, hforesees, ho, hleast, by rw [hfits]; exact he⟩

/-- A hand-out leaves the task at the worker. What was read for it is gone, and had its result. -/
theorem sends_of_offers (h : Coherent s) (ho : s.Offers now payload task) (redispatch : Bool) :
    s.Sends now payload task (s.dispatch now task payload.left payload.right redispatch).2 := by
  have hid : task.id = payload.id := Arena.id_of_get? ho.live
  have hget := h.get?_of_offers ho redispatch
  refine ⟨h.dispatch (hid ▸ ho.live) ho.left ho.right ho.notDone now _, rfl, by rw [hget, if_pos rfl], ?_,
    ?_, ?_⟩
  · intro id other hother hne
    rw [hget, if_neg hne] at hother
    split at hother
    · cases hother
    · exact hother
  · intro id other hu hne
    rw [hget, if_neg hne, if_neg, hu.1]
    intro hm
    obtain ⟨below, hbelow, hd⟩ := TaskTable.done_of_ready ho.left ho.right id hm
    obtain rfl := Option.some.inj (hu.1.symm.trans hbelow)
    cases hd.symm.trans hu.2
  · intro owner
    have hreg : (s.dispatch now task payload.left payload.right redispatch).2.registry =
      (s.registry.markCalculating task.owner).2 := rfl
    rw [hreg, Registry.markCalculating_eq_moveTo, Registry.status?_moveTo_eq_invalid (by simp [Stage.status])]

/-- A report that is taken for a root ends its expression, where no other task is live by then. -/
theorem settles_of_takes (h : Coherent s) {value : Binary64} (ht : s.Takes id value task) :
    s.Settles id value (s.report id value).2 := by
  rcases h.report_cases id value with
    ⟨failure, t, _, he⟩ | ⟨out, rfl, hg, _, ⟨_, he⟩ | ⟨t, hroot, he, hreg, hafter, _⟩⟩
  · cases ht.reported.symm.trans (congrArg Prod.fst he)
  · rw [he]
    have hrecord := get?_record hg value
    refine ⟨fun id other hother => ?_, fun id other hu hne => ?_, fun owner => Iff.rfl⟩
    · rw [hrecord] at hother
      split at hother
      · next hsame =>
        cases hother
        exact .inr ⟨hsame, rfl, rfl⟩
      · next hne => exact .inl ⟨hother, hne⟩
    · rw [hrecord, if_neg hne]
      exact hu.1
  · rw [he]
    obtain rfl := Option.some.inj (ht.live.symm.trans hg)
    have hd := h.settled _ task hg (by simp [ht.sent])
    refine ⟨fun id other hother => ?_, fun id other hu hne => ?_, fun owner => ?_⟩
    · rw [hafter, Option.filter_eq_some_iff] at hother
      refine .inl ⟨hother.1, ?_⟩
      rintro rfl
      cases hg.symm.trans hother.1
      simp at hother
    · have happart := owner_ne_of_finished h hg hroot hd hu.1 hne
      rw [hafter, hu.1, Option.filter_some_pos (by simpa using happart)]
    · rw [hreg, Registry.complete, Registry.status?_moveTo_eq_invalid (by simp [Stage.status])]

/-- A report that comes right after the task was handed out is taken. -/
theorem report_of_sends (h : Coherent s) (hidle : s.Idle) (hsound : s.poisoned = false)
    (ho : s.Offers now payload task) (hs : s.Sends now payload task t) (value : Binary64) :
    ∃ last, t.report payload.id value = (.ok (), last) ∧ Coherent last ∧ s.Settles payload.id value last := by
  -- the task was not out before, so this is its first hand-out
  have hpending : task.status = .pending :=
    ho.pending_or_out.resolve_right fun hp => hidle _ task ho.live (Task.isInProgress_iff.mp hp)
  have hawaited : refusal? (s.handedOut now task payload.left payload.right) = none := by
    have hfirst := h.untried _ task ho.live hpending
    simp [refusal?, handedOut, Task.isDone, hfirst]
  have hok : (t.report payload.id value).1 = .ok () := by
    rw [report_of_awaited (hs.lock.trans hsound) hs.sent hawaited]
  have hsettles := hs.coherent.settles_of_takes ⟨hok, hs.sent, rfl⟩
  exact ⟨_, Prod.ext hok rfl, hs.coherent.report _ _, hs.settles hsettles⟩

/-- One turn of the worker hands out the first task that is due and brings its result in. -/
theorem turn_of_offers (h : Coherent s) (hidle : s.Idle) (hlock : s.poisoned = false)
    (ho : s.Offers now payload task) (hleast : ∀ id other, s.Undone id other → payload.id ≤ id) (work : Work) :
    ∃ t, (s.dispatch now task payload.left payload.right task.isInProgress).2.report payload.id
        (work payload.operator payload.left payload.right) = (.ok (), t) ∧
      Coherent t ∧ t.Idle ∧ Foresees work s [payload.id] t := by
  obtain ⟨t, he, ht, hsettles⟩ := h.report_of_sends hidle hlock ho (h.sends_of_offers ho task.isInProgress)
    (work payload.operator payload.left payload.right)
  have hu : s.Undone payload.id task := ⟨ho.live, ho.notDone⟩
  have hcomputes : Computes work s t := by
    intro id other hother
    rcases hsettles.live id other hother with ⟨hg, _⟩ | ⟨rfl, hd, hv⟩
    · exact .inl hg
    · rw [hv, ho.operator]
      exact .inr ⟨hd, .computed hu (yields_of_ready ho.left) (yields_of_ready ho.right)⟩
  have hsound : ∀ owner, ¬ s.BreaksAt work owner payload.id := by
    rintro owner ⟨other, right, hother, _, hop, hy, hz⟩
    obtain rfl := hu.unique hother
    obtain rfl := hy.unique (yields_of_ready ho.right)
    exact ho.divisible ⟨hop, hz⟩
  refine ⟨t, he, ht, fun id other hother hp => ?_,
    .compute ht hcomputes hu hsound hsettles.undone_iff hsettles.invalid hleast⟩
  rcases hsettles.live id other hother with ⟨hg, _⟩ | ⟨_, hd, _⟩
  · exact hidle id other hg hp
  · rw [Task.isDone, hp] at hd
    cases hd

/-- Where every live task has its result none is live: an open expression waits for its root. -/
theorem size_eq_zero (h : Coherent s) (hn : ∀ id task, ¬ s.Undone id task) : s.table.size = 0 := by
  refine List.length_eq_zero_iff.mpr (List.eq_nil_iff_forall_not_mem.mpr fun task hm => ?_)
  obtain ⟨root, ho, _⟩ := h.owned task.id task (Arena.mem_tasks_iff.mp hm)
  obtain ⟨top, htop, _, hd⟩ := h.rooted task.owner root ho
  exact hn root top ⟨htop, hd⟩

theorem finite_due (s : Scheduler) (work : Work) : {id | s.Due work id}.Finite := by
  refine s.table.liveIds.finite_toSet.subset fun id hdue => ?_
  obtain ⟨task, hu, _⟩ := hdue
  exact TaskTable.mem_liveIds.mpr ⟨task, hu.1⟩

end Coherent

namespace Foresees

/-- Every turn leaves one task less that is due. -/
theorem ncard_due_of_turn {after : Scheduler} (h : Foresees work s [id] after) :
    {other | s.Due work other}.ncard = {other | after.Due work other}.ncard + 1 := by
  have hinsert : {other | s.Due work other} = insert id {other | after.Due work other} := by
    ext other
    rw [Set.mem_ofPred_eq, h.due, List.mem_singleton, Set.mem_insert_iff, Set.mem_ofPred_eq]
  have hgone : id ∉ {other | after.Due work other} := by
    rintro ⟨task, hu, _⟩
    exact Nat.lt_irrefl id (h.behind id (List.mem_singleton_self id) id task hu)
  rw [hinsert, Set.ncard_insert_of_notMem hgone (Coherent.finite_due after work)]

/-- What is handed out until every task has its result is what was due. -/
theorem ncard_due {sent : List Nat} (h : Foresees work s sent t) (hnone : ∀ id task, ¬ t.Undone id task) :
    {id | s.Due work id}.ncard = sent.length := by
  have hsent : {id | s.Due work id} = sent.toFinset := by
    ext id
    rw [Set.mem_ofPred_eq, h.due, List.coe_toFinset, Set.mem_ofPred_eq, or_iff_left]
    rintro ⟨task, hu, _⟩
    exact hnone id task hu
  rw [hsent, Set.ncard_coe_finset, List.toFinset_card_of_nodup (h.ordered.imp Nat.ne_of_lt)]

end Foresees

theorem sound_of_pull {handed : Option TaskPayload} (hp : (s.pull now).1 = .ok handed) : s.poisoned = false := by
  by_contra hlock
  rw [pull_of_poisoned (Bool.not_eq_false _ ▸ hlock)] at hp
  cases hp

namespace Coherent

/-- A turn of the loop, from a pull that has handed a task out. -/
theorem turn_of_pull (h : Coherent s) (hidle : s.Idle) (hp : s.pull now = (.ok (some payload), t)) (work : Work) :
    ∃ after, t.report payload.id (work payload.operator payload.left payload.right) = (.ok (), after) ∧
      Coherent after ∧ after.Idle ∧ Foresees work s [payload.id] after ∧ s.leaseFits now = true ∧
      after.lease = s.lease ∧ after.poisoned = false := by
  have hsound := sound_of_pull (congrArg Prod.fst hp)
  rcases h.pull_of_idle hidle hsound work now with
    ⟨u, he, _⟩ | ⟨u, found, task, hu, hidle', hlock, hforesees, ho, hleast, he⟩
  · cases hp.symm.trans he
  · cases hfits : s.leaseFits now with
    | false =>
      rw [hfits] at he
      cases hp.symm.trans he
    | true =>
      rw [hfits] at he
      obtain ⟨rfl, rfl⟩ : found = payload ∧
          (u.dispatch now task found.left found.right task.isInProgress).2 = t := by
        cases he.symm.trans hp
        exact ⟨rfl, rfl⟩
      obtain ⟨after, hr, hafter, hidle'', hturn⟩ := hu.turn_of_offers hidle' hlock ho hleast work
      refine ⟨after, hr, hafter, hidle'', hforesees.trans hturn, rfl, ?_, ?_⟩
      · have hpull := (Extends.pull h now).lease
        have hreport := (Extends.report (s.pull now).2 found.id
          (work found.operator found.left found.right)).lease
        rw [hp] at hpull hreport
        rw [hr] at hreport
        exact hreport.trans hpull
      · have hkept := poisoned_report (u.dispatch now task found.left found.right task.isInProgress).2 found.id
          (work found.operator found.left found.right)
        rw [hr] at hkept
        exact hkept.trans hlock

/-- The worker comes to an end if the lease fits whenever a task is due, since every turn leaves one less. -/
theorem exists_drains (h : Coherent s) (hidle : s.Idle) (hsound : s.poisoned = false) (work : Work)
    (clock : Nat → Nat) (k : Nat)
    (hfits : ∀ i < {id | s.Due work id}.ncard, s.leaseFits (clock (k + i)) = true) :
    ∃ turns t, Drains work clock k s turns t := by
  induction hn : {id | s.Due work id}.ncard generalizing s k with
  | zero =>
    rcases h.pull_of_idle hidle hsound work (clock k) with
      ⟨t, he, _⟩ | ⟨t, payload, task, ht, hidle', hlock, hforesees, ho, hleast, _⟩
    · exact ⟨[], t, .stop he⟩
    · obtain ⟨_, _, _, _, hturn⟩ := ht.turn_of_offers hidle' hlock ho hleast work
      have hone := (hforesees.trans hturn).ncard_due_of_turn
      omega
  | succ n ih =>
    rcases h.pull_of_idle hidle hsound work (clock k) with
      ⟨t, he, _⟩ | ⟨t, payload, task, _, _, _, _, _, _, he⟩
    · exact ⟨[], t, .stop he⟩
    · have hfit : s.leaseFits (clock k) = true := hfits 0 (by omega)
      rw [if_pos hfit] at he
      obtain ⟨after, hr, hafter, hidle', hturn, _, hlease, hlock⟩ := h.turn_of_pull hidle he work
      have hone := hturn.ncard_due_of_turn
      obtain ⟨turns, last, hdrains⟩ := ih hafter hidle' hlock (k + 1) (fun i hi => by
        rw [leaseFits_congr hlease, Nat.add_right_comm]
        exact hfits (i + 1) (by omega)) (by omega)
      exact ⟨_, last, .turn he hr hdrains⟩

end Coherent

/-- What the loop does when it comes to its end, along its turns. -/
theorem Drains.complete (h : Drains work clock k s turns t) (hc : Coherent s) (hidle : s.Idle) :
    (∀ turn ∈ turns, turn.answer = .ok ()) ∧ Foresees work s (turns.map Turn.id) t ∧ Coherent t ∧
      (∀ id task, ¬ t.Undone id task) ∧ s.poisoned = false ∧
      ∀ i < turns.length, s.leaseFits (clock (k + i)) = true := by
  induction h with
  | @stop k s t hp =>
    have hsound := sound_of_pull (congrArg Prod.fst hp)
    rcases hc.pull_of_idle hidle hsound work (clock k) with
      ⟨u, he, hu, hforesees, hnone⟩ | ⟨u, payload, task, _, _, _, _, _, _, he⟩
    · cases he.symm.trans hp
      exact ⟨by simp, hforesees, hu, hnone, hsound, by simp⟩
    · rw [hp] at he
      split at he <;> cases he
  | @turn k s t after last payload answer turns hp hr _ ih =>
    have hsound := sound_of_pull (congrArg Prod.fst hp)
    obtain ⟨next, hnext, hafter, hidle', hturn, hfit, hlease, _⟩ := hc.turn_of_pull hidle hp work
    cases hnext.symm.trans hr
    obtain ⟨hok, hrest, hlast, hnone, _, hfits⟩ := ih hafter hidle'
    refine ⟨List.forall_mem_cons.mpr ⟨rfl, hok⟩, hturn.trans hrest, hlast, hnone, hsound, fun i hi => ?_⟩
    cases i with
    | zero => exact hfit
    | succ i =>
      rw [← leaseFits_congr hlease, ← Nat.add_assoc, Nat.add_right_comm]
      exact hfits i (Nat.lt_of_succ_lt_succ hi)

/-- One pull more than there are live tasks is enough for the loop. -/
theorem Coherent.drainAll_eq (h : Coherent s) (hidle : s.Idle) (hsound : s.poisoned = false)
    (hfits : s.leaseFits now = true) (work : Work) :
    ∃ turns t, Drains work (fun _ => now) 0 s turns t ∧
      s.drainAll work now = (turns.map (Turn.step work), t) := by
  obtain ⟨turns, t, hdrains⟩ := h.exists_drains hidle hsound work (fun _ => now) 0 fun _ _ => hfits
  obtain ⟨_, hforesees, _, hnone, _⟩ := hdrains.complete h hidle
  refine ⟨turns, t, hdrains, hdrains.drain_eq (Nat.lt_succ_of_le ?_)⟩
  have hdue : {id | s.Due work id} ⊆ (s.table.liveIds : Set Nat) := by
    rintro id ⟨task, hu, _⟩
    exact TaskTable.mem_liveIds.mpr ⟨task, hu.1⟩
  calc turns.length = {id | s.Due work id}.ncard := by rw [hforesees.ncard_due hnone, List.length_map]
    _ ≤ s.table.liveIds.card := by
        rw [← Set.ncard_coe_finset]
        exact Set.ncard_le_ncard hdue (Finset.finite_toSet _)
    _ = s.table.size := s.table.card_liveIds

/-- Without live tasks no created task is outstanding, however far the counters have come. -/
theorem Balanced.outstanding_of_empty {events : List Event} {answers : List Answer} {totals : Totals}
    (h : Balanced events answers totals s) (he : s.table.size = 0) : s.metrics.outstanding = 0 := by
  have hlive := h.live
  rw [he, Nat.zero_add] at hlive
  rw [h.metrics, Metrics.outstanding]
  simp only [Totals.metrics, hlive, UInt64.ofNat_add, Nat.sub_self]

/-- A single worker, whatever it computes and however long it takes, gets through every state in which no
task is out, if the lock is not poisoned and no lease runs out behind the last moment while there is work to
hand out. Its reports are all taken, and it is handed out, in ascending order of id, each live task that was
never handed out, but in an expression that comes to a division by zero only those before the first
such division. At the end no task is live or outstanding and every expression is done or invalid: invalid are
those that come to a division by zero, and those that were. -/
theorem worker_drains_in_order (durations : OperationDurations) (lease : Option Duration)
    {actions : List Action} (ha : ∀ action ∈ actions, action.Admissible)
    (hidle : (({ durations, lease } : Scheduler).run actions).Idle) (work : Work) (clock : Nat → Nat) :
    let start : Scheduler := { durations, lease }
    let s := start.run actions
    ((∃ turns t, Drains work clock 0 s turns t) ↔
      s.poisoned = false ∧ ∀ k < {id | s.Due work id}.ncard, s.leaseFits (clock k) = true) ∧
    ∀ turns t, Drains work clock 0 s turns t →
      (∀ turn ∈ turns, turn.answer = .ok ()) ∧
      (turns.map Turn.id).Pairwise (· < ·) ∧
      (∀ id, id ∈ turns.map Turn.id ↔ ∃ task, s.table.get? id = some task ∧
        .handedOut id ∉ start.history actions ∧
        ∀ division, s.BreaksAt work task.owner division → id < division) ∧
      t.table.size = 0 ∧ t.metrics.outstanding = 0 ∧
      (∀ owner status, t.registry.status? owner = some status → status = .done ∨ status = .invalid) ∧
      ∀ owner, t.registry.status? owner = some .invalid ↔
        s.registry.status? owner = some .invalid ∨ ∃ division, s.BreaksAt work owner division := by
  intro start s
  have hfresh : Coherent start := .fresh durations lease
  have hempty : Recorded [] start := .fresh durations lease
  have hc : Coherent s := hfresh.run ha
  have hrecorded : Recorded (start.history actions) s := hempty.run hfresh ha
  have hends : (∃ turns t, Drains work clock 0 s turns t) ↔
      s.poisoned = false ∧ ∀ k < {id | s.Due work id}.ncard, s.leaseFits (clock k) = true := by
    constructor
    · rintro ⟨turns, t, hdrains⟩
      obtain ⟨_, hforesees, _, hnone, hsound, hfits⟩ := hdrains.complete hc hidle
      rw [hforesees.ncard_due hnone, List.length_map]
      exact ⟨hsound, fun k hk => Nat.zero_add k ▸ hfits k hk⟩
    · rintro ⟨hsound, hfits⟩
      exact hc.exists_drains hidle hsound work clock 0 fun k hk => (Nat.zero_add k).symm ▸ hfits k hk
  refine ⟨hends, fun turns t hdrains => ?_⟩
  obtain ⟨hok, hforesees, ht, hnone, _⟩ := hdrains.complete hc hidle
  have hsize := ht.size_eq_zero hnone
  have hnever : ∀ {id task}, s.table.get? id = some task →
      (.handedOut id ∉ start.history actions ↔ task.isDone = false) := by
    intro id task hg
    rw [← (hrecorded.live id task hg).waiting, Task.isDone, beq_eq_false_iff_ne]
    refine ⟨fun hp => by simp [hp], fun hd => ?_⟩
    cases hs : task.status with
    | pending => rfl
    | inProgress => exact absurd hs (hidle id task hg)
    | completed => exact absurd hs hd
  have hbreaks : ∀ owner, ¬ ∃ division, t.BreaksAt work owner division := by
    rintro owner ⟨division, task, _, hu, _⟩
    exact hnone division task hu
  refine ⟨hok, hforesees.ordered, fun id => ?_, hsize, ?_, fun owner status hs => ?_, fun owner => ?_⟩
  · have hdue := hforesees.due id
    have hrest : ¬ t.Due work id := by
      rintro ⟨task, hu, _⟩
      exact hnone id task hu
    rw [or_iff_left hrest] at hdue
    rw [← hdue]
    refine exists_congr fun task => ?_
    rw [← and_assoc]
    exact and_congr_left fun _ => and_congr_right fun hg => (hnever hg).symm
  · obtain ⟨more, hmore, rfl⟩ := hdrains.exists_run
    have hall : ∀ action ∈ actions ++ more, action.Admissible := List.forall_mem_append.mpr ⟨ha, hmore⟩
    obtain ⟨totals, hbalanced⟩ := (Balanced.fresh durations lease).run hfresh hempty hall
    rw [run_append] at hbalanced
    exact hbalanced.outstanding_of_empty hsize
  · have closed : ¬ t.registry.IsOpen owner := by
      intro hopen
      obtain ⟨root, ho⟩ := ht.regular.openRoot? hopen
      obtain ⟨top, htop, _, hd⟩ := ht.rooted owner root ho
      exact hnone root top ⟨htop, hd⟩
    cases status with
    | pending => exact absurd (.inl hs) closed
    | calculating => exact absurd (.inr hs) closed
    | done => exact .inl rfl
    | invalid => exact .inr rfl
  · have hlost := hforesees.lost owner
    rwa [Lost, or_iff_left (hbreaks owner), Lost] at hlost

/-- A difference was reported to be zero, and a sum was accepted since. The worker gets the sum and not the
quotient that waits for the difference. -/
theorem worker_drains_sum_past_quotient :
    let work : Work := fun operator left right =>
      match operator with
      | .sub => left.sub right
      | _ => left.add right
    let clock : Nat → Nat := fun step => 10 * step
    let quotient : Formula.Graph :=
      ⟨[⟨.literal .one, .sub, .literal .one⟩, ⟨.literal .one, .div, .reference 0⟩]⟩
    let actions : List Action := [.accept "a" "1/(1-1)" (.graph quotient), .pull 0, .report 1 .zero,
      .accept "b" "1+2" (.graph Formula.sumGraph)]
    ∃ turns t, Drains work clock 0 (({} : Scheduler).run actions) turns t ∧ 3 ∈ turns.map Turn.id ∧
      2 ∉ turns.map Turn.id ∧ t.registry.status? "a" = some .invalid ∧ t.metrics.outstanding = 0 := by
  intro work clock quotient actions
  have hquotient : Formula.compile "1/(1-1)" = .ok (.graph quotient) := by decide +kernel
  have ha : ∀ action ∈ actions, action.Admissible :=
    List.forall_mem_cons.mpr ⟨Formula.exists_assemble_of_compile hquotient,
      List.forall_mem_cons.mpr ⟨trivial, List.forall_mem_cons.mpr ⟨trivial,
        List.forall_mem_cons.mpr ⟨admissible_sum .., by simp⟩⟩⟩⟩
  let s := ({} : Scheduler).run actions
  have htasks : ∀ task ∈ s.table.arena.tasks, task.status ≠ .inProgress ∧
      (task.owner = "b" → task.operator ≠ .div) := by decide +kernel
  have hidle : s.Idle := fun id task hg => (htasks task (Arena.mem_of_get? hg)).1
  have hlease : s.lease = none := by decide +kernel
  have hfits : ∀ k < {id | s.Due work id}.ncard, s.leaseFits (clock k) = true := by
    intro k _
    rw [leaseFits, hlease]
    rfl
  -- the difference is known to be zero, so its quotient is foreseen to be lost
  have hlost : s.BreaksAt work "a" 2 :=
    ⟨TaskTable.taskOfNode "a" {} 1 1 ⟨.literal .one, .div, .reference 0⟩, .zero,
      ⟨by decide +kernel, by decide +kernel⟩, rfl, rfl, yields_of_ready (by decide +kernel), by decide⟩
  have hwhole : ∀ division, ¬ s.BreaksAt work "b" division :=
    fun _ ⟨task, _, hu, howner, hop, _⟩ => (htasks task (Arena.mem_of_get? hu.1)).2 howner hop
  obtain ⟨hends, hall⟩ := worker_drains_in_order {} none ha hidle work clock
  obtain ⟨turns, t, hdrains⟩ := hends.mpr ⟨by decide +kernel, hfits⟩
  obtain ⟨_, _, hsent, _, hout, _, hinvalid⟩ := hall turns t hdrains
  refine ⟨turns, t, hdrains, (hsent 3).mpr ⟨TaskTable.taskOfNode "b" {} 3 0 ⟨.literal .one, .add, .literal .two⟩,
    by decide +kernel, by decide +kernel, fun division hb => absurd hb (hwhole division)⟩, fun hm => ?_,
    (hinvalid "a").mpr (.inr ⟨2, hlost⟩), hout⟩
  obtain ⟨task, hg, _, hbefore⟩ := (hsent 2).mp hm
  have howner : task.owner = "a" := by
    obtain ⟨division, _, hu, hdivision, _⟩ := hlost
    rw [← hdivision, Option.some.inj (hg.symm.trans hu.1)]
  exact absurd (hbefore 2 (howner ▸ hlost)) (Nat.lt_irrefl 2)

/-- Under the longest lease the first pull panics over the sum, whatever the worker computes, and the
expression stays pending. -/
theorem sum_not_drained_under_longest_lease :
    let s := ({ lease := some .longest } : Scheduler).run [.accept "a" "1+2" (.graph Formula.sumGraph)]
    s.Idle ∧ (s.pull 0).1 = .panic ∧ (∀ work, ¬ ∃ turns t, Drains work (fun _ => 0) 0 s turns t) ∧
      (s.pull 0).2.registry.status? "a" = some .pending := by
  intro s
  have htasks : ∀ task ∈ s.table.arena.tasks, task.status ≠ .inProgress := by decide +kernel
  have hpanic : (s.pull 0).1 = .panic := by decide +kernel
  refine ⟨fun id task hg => htasks task (Arena.mem_of_get? hg), hpanic, ?_, by decide +kernel⟩
  rintro work ⟨turns, t, hdrains⟩
  cases hdrains with
  | stop hp => cases hpanic.symm.trans (congrArg Prod.fst hp)
  | turn hp => cases hpanic.symm.trans (congrArg Prod.fst hp)

end ArithDispatch.Scheduler
