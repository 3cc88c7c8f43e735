import ArithDispatch.Proofs.Expression.Status
import ArithDispatch.Proofs.Scheduler.History
import ArithDispatch.Proofs.Scheduler.Progress

/-! The invariant that ties the state of a scheduler to the history of the run that led there: what is
live, how often it was handed out, what was reported for it, and why a task has gone. -/
namespace ArithDispatch.Scheduler

/-- What the history of a run says about a live task. -/
structure Matches (events : List Event) (id : Nat) (task : Task) : Prop where
  /-- The task is a node of an accepted graph, and it reads its operands until it is handed out. -/
  origin : ∃ graph base i node, Assigned events task.owner graph base ∧ graph.nodes[i]? = some node ∧
    id = base + i ∧ (task.status = .pending → task.dependencies = node.references.map (base + ·))
  attempts : task.attempts = UInt32.ofNat (events.count (.handedOut id))
  waiting : task.status = .pending ↔ .handedOut id ∉ events
  result : ∀ value, .taken id value ∈ events ↔ task.isDone = true ∧ task.result = value

structure Recorded (events : List Event) (s : Scheduler) : Prop where
  next : s.table.nextId = firstFree events
  live : ∀ id task, s.table.get? id = some task → Matches events id task
  begun : ∀ id task, s.table.get? id = some task → task.status ≠ .pending →
    s.registry.status? task.owner = some .calculating
  /-- A task goes once its result was taken, or with an expression that becomes invalid. -/
  gone : ∀ id owner, BelongsTo events id owner → s.registry.status? owner ≠ some .invalid →
    s.table.get? id = none → Taken events id
  sent : ∀ id, Taken events id → .handedOut id ∈ events
  issued : ∀ id, .handedOut id ∈ events → id < s.table.nextId
  once : ∀ id, events.countP (Event.takes id) ≤ 1

variable {events : List Event} {event : Event} {s t : Scheduler} {task : Task} {now id : Nat}
  {owner source : String} {graph : Formula.Graph}

/-- An event that is not about the task says nothing new about it. -/
theorem Matches.frame (h : Matches events id task) (he : event.task? ≠ some id) :
    Matches (events ++ [event]) id task where
  origin := by
    obtain ⟨graph, base, i, node, ha, hn⟩ := h.origin
    exact ⟨graph, base, i, node, ha.append [event], hn⟩
  attempts := by rw [count_handedOut_concat he, h.attempts]
  waiting := by rw [handedOut_mem_concat he, h.waiting]
  result value := by rw [taken_mem_concat he, h.result]

theorem Matches.belongsTo (h : Matches events id task) : BelongsTo events id task.owner := by
  obtain ⟨graph, base, i, node, ha, hn, hid, _⟩ := h.origin
  exact ⟨graph, base, i, ha, (List.getElem?_eq_some_iff.mp hn).1, hid⟩

theorem Matches.handedOut_mem (h : Matches events id task) (hs : task.status ≠ .pending) :
    .handedOut id ∈ events := by
  by_contra hn
  exact hs (h.waiting.mpr hn)

theorem Matches.not_taken (h : Matches events id task) (hd : task.isDone = false) :
    ¬ Taken events id := by
  rintro ⟨value, hm⟩
  simpa [hd] using (h.result value).mp hm

/-- The task has been handed out once more. -/
theorem Matches.handedOut (h : Matches events task.id task) (hd : task.isDone = false) (s : Scheduler)
    (now : Nat) (left right : Binary64) :
    Matches (events ++ [.handedOut task.id]) task.id (s.handedOut now task left right) where
  origin := by
    obtain ⟨graph, base, i, node, ha, hn, hid, _⟩ := h.origin
    exact ⟨graph, base, i, node, ha.append _, hn, hid, by simp [Scheduler.handedOut]⟩
  attempts := by
    rw [List.count_append, List.count_singleton_self, UInt32.ofNat_add, ← h.attempts]
    rfl
  waiting := by simp [Scheduler.handedOut]
  result value := by
    have hn : .taken task.id value ∉ events := fun hm => h.not_taken hd ⟨value, hm⟩
    simp [hn, Scheduler.handedOut, Task.isDone]

/-- The result of the task has come in. -/
theorem Matches.withResult (h : Matches events task.id task) (hs : task.status = .inProgress)
    (value : Binary64) : Matches (events ++ [.taken task.id value]) task.id (withResult task value) where
  origin := by
    obtain ⟨graph, base, i, node, ha, hn, hid, _⟩ := h.origin
    exact ⟨graph, base, i, node, ha.append _, hn, hid, by simp [Scheduler.withResult]⟩
  attempts := by
    rw [List.count_append, List.count_singleton]
    exact h.attempts
  waiting := by simp [h.handedOut_mem (by simp [hs]), Scheduler.withResult]
  result other := by
    have hn : .taken task.id other ∉ events := fun hm => h.not_taken (by simp [Task.isDone, hs]) ⟨other, hm⟩
    simp [hn, Scheduler.withResult, Task.isDone, eq_comm]

namespace Recorded

theorem fresh (durations : OperationDurations) (lease : Option Duration) :
    Recorded [] { durations, lease } where
  next := rfl
  live id task hg := by cases hg
  begun id task hg := by cases hg
  gone id owner hb := by
    obtain ⟨_, _, _, ha, _⟩ := hb
    exact absurd ha not_assigned_nil
  sent id ht := by
    obtain ⟨value, hm⟩ := ht
    cases hm
  issued id hm := by cases hm
  once id := Nat.zero_le 1

/-- Nobody saw anything, and no task has changed. -/
theorem unseen (h : Recorded events s)
    (hg : ∀ id task, t.table.get? id = some task → s.table.get? id = some task)
    (hn : t.table.nextId = s.table.nextId)
    (hb : ∀ id task, t.table.get? id = some task → s.registry.status? task.owner = some .calculating →
      t.registry.status? task.owner = some .calculating)
    (hgone : ∀ id owner, BelongsTo events id owner → t.registry.status? owner ≠ some .invalid →
      t.table.get? id = none → Taken events id) : Recorded events t where
  next := hn.trans h.next
  live id task ht := h.live id task (hg id task ht)
  begun id task ht hs := hb id task ht (h.begun id task (hg id task ht) hs)
  gone := hgone
  sent := h.sent
  issued id hm := hn ▸ h.issued id hm
  once := h.once

theorem refuse (h : Recorded events s) : Recorded events s.refuse :=
  h.unseen (fun _ _ hg => hg) rfl (fun _ _ _ hs => hs) h.gone

theorem poison (h : Recorded events s) : Recorded events s.poison :=
  h.unseen (fun _ _ hg => hg) rfl (fun _ _ _ hs => hs) h.gone

theorem advance (h : Recorded events s) : Recorded events { s with table := s.table.advance } := by
  refine h.unseen ?_ s.table.nextId_advance (fun _ _ _ hs => hs) ?_
  · intro id task hg
    rwa [TaskTable.get?_advance] at hg
  · intro id owner hb hs hg
    rw [TaskTable.get?_advance] at hg
    exact h.gone id owner hb hs hg

/-- The owner of a live task is the expression that the history assigns its id to. -/
theorem owner_of_belongsTo (h : Recorded events s) (hg : s.table.get? id = some task)
    (hb : BelongsTo events id owner) : task.owner = owner := by
  obtain ⟨graph, base, i, ha, hi, rfl⟩ := hb
  obtain ⟨graph', base', j, node, ha', hn, he, _⟩ := (h.live _ task hg).origin
  exact (ha'.unique ha (List.getElem?_eq_some_iff.mp hn).1 hi he.symm).1

theorem invalidate (h : Recorded events s) (hc : Coherent s) (hg : s.table.get? task.id = some task)
    (obstacle : Obstacle) : Recorded events (s.invalidate task obstacle) := by
  have hget := get?_invalidate hc hg obstacle
  have hreg : (s.invalidate task obstacle).registry =
      (s.registry.invalidate task.owner obstacle.reason).2 := rfl
  obtain ⟨root, ho, _⟩ := hc.owned task.id task hg
  refine h.unseen ?_ ?_ ?_ ?_
  · intro id other hgt
    rw [hget, Option.filter_eq_some_iff] at hgt
    exact hgt.1
  · simp only [Scheduler.invalidate]
    split <;> rfl
  · intro id other hgt hs
    rw [hget, Option.filter_eq_some_iff] at hgt
    rw [hreg]
    exact (s.registry.status?_moveTo_of_ne (by simpa using hgt.2) _).trans hs
  · intro id owner hb hs hgt
    rw [hreg] at hs
    rw [hget] at hgt
    cases hold : s.table.get? id with
    | none => exact h.gone id owner hb (Registry.status?_ne_invalid_of_moveTo hs) hold
    | some other =>
      have hsame : other.owner = task.owner := by simpa [hold] using hgt
      rw [← h.owner_of_belongsTo hold hb, hsame] at hs
      exact absurd (Registry.status?_invalidate ho _) hs

theorem scanning (h : Recorded events s) (hc : Coherent s) {cursor : Nat} (hs : Scanning now s t cursor) :
    Recorded events t := by
  induction hs with
  | start => exact h.advance
  | sweep hs ha => exact absurd ha (hc.scanning hs).nextAttention_ne_sweep
  | invalidate hs ha ih =>
    exact ih.invalidate (hc.scanning hs) (TaskTable.nextAttention_eq_some ha).1 _

/-- Something happened to one task, which may have changed or gone, and others went whose results were
taken. -/
theorem seen (h : Recorded events s) (he : event.task? = some task.id)
    (hlive : ∀ id other, t.table.get? id = some other →
      (id ≠ task.id ∧ s.table.get? id = some other) ∨ (id = task.id ∧ Matches (events ++ [event]) id other))
    (hbegun : ∀ id other, t.table.get? id = some other → other.status ≠ .pending →
      t.registry.status? other.owner = some .calculating)
    (hlost : ∀ id, t.table.get? id = none → s.table.get? id = none ∨ Taken (events ++ [event]) id)
    (hi : ∀ owner, t.registry.status? owner ≠ some .invalid → s.registry.status? owner ≠ some .invalid)
    (hn : t.table.nextId = s.table.nextId) (hlt : task.id < s.table.nextId)
    (hsent : .handedOut task.id ∈ events ++ [event])
    (honce : (events ++ [event]).countP (Event.takes task.id) ≤ 1) :
    Recorded (events ++ [event]) t := by
  have frame : ∀ {id}, id ≠ task.id → event.task? ≠ some id := by
    intro id hne hid
    exact hne (Option.some.inj (hid.symm.trans he))
  refine ⟨?next, ?live, hbegun, ?gone, ?sent, ?issued, ?once⟩
  case next =>
    have hnone : event.tasks = 0 := by
      cases event with
      | accepted => cases he
      | handedOut => rfl
      | taken => rfl
    rw [hn, h.next, firstFree_concat, hnone, Nat.add_zero]
  case live =>
    intro id other hg
    rcases hlive id other hg with ⟨hne, hgs⟩ | ⟨_, hm⟩
    · exact (h.live id other hgs).frame (frame hne)
    · exact hm
  case gone =>
    rintro id owner ⟨graph, base, i, ha, hlt, hid⟩ hs hg
    rcases hlost id hg with hgs | ht
    · refine (h.gone id owner ⟨graph, base, i, ?_, hlt, hid⟩ (hi owner hs) hgs).append [event]
      exact (assigned_concat_of_task he).mp ha
    · exact ht
  case sent =>
    intro id ht
    by_cases hid : id = task.id
    · exact hid ▸ hsent
    · rw [taken_concat (frame hid)] at ht
      exact (handedOut_mem_concat (frame hid)).mpr (h.sent id ht)
  case issued =>
    intro id hm
    rw [hn]
    by_cases hid : id = task.id
    · exact hid ▸ hlt
    · exact h.issued id ((handedOut_mem_concat (frame hid)).mp hm)
  case once =>
    intro id
    by_cases hid : id = task.id
    · exact hid ▸ honce
    · rw [countP_takes_concat (frame hid)]
      exact h.once id

theorem dispatch (h : Recorded events s) (hc : Coherent s) (hg : s.table.get? task.id = some task)
    {left right : Binary64} (hl : s.table.readiness task.left = .ready left)
    (hr : s.table.readiness task.right = .ready right) (hd : task.isDone = false) (now : Nat)
    (redispatch : Bool) :
    Recorded (events ++ [.handedOut task.id]) (s.dispatch now task left right redispatch).2 := by
  have hget := get?_dispatch hg (fun dep hm => (hc.reads task.id task dep hg hm).1)
    (hc.leaf_of_ready hl hr) now left right redispatch
  obtain ⟨root, ho, _⟩ := hc.owned task.id task hg
  refine h.seen rfl ?live ?begun ?lost ?invalid (nextId_freeAll ..) (hc.bounded _ task hg)
    (List.mem_append_right _ (List.mem_singleton_self _)) ?once
  case live =>
    intro id other hgt
    rw [hget] at hgt
    split at hgt
    · next hid =>
      obtain rfl := Option.some.inj hgt
      exact .inr ⟨hid, hid ▸ (h.live _ task hg).handedOut hd s now left right⟩
    · next hid =>
      split at hgt
      · cases hgt
      · exact .inl ⟨hid, hgt⟩
  case begun =>
    intro id other hgt hs
    rw [hget] at hgt
    split at hgt
    · obtain rfl := Option.some.inj hgt
      exact Registry.status?_markCalculating_of_open ho
    · split at hgt
      · cases hgt
      · exact Registry.status?_markCalculating_of_calculating (h.begun id other hgt hs)
  case lost =>
    intro id hgt
    rw [hget] at hgt
    split at hgt
    · cases hgt
    · split at hgt
      · next hdep =>
        -- what the task read from is completed
        obtain ⟨other, hother, hdone⟩ := TaskTable.done_of_ready hl hr id hdep
        exact .inr (Taken.append ⟨_, ((h.live id other hother).result _).mpr ⟨hdone, rfl⟩⟩ _)
      · exact .inl hgt
  case invalid =>
    intro owner hs hn
    exact hs (Registry.status?_markCalculating_of_invalid hn)
  case once =>
    rw [List.countP_append]
    exact h.once task.id

/-- No result of a task that is out was taken before. -/
theorem countP_takes_of_inProgress (h : Recorded events s) (hg : s.table.get? task.id = some task)
    (hp : task.status = .inProgress) (value : Binary64) :
    (events ++ [Event.taken task.id value]).countP (Event.takes task.id) ≤ 1 := by
  have hnot := (h.live _ task hg).not_taken (by simp [Task.isDone, hp])
  rw [List.countP_append, countP_takes_eq_zero hnot]
  simp [Event.takes]

theorem record (h : Recorded events s) (hc : Coherent s) (hg : s.table.get? task.id = some task)
    (hp : task.status = .inProgress) (value : Binary64) :
    Recorded (events ++ [.taken task.id value]) (s.record task.id value) := by
  have hget := get?_record hg value
  refine h.seen rfl ?live ?begun ?lost (fun _ hs => hs) rfl (hc.bounded _ task hg)
    (List.mem_append_left _ ((h.live _ task hg).handedOut_mem (by simp [hp])))
    (h.countP_takes_of_inProgress hg hp value)
  case live =>
    intro id other hgt
    rw [hget] at hgt
    split at hgt
    · next hid =>
      obtain rfl := Option.some.inj hgt
      exact .inr ⟨hid, hid ▸ (h.live _ task hg).withResult hp value⟩
    · next hid => exact .inl ⟨hid, hgt⟩
  case begun =>
    intro id other hgt hs
    rw [hget] at hgt
    split at hgt
    · obtain rfl := Option.some.inj hgt
      exact h.begun task.id task hg (by simp [hp])
    · exact h.begun id other hgt hs
  case lost =>
    intro id hgt
    rw [hget] at hgt
    split at hgt
    · cases hgt
    · exact .inl hgt

/-- The result of a root closes the expression, of which nothing else was live. -/
theorem finish (h : Recorded events s) (hc : Coherent s) (hg : s.table.get? task.id = some task)
    (hp : task.status = .inProgress) (ho : s.registry.openRoot? task.owner = some task.id)
    {value : Binary64} (hreg : t.registry = (s.registry.complete task.owner value).2)
    (hget : ∀ id, t.table.get? id = (s.table.get? id).filter (·.owner != task.owner))
    (hn : t.table.nextId = s.table.nextId) : Recorded (events ++ [.taken task.id value]) t := by
  have hlive : ∀ {id other}, t.table.get? id = some other →
      s.table.get? id = some other ∧ other.owner ≠ task.owner := by
    intro id other hgt
    rw [hget, Option.filter_eq_some_iff] at hgt
    exact ⟨hgt.1, by simpa using hgt.2⟩
  refine h.seen rfl ?live ?begun ?lost ?invalid hn (hc.bounded _ task hg)
    (List.mem_append_left _ ((h.live _ task hg).handedOut_mem (by simp [hp])))
    (h.countP_takes_of_inProgress hg hp value)
  case live =>
    intro id other hgt
    obtain ⟨hgs, hne⟩ := hlive hgt
    refine .inl ⟨?_, hgs⟩
    rintro rfl
    exact hne (congrArg Task.owner (Option.some.inj (hgs.symm.trans hg)))
  case begun =>
    intro id other hgt hs
    obtain ⟨hgs, hne⟩ := hlive hgt
    rw [hreg]
    exact (s.registry.status?_moveTo_of_ne hne _).trans (h.begun id other hgs hs)
  case lost =>
    intro id hgt
    rw [hget] at hgt
    cases hold : s.table.get? id with
    | none => exact .inl rfl
    | some other =>
      have hsame : other.owner = task.owner := by simpa [hold] using hgt
      obtain rfl : id = task.id := by
        by_contra hne
        exact owner_ne_of_finished hc hg ho (hc.settled task.id task hg (by simp [hp])) hold hne hsame
      exact .inr ⟨value, List.mem_append_right _ (List.mem_singleton_self _)⟩
  case invalid =>
    intro owner hs
    rw [hreg] at hs
    exact Registry.status?_ne_invalid_of_moveTo hs

theorem report (h : Recorded events s) (hc : Coherent s) (id : Nat) (value : Binary64) :
    Recorded (events ++ s.observe (.report id value)) (s.report id value).2 := by
  rcases hc.report_cases id value with
    ⟨failure, t, hf, he⟩ | ⟨task, rfl, hg, hp, ⟨_, he⟩ | ⟨t, ho, he, hreg, hget, hn, _⟩⟩
  · simp only [observe, he, List.append_nil]
    exact hf.elim h h.refuse
  · simp only [observe, he]
    exact h.record hc hg hp value
  · simp only [observe, he]
    exact h.finish hc hg hp ho hreg hget hn

theorem fruitless (h : Recorded events s) (hc : Coherent s) {outcome : Outcome (Option TaskPayload)}
    (hf : Fruitless now s outcome t) : Recorded events t :=
  hf.elim h (fun hs => h.scanning hc hs) fun h => h.poison

theorem pull (h : Recorded events s) (hc : Coherent s) (now : Nat) :
    Recorded (events ++ s.observe (.pull now)) (s.pull now).2 := by
  rcases hc.pull_cases now with
    ⟨outcome, t, hf, he⟩ | ⟨t, cursor, task, left, right, hs, hg, hd, hl, hr, _, he⟩
  · rw [observe_of_fruitless hf he, List.append_nil, he]
    exact h.fruitless hc hf
  · simp only [observe, he]
    exact (h.scanning hc hs).dispatch (hc.scanning hs) hg hl hr hd now _

/-- A new record changes the status of no expression that has tasks. -/
theorem register (h : Recorded events s) (hc : Coherent s) (hnew : s.registry.find? owner = none)
    {record : ExpressionRecord} (ht : t.table = s.table)
    (hf : ∀ other, t.registry.find? other = if other = owner then some record else s.registry.find? other) :
    Recorded events t := by
  refine h.unseen (fun id task hg => ht ▸ hg) (by rw [ht]) ?_ ?_
  · intro id task hg hs
    rw [ht] at hg
    rw [Registry.status?_insert hf (hc.owner_ne_of_new hnew hg), hs]
  · intro id other hb hs hg
    exact h.gone id other hb (Registry.status?_ne_invalid_of_insert hnew hf hs) (ht ▸ hg)

theorem commit (h : Recorded events s) (hc : Coherent s) (hnew : s.registry.find? owner = none)
    (ht : t.table = (s.table.commit graph owner s.durations).2)
    (hf : ∀ other, t.registry.find? other =
      if other = owner then some (.pending source (s.table.nextId + graph.root))
      else s.registry.find? other) : Recorded (events ++ [.accepted owner graph]) t where
  next := by
    rw [firstFree_concat, ← h.next, ht]
    rfl
  live id task hg := by
    rcases TaskTable.get?_commit_cases hc.bounded (ht ▸ hg) with ⟨_, hg⟩ | ⟨i, node, rfl, hn, rfl⟩
    · exact (h.live id task hg).frame (by simp [Event.task?])
    · have hout : .handedOut (s.table.nextId + i) ∉ events := fun hm => by
        have := h.issued _ hm
        omega
      have htaken : ∀ value, .taken (s.table.nextId + i) value ∉ events :=
        fun value hm => hout (h.sent _ ⟨value, hm⟩)
      refine ⟨⟨graph, s.table.nextId, i, node, ?_, hn, rfl, fun _ => ?_⟩, ?_, ?_, fun value => ?_⟩
      · exact assigned_concat.mpr (.inr ⟨rfl, h.next⟩)
      · exact TaskTable.dependencies_taskOfNode ..
      · rw [count_handedOut_concat (by simp [Event.task?]), List.count_eq_zero.mpr hout]
        rfl
      · simp [hout, TaskTable.taskOfNode]
      · simp [htaken, TaskTable.taskOfNode, Task.isDone]
  begun id task hg hs := by
    rcases TaskTable.get?_commit_cases hc.bounded (ht ▸ hg) with ⟨_, hg⟩ | ⟨i, node, rfl, hn, rfl⟩
    · rw [Registry.status?_insert hf (hc.owner_ne_of_new hnew hg)]
      exact h.begun id task hg hs
    · exact absurd rfl hs
  gone id other hb hs hg := by
    obtain ⟨graph', base, i, ha, hi, rfl⟩ := hb
    rw [ht] at hg
    rcases assigned_concat.mp ha with ha | ⟨he, rfl⟩
    · have hlt := ha.le_firstFree
      rw [← h.next] at hlt
      rw [TaskTable.get?_commit_of_lt (by omega)] at hg
      exact (h.gone _ other ⟨graph', base, i, ha, hi, rfl⟩
        (Registry.status?_ne_invalid_of_insert hnew hf hs) hg).append _
    · cases he
      rw [← h.next, TaskTable.get?_commit_add hc.bounded, Option.map_eq_none_iff,
        List.getElem?_eq_none_iff] at hg
      exact absurd hi (Nat.not_lt.mpr hg)
  sent id hm := by
    rw [taken_concat (by simp [Event.task?])] at hm
    exact (handedOut_mem_concat (by simp [Event.task?])).mpr (h.sent id hm)
  issued id hm := by
    rw [ht]
    exact Nat.lt_add_right _ (h.issued id ((handedOut_mem_concat (by simp [Event.task?])).mp hm))
  once id := by
    rw [countP_takes_concat (by simp [Event.task?])]
    exact h.once id

theorem accept (h : Recorded events s) (hc : Coherent s) (owner source : String)
    (compiled : Formula.Compiled) :
    Recorded (events ++ s.observe (.accept owner source compiled)) (s.accept owner source compiled).2 := by
  rcases s.accept_cases owner source compiled with
    ⟨failure, he⟩ | ⟨hnew, ⟨value, t, rfl, he, ht, hf⟩ | ⟨graph, t, rfl, he, ht, hf⟩⟩
  · cases compiled <;> simpa only [observe, he, List.append_nil] using h
  · simp only [observe, he, List.append_nil]
    exact h.register hc (find?_eq_none_of_not_contains hnew) ht hf
  · simp only [observe, he]
    exact h.commit hc (find?_eq_none_of_not_contains hnew) ht hf

theorem perform (h : Recorded events s) (hc : Coherent s) (action : Action) :
    Recorded (events ++ s.observe action) (s.perform action) := by
  cases action with
  | accept owner source compiled => exact h.accept hc owner source compiled
  | pull now => exact h.pull hc now
  | report id value => exact h.report hc id value

theorem run (h : Recorded events s) (hc : Coherent s) {actions : List Action}
    (ha : ∀ action ∈ actions, action.Admissible) :
    Recorded (events ++ s.history actions) (s.run actions) :=
  hc.run_induction ha events h fun hc _ h => h.perform hc _

/-- A task with an expression that is not invalid is live until its result is taken. -/
theorem exists_live (h : Recorded events s) (hb : BelongsTo events id owner)
    (hi : s.registry.status? owner ≠ some .invalid) (ht : ¬ Taken events id) :
    ∃ task, s.table.get? id = some task := by
  cases hg : s.table.get? id with
  | some task => exact ⟨task, rfl⟩
  | none => exact absurd (h.gone id owner hb hi hg) ht

end Recorded

end ArithDispatch.Scheduler
