import ArithDispatch.Proofs.Scheduler.Effects
import ArithDispatch.Proofs.Scheduler.Faithful
import ArithDispatch.Proofs.Scheduler.Recorded

/-! A task is out at one worker at a time: another worker gets it only when a lease has run out, and then gets
the same work. -/
namespace ArithDispatch.Scheduler

/-- The payloads that a run hands out, each with its moment. -/
def handOuts (s : Scheduler) : List Action → List (Nat × TaskPayload)
  | [] => []
  | .pull now :: rest =>
    ((s.pull now).1.payload?.map (now, ·)).toList ++ (s.perform (.pull now)).handOuts rest
  | action :: rest => (s.perform action).handOuts rest

/-- The payload was handed out at the moment, and the task is as it was handed out. -/
structure Lends (lease : Option Duration) (moment : Nat) (payload : TaskPayload) (task : Task) : Prop where
  described : payload.Describes task
  duration : task.duration = payload.duration
  reserved : ∀ now, task.leaseExpired now = true →
    ∃ span, lease = some span ∧ moment + span.nanoseconds ≤ now

/-- The payload was handed out at the moment, and its id is not given to any other task. -/
structure Lent (s : Scheduler) (moment : Nat) (payload : TaskPayload) : Prop where
  issued : payload.id < s.table.nextId
  live : ∀ task, s.table.get? payload.id = some task → Lends s.lease moment payload task

variable {s : Scheduler} {moment now id : Nat} {payload second : TaskPayload} {task : Task} {action : Action}
  {actions : List Action} {lease : Option Duration} {owner : String} {events : List Event}

theorem leaseExpired_handedOut (s : Scheduler) (moment now : Nat) (task : Task) (left right : Binary64) :
    (s.handedOut moment task left right).leaseExpired now = true ↔
      ∃ span, s.lease = some span ∧ moment + span.nanoseconds ≤ now := by
  cases hl : s.lease with
  | none => simp [handedOut, Task.leaseExpired, hl]
  | some span => simp [handedOut, Task.leaseExpired, Task.isInProgress, hl]

/-- What is handed out again is the same, and the lease has run out. -/
theorem Lends.again (h : Lends lease moment payload task) (ho : s.Offers now second task)
    (hid : second.id = payload.id) :
    second = payload ∧ ∃ span, lease = some span ∧ moment + span.nanoseconds ≤ now := by
  have hout : task.isInProgress = true := ho.pending_or_out.resolve_left h.described.sent
  refine ⟨?_, h.reserved now (ho.expired hout)⟩
  have hleft := ho.left
  have hright := ho.right
  rw [h.described.left] at hleft
  rw [h.described.right] at hright
  cases payload with
  | mk id left right operator duration =>
    cases second with
    | mk id' left' right' operator' duration' =>
      obtain rfl : id' = id := hid
      cases hleft
      cases hright
      obtain rfl : operator' = operator := ho.operator.trans h.described.operator
      obtain rfl : duration' = duration := ho.duration.trans h.duration
      rfl

theorem mem_handOuts : (now, payload) ∈ s.handOuts actions ↔
    ∃ before after, actions = before ++ .pull now :: after ∧
      ((s.run before).pull now).1 = .ok (some payload) := by
  constructor
  · intro hm
    induction actions generalizing s with
    | nil => cases hm
    | cons action rest ih =>
      have later : (now, payload) ∈ (s.perform action).handOuts rest → ∃ before after,
          action :: rest = before ++ .pull now :: after ∧
            ((s.run before).pull now).1 = .ok (some payload) := by
        intro hm
        obtain ⟨before, after, rfl, hp⟩ := ih hm
        exact ⟨action :: before, after, rfl, hp⟩
      cases action with
      | accept => exact later hm
      | report => exact later hm
      | pull time =>
        rcases List.mem_append.mp hm with hm | hm
        · obtain ⟨found, hp, he⟩ := Option.map_eq_some_iff.mp (Option.mem_toList.mp hm)
          cases he
          exact ⟨[], rest, rfl, Outcome.payload?_eq_some.mp hp⟩
        · exact later hm
  · rintro ⟨before, after, rfl, hp⟩
    induction before generalizing s with
    | nil =>
      have hp : (s.pull now).1.payload? = some payload := Outcome.payload?_eq_some.mpr hp
      exact List.mem_append_left _ (by simp [hp])
    | cons action rest ih =>
      have later : (now, payload) ∈ (s.perform action).handOuts (rest ++ .pull now :: after) := ih hp
      cases action with
      | accept => exact later
      | report => exact later
      | pull time => exact List.mem_append_right _ later

namespace Lent

theorem of_pull (hc : Coherent s) (hp : (s.pull now).1 = .ok (some payload)) :
    Lent (s.pull now).2 now payload := by
  obtain ⟨task, ho, hg⟩ := hc.get?_of_pull hp
  have hext := Extends.pull hc now
  refine ⟨Nat.lt_of_lt_of_le (hc.bounded _ task ho.live) hext.next, fun other hother => ?_⟩
  obtain rfl := Option.some.inj (hg.symm.trans hother)
  refine ⟨⟨by simp [handedOut], ho.operator.symm, rfl, rfl⟩, ho.duration.symm, fun later hexpired => ?_⟩
  rw [hext.lease]
  exact (s.leaseExpired_handedOut ..).mp hexpired

theorem live_perform (h : Lent s moment payload) (hc : Coherent s)
    (hg : (s.perform action).table.get? payload.id = some task) : Lends s.lease moment payload task := by
  generalize hid : payload.id = id at hg
  cases hc.becomes hg with
  | untouched hg => exact h.live task (hid ▸ hg)
  | @created owner source graph i node _ _ =>
    have := h.issued
    omega
  | @handedOut now second old _ ho =>
    have hlends := h.live old (hid ▸ ho.live)
    obtain ⟨rfl, span, hspan, hle⟩ := hlends.again ho hid.symm
    refine ⟨⟨by simp [Scheduler.handedOut], hlends.described.operator, rfl, rfl⟩, hlends.duration, ?_⟩
    intro later hexpired
    obtain ⟨_, _, hlater⟩ := (s.leaseExpired_handedOut ..).mp hexpired
    exact ⟨span, hspan, by omega⟩
  | @completed id value old ht =>
    have hlends := h.live old (hid ▸ ht.live)
    refine ⟨⟨by simp [withResult], hlends.described.operator, hlends.described.left,
      hlends.described.right⟩, hlends.duration, ?_⟩
    intro later hexpired
    simp [withResult, Task.leaseExpired, Task.isInProgress] at hexpired

theorem perform (h : Lent s moment payload) (hc : Coherent s) (action : Action) :
    Lent (s.perform action) moment payload where
  issued := Nat.lt_of_lt_of_le h.issued (Extends.perform hc action).next
  live task hg := by
    rw [(Extends.perform hc action).lease]
    exact h.live_perform hc hg

theorem run (h : Lent s moment payload) (hc : Coherent s) (ha : ∀ action ∈ actions, action.Admissible) :
    Lent (s.run actions) moment payload :=
  hc.run_induction (motive := fun _ s => Lent s moment payload) ha [] h fun hc _ h => h.perform hc _

/-- Whatever happens in between, what is handed out again is the same, and the lease has run out. -/
theorem again (h : Lent s moment payload) (hc : Coherent s) (ha : ∀ action ∈ actions, action.Admissible)
    (hm : (now, second) ∈ s.handOuts actions) (hid : second.id = payload.id) :
    second = payload ∧ ∃ span, s.lease = some span ∧ moment + span.nanoseconds ≤ now := by
  obtain ⟨before, after, rfl, hp⟩ := mem_handOuts.mp hm
  have hbefore := (List.forall_mem_append.mp ha).1
  obtain ⟨task, ho⟩ := (hc.run hbefore).offers hp
  rw [← (Extends.run hc hbefore).lease]
  exact ((h.run hc hbefore).live task (hid ▸ ho.live)).again ho hid

end Lent

theorem Coherent.pairwise_handOuts (hc : Coherent s) (ha : ∀ action ∈ actions, action.Admissible) :
    (s.handOuts actions).Pairwise fun first next => next.2.id = first.2.id →
      next.2 = first.2 ∧ ∃ span, s.lease = some span ∧ first.1 + span.nanoseconds ≤ next.1 := by
  induction actions generalizing s with
  | nil => exact .nil
  | cons action rest ih =>
    obtain ⟨hfirst, hrest⟩ := List.forall_mem_cons.mp ha
    have hafter := hc.perform hfirst
    have later := ih hafter hrest
    rw [(Extends.perform hc action).lease] at later
    cases action with
    | accept => exact later
    | report => exact later
    | pull now =>
      refine List.pairwise_append.mpr ⟨?_, later, ?_⟩
      · cases (s.pull now).1.payload? with
        | none => exact .nil
        | some payload => exact List.pairwise_singleton _ _
      · intro first hm next hnext hid
        obtain ⟨payload, hp, rfl⟩ := Option.map_eq_some_iff.mp (Option.mem_toList.mp hm)
        rw [← (Extends.perform hc (.pull now)).lease]
        exact (Lent.of_pull hc (Outcome.payload?_eq_some.mp hp)).again hafter hrest hnext hid

/-- A task whose result was taken, or whose expression is invalid, is not handed out any more. -/
theorem Recorded.id_ne_of_handOut (h : Recorded events s) (hc : Coherent s)
    (ha : ∀ action ∈ actions, action.Admissible) (hm : (now, payload) ∈ s.handOuts actions)
    (hover : Taken events id ∨
      ∃ owner, BelongsTo events id owner ∧ s.registry.status? owner = some .invalid) :
    payload.id ≠ id := by
  obtain ⟨before, after, rfl, hp⟩ := mem_handOuts.mp hm
  have hbefore := (List.forall_mem_append.mp ha).1
  have hrun := h.run hc hbefore
  have hcrun := hc.run hbefore
  obtain ⟨task, ho⟩ := hcrun.offers hp
  rintro rfl
  rcases hover with ht | ⟨owner, hb, hs⟩
  · exact (hrun.live _ task ho.live).not_taken ho.notDone (ht.append _)
  · obtain ⟨record, hf, hinvalid⟩ := Option.map_eq_some_iff.mp hs
    have hkept := hc.find?_run_of_closed hf (by rw [hinvalid]; rfl) hbefore
    obtain ⟨root, hroot, _⟩ := hcrun.owned _ task ho.live
    rw [hrun.owner_of_belongsTo ho.live (hb.append _)] at hroot
    obtain ⟨found, hfound, hopen, _⟩ := Registry.openRoot?_eq_some.mp hroot
    cases hkept.symm.trans hfound
    rw [hinvalid] at hopen
    cases hopen

/-- No two workers share a task. When a task is handed out again, the payload is the same in every bit, a lease
is configured and has run out since any earlier time the task was handed out; so without a lease no task is
handed out twice. From the moment that a result of a task is taken, or that its expression is invalid, the task
is not handed out any more. -/
theorem tasks_handed_out_exclusively (durations : OperationDurations) (lease : Option Duration)
    {actions : List Action} (ha : ∀ action ∈ actions, action.Admissible) :
    let start : Scheduler := { durations, lease }
    ((start.handOuts actions).Pairwise fun first next => next.2.id = first.2.id →
      next.2 = first.2 ∧ ∃ span, lease = some span ∧ first.1 + span.nanoseconds ≤ next.1) ∧
    (lease = none → ((start.handOuts actions).map (·.2.id)).Nodup) ∧
    ∀ before after id, actions = before ++ after →
      (Taken (start.history before) id ∨ ∃ owner, BelongsTo (start.history before) id owner ∧
        (start.run before).registry.status? owner = some .invalid) →
      ∀ handOut ∈ (start.run before).handOuts after, handOut.2.id ≠ id := by
  intro start
  have hstart : Coherent start := .fresh durations lease
  have hpairs := hstart.pairwise_handOuts ha
  refine ⟨hpairs, ?_, ?_⟩
  · intro hnone
    refine List.pairwise_map.mpr (hpairs.imp fun hsame hid => ?_)
    obtain ⟨_, span, hspan, _⟩ := hsame hid.symm
    cases hnone.symm.trans hspan
  · intro before after id he hover handOut hm
    subst he
    obtain ⟨hbefore, hafter⟩ := List.forall_mem_append.mp ha
    have hr : Recorded (start.history before) (start.run before) :=
      (Recorded.fresh durations lease).run hstart hbefore
    exact hr.id_ne_of_handOut (hstart.run hbefore) hafter hm hover

/-- The sum is handed out at 0 with a lease of 10, not at 9, and again at 10. -/
theorem sum_handed_out_twice :
    let start : Scheduler := { lease := some ⟨10⟩ }
    let actions : List Action := [.accept "a" "1+2" (.graph Formula.sumGraph), .pull 0, .pull 9, .pull 10]
    let payload : TaskPayload := ⟨1, .one, .two, .add, ({} : OperationDurations).addition⟩
    start.handOuts actions = [(0, payload), (10, payload)] ∧
      ((start.handOuts actions).Pairwise fun first next => next.2.id = first.2.id → next.2 = first.2 ∧
        ∃ span, (some ⟨10⟩ : Option Duration) = some span ∧ first.1 + span.nanoseconds ≤ next.1) := by
  intro start actions payload
  have ha : ∀ action ∈ actions, action.Admissible :=
    List.forall_mem_cons.mpr ⟨admissible_sum .., by simp [Action.Admissible]⟩
  exact ⟨by decide +kernel, (tasks_handed_out_exclusively {} (some ⟨10⟩) ha).1⟩

end ArithDispatch.Scheduler
