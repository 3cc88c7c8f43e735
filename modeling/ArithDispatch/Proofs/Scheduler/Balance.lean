import ArithDispatch.Proofs.Scheduler.Effects
import ArithDispatch.Proofs.Scheduler.Isolation
import ArithDispatch.Proofs.Scheduler.Recorded
import ArithDispatch.Proofs.Scheduler.Totals

/-! The numbers behind the counters, as an invariant of runs: what they are in terms of the state, of the
history and of the answers. -/
namespace ArithDispatch.Scheduler

def answers (s : Scheduler) : List Action → List Answer
  | [] => []
  | action :: rest => s.answer action :: (s.perform action).answers rest

namespace Answer

def isHandOut : Answer → Bool
  | pulled (.ok (some _)) => true
  | _ => false

def isTaken : Answer → Bool
  | reported (.ok _) => true
  | _ => false

/-- The report is refused for what its task is like. One that fails on the lock is neither taken nor refused. -/
def isRefused : Answer → Bool
  | reported (.error (.taskNotFound _)) => true
  | reported (.error (.taskNotAwaitingResult ..)) => true
  | _ => false

end Answer

/-- The tasks that were handed out, each of them once. -/
def sentIds (events : List Event) : Finset Nat :=
  (events.filterMap fun
    | .handedOut id => some id
    | .accepted _ _ | .taken _ _ => none).toFinset

/-- The tasks whose results were taken. -/
def takenIds (events : List Event) : Finset Nat :=
  (events.filterMap fun
    | .taken id _ => some id
    | .accepted _ _ | .handedOut _ => none).toFinset

/-- That many tasks have gone after their results were taken. -/
def Freed (events : List Event) (s : Scheduler) (count : Nat) : Prop :=
  ∃ gone : Finset Nat, gone.card = count ∧ ∀ id ∈ gone, Taken events id ∧ s.table.get? id = none

/-- What the numbers behind the counters are. -/
structure Balanced (events : List Event) (answers : List Answer) (totals : Totals) (s : Scheduler) :
    Prop where
  metrics : s.metrics = totals.metrics
  submitted : totals.submitted = s.registry.size
  completed : totals.completed = s.registry.countOf .done
  invalidated : totals.invalidated = s.registry.countOf .invalid
  created : totals.created + 1 = s.table.nextId
  live : totals.created = s.table.size + totals.cancelled + totals.freed
  dispatched : totals.dispatched = (sentIds events).card
  handOuts : totals.dispatched + totals.redispatched = answers.countP Answer.isHandOut
  taken : totals.taken = (takenIds events).card
  reports : totals.taken = answers.countP Answer.isTaken
  rejected : totals.rejected = answers.countP Answer.isRefused
  freed : Freed events s totals.freed
  positive : ∀ id, .handedOut id ∈ events → 0 < id

variable {events more : List Event} {answers : List Answer} {totals : Totals} {s t : Scheduler} {task : Task}
  {id now cursor count : Nat} {owner source : String} {value : Binary64} {graph : Formula.Graph}

theorem mem_sentIds : id ∈ sentIds events ↔ .handedOut id ∈ events := by
  simp only [sentIds, List.mem_toFinset, List.mem_filterMap]
  constructor
  · rintro ⟨event, hm, he⟩
    cases event with
    | handedOut other =>
      cases he
      exact hm
    | accepted => cases he
    | taken => cases he
  · intro hm
    exact ⟨_, hm, rfl⟩

theorem mem_takenIds : id ∈ takenIds events ↔ Taken events id := by
  simp only [takenIds, List.mem_toFinset, List.mem_filterMap, Taken]
  constructor
  · rintro ⟨event, hm, he⟩
    cases event with
    | taken other value =>
      cases he
      exact ⟨value, hm⟩
    | accepted => cases he
    | handedOut => cases he
  · rintro ⟨value, hm⟩
    exact ⟨_, hm, rfl⟩

theorem firstFree_pos (events : List Event) : 0 < firstFree events := by
  induction events using List.reverseRecOn with
  | nil => exact Nat.one_pos
  | append_singleton events event ih =>
    rw [firstFree_concat]
    exact Nat.add_pos_left ih _

theorem Matches.pos (h : Matches events id task) : 0 < id := by
  obtain ⟨_, _, i, _, ⟨before, _, _, rfl⟩, _, rfl, _⟩ := h.origin
  exact Nat.add_pos_left (firstFree_pos before) i

private theorem gone_of_not_mem (h : id ∉ s.table.liveIds) : s.table.get? id = none := by
  by_contra hsome
  exact h (TaskTable.mem_liveIds.mpr (Option.ne_none_iff_exists'.mp hsome))

namespace Freed

/-- Ids that were given out once do not come back. -/
theorem mono (h : Freed events s count) (hr : Recorded events s) (more : List Event)
    (hlive : ∀ id task, t.table.get? id = some task → id < s.table.nextId →
      ∃ old, s.table.get? id = some old) : Freed (events ++ more) t count := by
  obtain ⟨gone, hcard, hgone⟩ := h
  refine ⟨gone, hcard, fun id hm => ?_⟩
  obtain ⟨ht, hn⟩ := hgone id hm
  refine ⟨ht.append more, ?_⟩
  cases hg : t.table.get? id with
  | none => rfl
  | some task =>
    obtain ⟨old, hold⟩ := hlive id task hg (hr.issued id (hr.sent id ht))
    cases hn.symm.trans hold

/-- Tasks that go, though their expressions do not become invalid, had results that were taken. -/
theorem remove (h : Freed events s count) (hc : Coherent s) (hr : Recorded events s)
    (hrt : Recorded (events ++ more) t) {removed : Nat}
    (hlive : ∀ id task, t.table.get? id = some task → ∃ old, s.table.get? id = some old)
    (hsize : removed + t.table.size = s.table.size)
    (hstatus : ∀ owner, s.registry.status? owner ≠ some .invalid →
      t.registry.status? owner ≠ some .invalid) : Freed (events ++ more) t (count + removed) := by
  obtain ⟨gone, hcard, hgone⟩ := h
  have hsub : t.table.liveIds ⊆ s.table.liveIds := by
    intro id hm
    obtain ⟨task, hg⟩ := TaskTable.mem_liveIds.mp hm
    exact TaskTable.mem_liveIds.mpr (hlive id task hg)
  have hremoved : (s.table.liveIds \ t.table.liveIds).card = removed := by
    rw [Finset.card_sdiff_of_subset hsub, TaskTable.card_liveIds, TaskTable.card_liveIds]
    omega
  have hdisjoint : Disjoint gone (s.table.liveIds \ t.table.liveIds) := by
    refine Finset.disjoint_left.mpr fun id hm hremoved => ?_
    obtain ⟨task, hg⟩ := TaskTable.mem_liveIds.mp (Finset.mem_sdiff.mp hremoved).1
    cases (hgone id hm).2.symm.trans hg
  refine ⟨gone ∪ (s.table.liveIds \ t.table.liveIds), ?_, fun id hm => ?_⟩
  · rw [Finset.card_union_of_disjoint hdisjoint, hcard, hremoved]
  · rcases Finset.mem_union.mp hm with hm | hm
    · obtain ⟨ht, hn⟩ := hgone id hm
      exact ⟨ht.append more, gone_of_not_mem fun hlt => by
        obtain ⟨old, hold⟩ := TaskTable.mem_liveIds.mp (hsub hlt)
        cases hn.symm.trans hold⟩
    · -- its expression was open and has not become invalid, so the history knows a result for it
      obtain ⟨hs, ht⟩ := Finset.mem_sdiff.mp hm
      obtain ⟨task, hg⟩ := TaskTable.mem_liveIds.mp hs
      have hnone := gone_of_not_mem ht
      obtain ⟨root, ho, _⟩ := hc.owned id task hg
      have hkept := hstatus task.owner (Registry.status?_ne_of_open ho rfl)
      exact ⟨hrt.gone id task.owner ((hr.live id task hg).belongsTo.append more) hkept hnone, hnone⟩

end Freed

theorem sentIds_concat (events : List Event) (id : Nat) :
    sentIds (events ++ [.handedOut id]) = insert id (sentIds events) := by
  ext other
  simp [mem_sentIds, or_comm]

theorem takenIds_concat (events : List Event) (id : Nat) (value : Binary64) :
    takenIds (events ++ [.taken id value]) = insert id (takenIds events) := by
  ext other
  simp [mem_takenIds, Taken, exists_or, or_comm]

theorem sentIds_concat_of_ne {event : Event} (h : ∀ id, .handedOut id ≠ event) :
    sentIds (events ++ [event]) = sentIds events := by
  ext other
  simp [mem_sentIds, h]

theorem takenIds_concat_of_ne {event : Event} (h : ∀ id value, .taken id value ≠ event) :
    takenIds (events ++ [event]) = takenIds events := by
  ext other
  simp [mem_takenIds, Taken, h]

namespace Balanced

theorem fresh (durations : OperationDurations) (lease : Option Duration) :
    Balanced [] [] {} { durations, lease } where
  metrics := rfl
  submitted := rfl
  completed := rfl
  invalidated := rfl
  created := rfl
  live := rfl
  dispatched := rfl
  handOuts := rfl
  taken := rfl
  reports := rfl
  rejected := rfl
  freed := ⟨∅, rfl, by simp⟩
  positive id hm := by cases hm

/-- An answer that no counter is about. -/
theorem answered (h : Balanced events answers totals s) {answer : Answer} (hout : answer.isHandOut = false)
    (htaken : answer.isTaken = false) (hrefused : answer.isRefused = false) :
    Balanced events (answers ++ [answer]) totals s :=
  { h with
    handOuts := by simp [h.handOuts, hout]
    reports := by simp [h.reports, htaken]
    rejected := by simp [h.rejected, hrefused] }

theorem advance (h : Balanced events answers totals s) :
    Balanced events answers totals { s with table := s.table.advance } :=
  { h with
    created := h.created.trans s.table.nextId_advance.symm
    live := by rw [h.live, TaskTable.size_advance]
    freed := by
      obtain ⟨gone, hcard, hgone⟩ := h.freed
      refine ⟨gone, hcard, fun id hm => ?_⟩
      rw [TaskTable.get?_advance]
      exact hgone id hm }

theorem poison (h : Balanced events answers totals s) : Balanced events answers totals s.poison := { h with }

theorem refuse (h : Balanced events answers totals s) {failure : Failure}
    (hrefused : (Answer.reported (.error failure)).isRefused = true) :
    Balanced events (answers ++ [.reported (.error failure)]) (totals.record .resultRejected) s.refuse :=
  { h with
    metrics := by rw [Totals.metrics_record, ← h.metrics]; rfl
    handOuts := by simpa [Totals.record, Answer.isHandOut] using h.handOuts
    reports := by simpa [Totals.record, Answer.isTaken] using h.reports
    rejected := by simp [Totals.record, h.rejected, hrefused] }

theorem invalidate (h : Balanced events answers totals s) (hc : Coherent s) (hr : Recorded events s)
    (hg : s.table.get? task.id = some task) (obstacle : Obstacle) :
    ∃ totals, Balanced events answers totals (s.invalidate task obstacle) := by
  obtain ⟨count, hsize, hmetrics⟩ := metrics_invalidate hc hg obstacle
  obtain ⟨root, ho, _⟩ := hc.owned task.id task hg
  obtain ⟨record, hf, hopen, _⟩ := Registry.openRoot?_eq_some.mp ho
  have hcount : ∀ {status : ExpressionStatus}, status.isTerminal = true →
      (s.invalidate task obstacle).registry.countOf status =
        s.registry.countOf status + if .invalid = status then 1 else 0 :=
    Registry.countOf_moveTo hf (ExpressionStatus.canBecome_of_terminal hopen rfl)
  have hnext : (s.invalidate task obstacle).table.nextId = s.table.nextId := by
    simp only [Scheduler.invalidate]
    split <;> rfl
  have hlive : ∀ id other, (s.invalidate task obstacle).table.get? id = some other →
      ∃ old, s.table.get? id = some old := by
    intro id other hother
    rw [get?_invalidate hc hg, Option.filter_eq_some_iff] at hother
    exact ⟨other, hother.1⟩
  refine ⟨(totals.record .expressionInvalidated).record (.tasksCancelled count), { h with
    metrics := ?_, submitted := ?_, completed := ?_, invalidated := ?_, created := ?_, live := ?_,
    freed := ?_ }⟩
  · rw [hmetrics, Totals.metrics_record, Totals.metrics_record, h.metrics]
  · exact h.submitted.trans (Registry.size_moveTo ..).symm
  · rw [hcount rfl]
    exact h.completed
  · rw [hcount rfl]
    exact congrArg (· + 1) h.invalidated
  · exact h.created.trans hnext.symm
  · have := h.live
    simp only [Totals.record]
    omega
  · have := h.freed.mono (t := s.invalidate task obstacle) hr [] fun id other hother _ => hlive id other hother
    rwa [List.append_nil] at this

theorem scanning (h : Balanced events answers totals s) (hc : Coherent s) (hr : Recorded events s)
    (hs : Scanning now s t cursor) : ∃ totals, Balanced events answers totals t := by
  induction hs with
  | start => exact ⟨totals, h.advance⟩
  | sweep hs ha => exact absurd ha (hc.scanning hs).nextAttention_ne_sweep
  | invalidate hs ha ih =>
    obtain ⟨totals, h⟩ := ih
    exact h.invalidate (hc.scanning hs) (hr.scanning hc hs) (TaskTable.nextAttention_eq_some ha).1 _

/-- A hand-out is the first one of its task or a repetition, and is counted as such. -/
theorem record_handOut (h : Balanced events answers totals s) (hr : Recorded events s)
    {payload : TaskPayload} (ho : s.Offers now payload task) :
    ∃ repeats, totals.record (if task.isInProgress then .taskRedispatched else .taskDispatched) =
        { totals with
          dispatched := (sentIds (events ++ [.handedOut payload.id])).card
          redispatched := repeats } ∧
      (sentIds (events ++ [.handedOut payload.id])).card + repeats =
        answers.countP Answer.isHandOut + 1 := by
  have hm := hr.live _ task ho.live
  have hdispatched := h.dispatched
  have hhandOuts := h.handOuts
  rw [sentIds_concat]
  rcases ho.pending_or_out with hp | hout
  · have hout : task.isInProgress = false := by rw [Task.isInProgress, hp]; rfl
    have hmem : payload.id ∉ sentIds events := fun hmem => hm.waiting.mp hp (mem_sentIds.mp hmem)
    rw [hout, Finset.card_insert_of_notMem hmem, ← hdispatched]
    exact ⟨totals.redispatched, rfl, by omega⟩
  · have hmem : payload.id ∈ sentIds events := by
      refine mem_sentIds.mpr (hm.handedOut_mem fun hp => ?_)
      rw [Task.isInProgress, hp] at hout
      cases hout
    rw [hout, Finset.insert_eq_of_mem hmem, ← hdispatched]
    exact ⟨totals.redispatched + 1, rfl, by omega⟩

theorem dispatch (h : Balanced events answers totals s) (hc : Coherent s) (hr : Recorded events s)
    {payload : TaskPayload} (ho : s.Offers now payload task) :
    ∃ totals, Balanced (events ++ [.handedOut payload.id]) (answers ++ [.pulled (.ok (some payload))]) totals
      (s.dispatch now task payload.left payload.right task.isInProgress).2 := by
  obtain ⟨count, hsize, hmetrics⟩ :=
    metrics_dispatch s now task payload.left payload.right task.isInProgress
  obtain ⟨repeats, hrecord, hcount⟩ := h.record_handOut hr ho
  have hid : task.id = payload.id := Arena.id_of_get? ho.live
  have hafter := hr.dispatch hc (hid ▸ ho.live) ho.left ho.right ho.notDone now task.isInProgress
  rw [hid] at hafter
  have hlive : ∀ id other,
      (s.dispatch now task payload.left payload.right task.isInProgress).2.table.get? id = some other →
        ∃ old, s.table.get? id = some old := by
    intro id other hother
    rw [hc.get?_of_offers ho] at hother
    split at hother
    · next he => exact ⟨task, he ▸ ho.live⟩
    · split at hother
      · cases hother
      · exact ⟨other, hother⟩
  have hstatus : ∀ owner, s.registry.status? owner ≠ some .invalid →
      (s.registry.markCalculating task.owner).2.status? owner ≠ some .invalid := by
    intro owner hs
    rw [Registry.markCalculating_eq_moveTo]
    exact Registry.status?_moveTo_ne_invalid hs (by simp [Stage.status])
  have hfreed := h.freed.remove hc hr hafter hlive hsize hstatus
  have htaken : takenIds (events ++ [.handedOut payload.id]) = takenIds events :=
    takenIds_concat_of_ne (by simp)
  have hnext : (s.dispatch now task payload.left payload.right task.isInProgress).2.table.nextId =
      s.table.nextId := nextId_freeAll ..
  have hbefore := h.live
  refine ⟨(totals.record (if task.isInProgress then .taskRedispatched else .taskDispatched)).record
    (.tasksFreed count), ?_⟩
  have hmetrics' : (s.dispatch now task payload.left payload.right task.isInProgress).2.metrics =
      ((totals.record (if task.isInProgress then .taskRedispatched else .taskDispatched)).record
        (.tasksFreed count)).metrics := by
    rw [hmetrics, Totals.metrics_record, Totals.metrics_record, h.metrics]
  rw [hrecord] at hmetrics' ⊢
  exact {
    metrics := hmetrics'
    submitted := h.submitted.trans (Registry.size_markCalculating ..).symm
    completed := h.completed.trans (s.registry.countOf_markCalculating task.owner rfl).symm
    invalidated := h.invalidated.trans (s.registry.countOf_markCalculating task.owner rfl).symm
    created := h.created.trans hnext.symm
    live := by simp only [Totals.record]; omega
    dispatched := rfl
    handOuts := by simp [Totals.record, hcount, Answer.isHandOut]
    taken := by rw [htaken]; exact h.taken
    reports := by simpa [Totals.record, Answer.isTaken] using h.reports
    rejected := by simpa [Totals.record, Answer.isRefused] using h.rejected
    freed := hfreed
    positive := by
      intro id hm
      rw [← mem_sentIds, sentIds_concat, Finset.mem_insert, mem_sentIds] at hm
      rcases hm with rfl | hm
      · exact (hr.live _ task ho.live).pos
      · exact h.positive id hm }

theorem record (h : Balanced events answers totals s) (hr : Recorded events s)
    (hg : s.table.get? task.id = some task) (hp : task.status = .inProgress) (value : Binary64) :
    Balanced (events ++ [.taken task.id value]) (answers ++ [.reported (.ok ())])
      (totals.record .taskCompleted) (s.record task.id value) := by
  have hnot : task.id ∉ takenIds events := fun hm =>
    (hr.live _ task hg).not_taken (by simp [Task.isDone, hp]) (mem_takenIds.mp hm)
  have hsent : sentIds (events ++ [.taken task.id value]) = sentIds events :=
    sentIds_concat_of_ne (by simp)
  have hlive : ∀ id other, (s.record task.id value).table.get? id = some other →
      id < s.table.nextId → ∃ old, s.table.get? id = some old := by
    intro id other hother _
    rw [get?_record hg] at hother
    split at hother
    · next he => exact ⟨task, he ▸ hg⟩
    · exact ⟨other, hother⟩
  have hsize : (s.record task.id value).table.size = s.table.size := TaskTable.size_modify ..
  have htaken := h.taken
  have hreports := h.reports
  exact { h with
    metrics := by rw [Totals.metrics_record, ← h.metrics]; rfl
    live := h.live.trans (by rw [hsize]; rfl)
    dispatched := by rw [hsent]; exact h.dispatched
    handOuts := by simpa [Totals.record, Answer.isHandOut] using h.handOuts
    taken := by rw [takenIds_concat, Finset.card_insert_of_notMem hnot, ← htaken]; rfl
    reports := by simp [Totals.record, hreports, Answer.isTaken]
    rejected := by simpa [Totals.record, Answer.isRefused] using h.rejected
    freed := h.freed.mono hr _ hlive
    positive := fun id hm => h.positive id (by simpa using hm) }

theorem finish (h : Balanced events answers totals s) (hc : Coherent s) (hr : Recorded events s)
    (hg : s.table.get? task.id = some task) (hp : task.status = .inProgress)
    (ho : s.registry.openRoot? task.owner = some task.id) (value : Binary64) :
    ∃ totals, Balanced (events ++ [.taken task.id value]) (answers ++ [.reported (.ok ())]) totals
      ((s.record task.id value).finishRoot task value) := by
  obtain ⟨count, hsize, hmetrics⟩ := metrics_finishRoot ho value
  obtain ⟨record, hf, hopen, _⟩ := Registry.openRoot?_eq_some.mp ho
  obtain ⟨hreg, htable⟩ := @finishRoot_of_root (s.record task.id value) task
    (Registry.rootTask?_of_openRoot? ho) value
  have hnext : ((s.record task.id value).finishRoot task value).table.nextId = s.table.nextId := by
    rw [htable]
    rfl
  have hrecorded := h.record hr hg hp value
  have hcount : ∀ {status : ExpressionStatus}, status.isTerminal = true →
      ((s.record task.id value).finishRoot task value).registry.countOf status =
        s.registry.countOf status + if .done = status then 1 else 0 := by
    rw [hreg]
    exact Registry.countOf_moveTo hf (ExpressionStatus.canBecome_of_terminal hopen rfl)
  have hget := get?_finishRoot hc hg (hc.settled task.id task hg (by simp [hp])) ho value
  have hlive : ∀ id other, ((s.record task.id value).finishRoot task value).table.get? id = some other →
      ∃ old, s.table.get? id = some old := by
    intro id other hother
    rw [hget, Option.filter_eq_some_iff] at hother
    exact ⟨other, hother.1⟩
  have hstatus : ∀ owner, s.registry.status? owner ≠ some .invalid →
      ((s.record task.id value).finishRoot task value).registry.status? owner ≠ some .invalid := by
    intro owner hs
    rw [hreg]
    exact Registry.status?_moveTo_ne_invalid hs (by simp [Stage.status])
  have hfreed := h.freed.remove hc hr (hr.finish hc hg hp ho hreg hget hnext) hlive hsize hstatus
  have hbefore := h.live
  refine ⟨((totals.record .taskCompleted).record .expressionCompleted).record (.tasksFreed count),
    { hrecorded with
      metrics := ?_, submitted := ?_, completed := ?_, invalidated := ?_, created := ?_, live := ?_,
      freed := hfreed }⟩
  · rw [hmetrics, h.metrics, Totals.metrics_record, Totals.metrics_record, Totals.metrics_record]
  · rw [hreg]
    exact h.submitted.trans (Registry.size_moveTo ..).symm
  · rw [hcount rfl]
    exact congrArg (· + 1) h.completed
  · rw [hcount rfl]
    exact h.invalidated
  · exact h.created.trans hnext.symm
  · simp only [Totals.record]
    omega

private theorem eq_finishRoot_of_report (hg : s.table.get? task.id = some task)
    (he : s.report task.id value = (.ok (), t)) : t = (s.record task.id value).finishRoot task value := by
  have hawaited : s.poisoned = false ∧ refusal? task = none := by
    by_contra hn
    obtain ⟨failure, u, _, hrefused⟩ := @report_of_refused s task.id (fun hlock other hother hr => by
      obtain rfl : task = other := Option.some.inj (hg.symm.trans hother)
      exact hn ⟨hlock, hr⟩) value
    cases hrefused.symm.trans he
  exact (Prod.ext_iff.mp ((report_of_awaited hawaited.1 hg hawaited.2 value).symm.trans he)).2.symm

theorem report (h : Balanced events answers totals s) (hc : Coherent s) (hr : Recorded events s) (id : Nat)
    (value : Binary64) : ∃ totals, Balanced (events ++ s.observe (.report id value))
      (answers ++ [s.answer (.report id value)]) totals (s.report id value).2 := by
  rcases hc.report_cases id value with
    ⟨failure, t, hf, he⟩ | ⟨task, rfl, hg, hp, ⟨_, he⟩ | ⟨t, ho, he, _⟩⟩
  · simp only [observe, answer, he, List.append_nil]
    cases hf with
    | locked => exact ⟨_, h.answered rfl rfl rfl⟩
    | unknown => exact ⟨_, h.refuse rfl⟩
    | unawaited => exact ⟨_, h.refuse rfl⟩
  · simp only [observe, answer, he]
    exact ⟨_, h.record hr hg hp value⟩
  · simp only [observe, answer, he]
    obtain rfl := eq_finishRoot_of_report hg he
    exact h.finish hc hr hg hp ho value

theorem pull (h : Balanced events answers totals s) (hc : Coherent s) (hr : Recorded events s) (now : Nat) :
    ∃ totals, Balanced (events ++ s.observe (.pull now)) (answers ++ [s.answer (.pull now)]) totals
      (s.pull now).2 := by
  rcases hc.pull_effect now with ⟨outcome, t, hf, he⟩ | ⟨t, cursor, payload, task, hs, ho, he⟩
  · rw [observe_of_fruitless hf he, List.append_nil, answer, he]
    have hafter : ∃ totals, Balanced events answers totals t :=
      hf.elim ⟨totals, h⟩ (fun hs => h.scanning hc hr hs) fun h => h.imp fun _ h => h.poison
    obtain ⟨totals, h⟩ := hafter
    cases hf <;> exact ⟨totals, h.answered rfl rfl rfl⟩
  · simp only [observe, answer, he]
    obtain ⟨totals, h⟩ := h.scanning hc hr hs
    exact h.dispatch (hc.scanning hs) (hr.scanning hc hs) ho

theorem register (h : Balanced events answers totals s)
    (hok : (s.accept owner source (.literal value)).1 = .ok ()) : Balanced events answers
      ((totals.record .expressionSubmitted).record .expressionCompleted)
      (s.accept owner source (.literal value)).2 := by
  obtain ⟨hentries, hmetrics⟩ := metrics_accept_literal hok
  obtain ⟨t, he, ht, _⟩ := accept_literal hok
  rw [he] at hentries hmetrics ⊢
  refine { h with
    metrics := ?_, submitted := ?_, completed := ?_, invalidated := ?_, created := ?_, live := ?_,
    freed := ?_ }
  · rw [hmetrics, h.metrics, Totals.metrics_record, Totals.metrics_record]
  · exact (congrArg (· + 1) h.submitted).trans (Registry.size_append hentries).symm
  · exact (congrArg (· + 1) h.completed).trans (Registry.countOf_append hentries .done).symm
  · exact h.invalidated.trans (Registry.countOf_append hentries .invalid).symm
  · exact ht ▸ h.created
  · exact ht ▸ h.live
  · obtain ⟨gone, hcard, hgone⟩ := h.freed
    exact ⟨gone, hcard, fun id hm => ht ▸ hgone id hm⟩

theorem commit (h : Balanced events answers totals s) (hc : Coherent s) (hr : Recorded events s)
    (hok : (s.accept owner source (.graph graph)).1 = .ok ()) : Balanced (events ++ [.accepted owner graph]) answers
      ((totals.record .expressionSubmitted).record (.tasksCreated graph.size))
      (s.accept owner source (.graph graph)).2 := by
  obtain ⟨hentries, hmetrics⟩ := metrics_accept_graph hok
  obtain ⟨t, he, ht, _⟩ := accept_graph hok
  rw [he] at hentries hmetrics ⊢
  have hsent : sentIds (events ++ [.accepted owner graph]) = sentIds events :=
    sentIds_concat_of_ne (by simp)
  have htaken : takenIds (events ++ [.accepted owner graph]) = takenIds events :=
    takenIds_concat_of_ne (by simp)
  have hnext : t.table.nextId = s.table.nextId + graph.size := by rw [ht]; rfl
  have hsize : t.table.size = s.table.size + graph.size := by rw [ht, TaskTable.size_commit hc.bounded]
  have hlive : ∀ id task, t.table.get? id = some task → id < s.table.nextId →
      ∃ old, s.table.get? id = some old := by
    intro id task hg hlt
    rw [ht, TaskTable.get?_commit_of_lt hlt] at hg
    exact ⟨task, hg⟩
  have hcreated := h.created
  have hbefore := h.live
  refine { h with
    metrics := ?_, submitted := ?_, completed := ?_, invalidated := ?_, created := ?_, live := ?_,
    dispatched := hsent ▸ h.dispatched, taken := htaken ▸ h.taken, freed := h.freed.mono hr _ hlive,
    positive := fun id hm => h.positive id (by simpa using hm) }
  · rw [hmetrics, h.metrics, Totals.metrics_record, Totals.metrics_record]
  · exact (congrArg (· + 1) h.submitted).trans (Registry.size_append hentries).symm
  · exact h.completed.trans (Registry.countOf_append hentries .done).symm
  · exact h.invalidated.trans (Registry.countOf_append hentries .invalid).symm
  · simp only [Totals.record]
    omega
  · simp only [Totals.record]
    omega

theorem accept (h : Balanced events answers totals s) (hc : Coherent s) (hr : Recorded events s)
    (owner source : String) (compiled : Formula.Compiled) :
    ∃ totals, Balanced (events ++ s.observe (.accept owner source compiled))
      (answers ++ [s.answer (.accept owner source compiled)]) totals (s.accept owner source compiled).2 := by
  rcases s.accept_cases owner source compiled with
    ⟨failure, he⟩ | ⟨_, ⟨value, t, rfl, he, _⟩ | ⟨graph, t, rfl, he, _⟩⟩
  · have hnone : s.observe (.accept owner source compiled) = [] := by
      cases compiled <;> simp only [observe, he]
    rw [hnone, List.append_nil, he]
    exact ⟨totals, h.answered rfl rfl rfl⟩
  · have hnone : s.observe (.accept owner source (.literal value)) = [] := rfl
    rw [hnone, List.append_nil]
    exact ⟨_, (h.register (congrArg Prod.fst he)).answered rfl rfl rfl⟩
  · have hok := congrArg Prod.fst he
    rw [observe_accept hok]
    exact ⟨_, (h.commit hc hr hok).answered rfl rfl rfl⟩

theorem perform (h : Balanced events answers totals s) (hc : Coherent s) (hr : Recorded events s)
    (action : Action) : ∃ totals,
      Balanced (events ++ s.observe action) (answers ++ [s.answer action]) totals (s.perform action) := by
  cases action with
  | accept owner source compiled => exact h.accept hc hr owner source compiled
  | pull now => exact h.pull hc hr now
  | report id value => exact h.report hc hr id value

theorem run (h : Balanced events answers totals s) (hc : Coherent s) (hr : Recorded events s)
    {actions : List Action} (ha : ∀ action ∈ actions, action.Admissible) : ∃ totals,
      Balanced (events ++ s.history actions) (answers ++ s.answers actions) totals (s.run actions) := by
  induction actions generalizing events answers totals s with
  | nil =>
    rw [history, Scheduler.answers, List.append_nil, List.append_nil]
    exact ⟨totals, h⟩
  | cons action rest ih =>
    obtain ⟨hfirst, hrest⟩ := List.forall_mem_cons.mp ha
    obtain ⟨totals, h⟩ := h.perform hc hr action
    rw [history, Scheduler.answers, ← List.append_assoc, List.append_cons answers]
    exact ih h (hc.perform hfirst) (hr.perform hc action) hrest

end Balanced

end ArithDispatch.Scheduler
