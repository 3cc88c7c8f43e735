import ArithDispatch.Proofs.Expression.Status
import ArithDispatch.Proofs.Scheduler.Progress

/-! The scan of a pull against a plain search, which keeps no mark and starts again from the first live task
whenever it has removed some: both end alike and leave the same state but for the mark. -/
namespace ArithDispatch

namespace TaskTable
variable {table : TaskTable} {registry : Registry} {now start cursor : Nat} {task : Task}
  {found : Attention}

theorem nextAttention_of_none
    (h : ∀ id other, table.get? id = some other → start ≤ id → table.attention registry now other = none) :
    table.nextAttention registry now start = none := by
  cases hn : table.nextAttention registry now start with
  | none => rfl
  | some hit =>
    obtain ⟨hg, hs, ha, _⟩ := nextAttention_eq_some hn
    rw [h _ _ hg hs] at ha
    cases ha

/-- A task that needs attention is found when no task before it needs any. -/
theorem nextAttention_of_least (hg : table.get? task.id = some task) (hs : start ≤ task.id)
    (ha : table.attention registry now task = some found)
    (hl : ∀ id other, table.get? id = some other → start ≤ id → id < task.id →
      table.attention registry now other = none) :
    table.nextAttention registry now start = some (task, found) := by
  cases hn : table.nextAttention registry now start with
  | none =>
    rw [nextAttention_eq_none hn hg hs] at ha
    cases ha
  | some hit =>
    obtain ⟨other, attention⟩ := hit
    obtain ⟨ho, hso, hao, hlo⟩ := nextAttention_eq_some hn
    rcases Nat.lt_trichotomy other.id task.id with hlt | he | hgt
    · rw [hl _ _ ho hso hlt] at hao
      cases hao
    · rw [he, hg] at ho
      cases ho
      cases ha.symm.trans hao
      rfl
    · rw [hlo _ _ hg hs hgt] at ha
      cases ha

/-- Tasks that need no attention may be left out in front. -/
theorem nextAttention_skip (hle : start ≤ cursor)
    (h : ∀ id other, table.get? id = some other → id < cursor →
      table.attention registry now other = none) :
    table.nextAttention registry now cursor = table.nextAttention registry now start := by
  cases hn : table.nextAttention registry now start with
  | none => exact nextAttention_of_none fun id other hg hs => nextAttention_eq_none hn hg (by omega)
  | some hit =>
    obtain ⟨task, found⟩ := hit
    obtain ⟨hg, _, ha, hl⟩ := nextAttention_eq_some hn
    have hc : cursor ≤ task.id := by
      by_contra hc
      rw [h _ _ hg (by omega)] at ha
      cases ha
    exact nextAttention_of_least hg hc ha fun id other ho hs hlt => hl id other ho (by omega) hlt

end TaskTable

namespace Scheduler
variable {s t : Scheduler} {now cursor mark : Nat} {task : Task}

private theorem size_lt_of_removed (hs : t.table.arena.tasks.Sublist s.table.arena.tasks)
    (hg : s.table.get? task.id = some task) (hn : t.table.get? task.id = none) :
    t.table.size < s.table.size := by
  refine Nat.lt_of_le_of_ne hs.length_le fun he => ?_
  have hm : task ∈ t.table.arena.tasks := (hs.eq_of_length he).symm ▸ Arena.mem_tasks_iff.mpr hg
  cases hn.symm.trans (Arena.mem_tasks_iff.mp hm)

private theorem live_of_nextAttention {found : Attention}
    (h : s.table.nextAttention s.registry now 0 = some (task, found)) :
    s.table.get? task.id = some task :=
  (TaskTable.nextAttention_eq_some h).1

/-- Hands out the first ready task; after every removal the whole table is searched again. -/
def search (s : Scheduler) (now : Nat) : Outcome (Option TaskPayload) × Scheduler :=
  match _ : s.table.nextAttention s.registry now 0 with
  | none => (.ok none, s)
  | some (task, .sweep) => search (s.sweep task) now
  | some (task, .invalidate obstacle) => search (s.invalidate task obstacle) now
  | some (task, .dispatch left right redispatch) => s.handOver now task.id left right redispatch
termination_by s.table.size
decreasing_by
  · exact size_lt_of_removed (s.sublist_sweep task) (live_of_nextAttention ‹_›)
      (Arena.get?_reclaim_of_mem _ (List.mem_singleton_self _))
  · exact size_lt_of_removed (s.sublist_invalidate task obstacle) (live_of_nextAttention ‹_›)
      (Arena.get?_reclaim_of_mem _ (List.mem_singleton_self _))

/-- A pull that keeps no mark and no cursor. -/
def rescan (s : Scheduler) (now : Nat) : Outcome (Option TaskPayload) × Scheduler :=
  if s.poisoned then (.error .tableLockPoisoned, s) else s.search now

/-- The same state with another low-water mark. -/
def withMark (s : Scheduler) (mark : Nat) : Scheduler :=
  { s with table := { s.table with lowWater := mark } }

theorem withMark_advance (s : Scheduler) :
    { s with table := s.table.advance } = s.withMark s.table.advance.lowWater :=
  congrArg (fun table => { s with table }) s.table.advance_eq

theorem invalidate_withMark (s : Scheduler) (mark : Nat) (task : Task) (obstacle : Obstacle) :
    (s.withMark mark).invalidate task obstacle = (s.invalidate task obstacle).withMark mark := by
  simp only [invalidate, withMark]
  split <;> rfl

theorem freeAll_withMark (table : TaskTable) (mark : Nat) (ids : List Nat) :
    freeAll { table with lowWater := mark } ids =
      ((freeAll table ids).1, { (freeAll table ids).2 with lowWater := mark }) := by
  induction ids generalizing table with
  | nil => rfl
  | cons id rest ih =>
    simp only [freeAll]
    rw [show ({ table with lowWater := mark } : TaskTable).reclaim id =
      ((table.reclaim id).1, { (table.reclaim id).2 with lowWater := mark }) from rfl, ih]

theorem dispatch_withMark (s : Scheduler) (mark now : Nat) (task : Task) (left right : Binary64)
    (redispatch : Bool) : (s.withMark mark).dispatch now task left right redispatch =
      ((s.dispatch now task left right redispatch).1,
        (s.dispatch now task left right redispatch).2.withMark mark) := by
  have hfree := freeAll_withMark (s.table.modify task.id fun other => s.handedOut now other left right) mark
    task.dependencies
  simp only [dispatch, withMark]
  exact Prod.ext rfl (congrArg (fun freed : Nat × TaskTable =>
    ({ s with
      table := freed.2
      registry := (s.registry.markCalculating task.owner).2
      metrics := (s.metrics.record (if redispatch then .taskRedispatched else .taskDispatched)).record
        (.tasksFreed freed.1) } : Scheduler)) hfree)

theorem handOver_withMark (s : Scheduler) (mark now id : Nat) (left right : Binary64)
    (redispatch : Bool) : (s.withMark mark).handOver now id left right redispatch =
      ((s.handOver now id left right redispatch).1,
        (s.handOver now id left right redispatch).2.withMark mark) := by
  have hget : (s.withMark mark).table.get? id = s.table.get? id := rfl
  have hfits : (s.withMark mark).leaseFits now = s.leaseFits now := rfl
  simp only [handOver, hget, hfits]
  cases s.table.get? id with
  | none => rfl
  | some task =>
    cases s.leaseFits now with
    | false => rfl
    | true => simp only [dispatch_withMark, if_true]

theorem search_eq (s : Scheduler) (now : Nat) : s.search now =
    match s.table.nextAttention s.registry now 0 with
    | none => (.ok none, s)
    | some (task, .sweep) => (s.sweep task).search now
    | some (task, .invalidate obstacle) => (s.invalidate task obstacle).search now
    | some (task, .dispatch left right redispatch) => s.handOver now task.id left right redispatch := by
  rw [search]
  split <;> simp [*]

/-- The plain search does not look at the mark. -/
theorem search_withMark (s : Scheduler) (mark now : Nat) :
    (s.withMark mark).search now = ((s.search now).1, (s.search now).2.withMark mark) := by
  fun_induction search s now with
  | case1 s found =>
    rw [search_eq]
    rw [show (s.withMark mark).table.nextAttention (s.withMark mark).registry now 0 = none from found]
  | case2 s task found ih =>
    rw [search_eq]
    rw [show (s.withMark mark).table.nextAttention (s.withMark mark).registry now 0 =
      some (task, .sweep) from found]
    exact ih
  | case3 s task obstacle found ih =>
    rw [search_eq]
    rw [show (s.withMark mark).table.nextAttention (s.withMark mark).registry now 0 =
      some (task, .invalidate obstacle) from found]
    simp only [invalidate_withMark]
    exact ih
  | case4 s task left right redispatch found =>
    rw [search_eq]
    rw [show (s.withMark mark).table.nextAttention (s.withMark mark).registry now 0 =
      some (task, .dispatch left right redispatch) from found]
    exact s.handOver_withMark mark now task.id left right redispatch

/-- From wherever the scan has come to, it goes on as the plain search would. -/
theorem Coherent.pullFrom_eq_search (h : Coherent s) (hs : Scanning now s t cursor) :
    t.pullFrom now cursor = t.search now := by
  have skip {t : Scheduler} {cursor : Nat} (hs : Scanning now s t cursor) :
      t.table.nextAttention t.registry now 0 = t.table.nextAttention t.registry now cursor :=
    (TaskTable.nextAttention_skip (Nat.zero_le cursor) fun _ _ hg hlt =>
      h.attention_behind_cursor hs hg hlt).symm
  fun_induction pullFrom t now cursor with
  | case1 t cursor found => rw [search_eq, skip hs, found]
  | case2 t cursor task found ih =>
    rw [search_eq, skip hs, found]
    exact ih (hs.sweep found)
  | case3 t cursor task obstacle found ih =>
    rw [search_eq, skip hs, found]
    exact ih (hs.invalidate found)
  | case4 t cursor task left right redispatch found => rw [search_eq, skip hs, found]

/-- The mark as a pull leaves it. -/
def markAfterPull (s : Scheduler) : Nat := if s.poisoned then s.table.lowWater else s.table.advance.lowWater

theorem Coherent.pull_eq_rescan (h : Coherent s) (now : Nat) :
    s.pull now = ((s.rescan now).1, (s.rescan now).2.withMark s.markAfterPull) := by
  cases hp : s.poisoned with
  | true =>
    rw [pull_of_poisoned hp, rescan, if_pos hp, markAfterPull, if_pos hp]
    rfl
  | false =>
    have hn := Bool.eq_false_iff.mp hp
    have he := @Coherent.pullFrom_eq_search s _ now _ h .start
    rw [withMark_advance, search_withMark] at he
    rw [rescan, if_neg hn, markAfterPull, if_neg hn, ← he, ← withMark_advance, Scheduler.pull, if_neg hn]

/-- The task can be handed out: it is not completed, no worker has time left for it, and both operands
are known and do not divide by zero. -/
structure IsReady (s : Scheduler) (now : Nat) (task : Task) (left right : Binary64) : Prop where
  live : s.table.get? task.id = some task
  unfinished : task.isDone = false
  free : task.isInProgress = true → task.leaseExpired now = true
  left_known : s.table.readiness task.left = .ready left
  right_known : s.table.readiness task.right = .ready right
  divisible : ¬ (task.operator = .div ∧ right.isZero = true)

namespace Coherent
variable {left right : Binary64} {redispatch : Bool} {id : Nat}

theorem attention_of_ready (h : Coherent s) (hr : s.IsReady now task left right) :
    s.table.attention s.registry now task = some (.dispatch left right task.isInProgress) := by
  have hstatus : ∃ status, s.registry.status? task.owner = some status ∧ status ≠ .invalid := by
    obtain ⟨root, ho, _⟩ := h.owned task.id task hr.live
    rcases Registry.status?_of_open ho with hs | hs <;> exact ⟨_, hs, by simp⟩
  obtain ⟨status, hs, hi⟩ := hstatus
  have hfree : ¬ (task.isInProgress && !task.leaseExpired now) = true := by
    simpa using hr.free
  rw [TaskTable.attention_of_open hr.unfinished hs hi, if_neg hfree,
    TaskTable.attentionForOperands_ready hr.left_known hr.right_known, if_neg hr.divisible]

theorem ready_of_attention (h : Coherent s) (hg : s.table.get? task.id = some task)
    (ha : s.table.attention s.registry now task = some (.dispatch left right redispatch)) :
    s.IsReady now task left right := by
  obtain ⟨hd, hfree, _, _, hl, hr, ⟨_, _, hf⟩ | ⟨hz, hf⟩⟩ := h.attention_cases hg ha <;> cases hf
  exact ⟨hg, hd, hfree, hl, hr, hz⟩

/-- What a scan has not removed needs the same attention as before, and what it has removed belongs to an
expression that is now invalid. -/
theorem scanning_keeps (h : Coherent s) (hs : Scanning now s t cursor) (hg : s.table.get? id = some task) :
    (t.table.get? id = some task ∧
      t.table.attention t.registry now task = s.table.attention s.registry now task) ∨
    t.registry.status? task.owner = some .invalid := by
  induction hs with
  | start =>
    refine .inl ⟨by rw [TaskTable.get?_advance, hg], ?_⟩
    exact TaskTable.attention_congr rfl fun dep _ => TaskTable.get?_advance ..
  | sweep hs ha => exact absurd ha (h.scanning hs).nextAttention_ne_sweep
  | @invalidate t cursor found obstacle hs ha ih =>
    have ht := h.scanning hs
    have hfound := (TaskTable.nextAttention_eq_some ha).1
    rcases ih with ⟨hlive, hsame⟩ | hinvalid
    · by_cases he : task.owner = found.owner
      · obtain ⟨root, ho, _⟩ := ht.owned found.id found hfound
        exact .inr (he ▸ Registry.status?_invalidate ho _)
      · refine .inl ⟨?_, (ht.attention_invalidate hfound hlive he obstacle now).trans hsame⟩
        rw [get?_invalidate ht hfound, hlive, Option.filter_some_pos (by simpa using he)]
    · exact .inr (Registry.status?_moveTo_of_invalid hinvalid)

/-- A task that was ready before the scan and needs no attention any more went with its expression. -/
theorem invalid_of_passed (h : Coherent s) (hs : Scanning now s t cursor)
    (hr : s.IsReady now task left right) (hn : t.table.get? task.id = some task →
      t.table.attention t.registry now task = none) : t.registry.status? task.owner = some .invalid := by
  rcases h.scanning_keeps hs hr.live with ⟨hlive, hsame⟩ | hinvalid
  · have hq := hn hlive
    rw [hsame, h.attention_of_ready hr] at hq
    cases hq
  · exact hinvalid

/-- What the scan of a pull comes to hand out was ready before the scan. -/
theorem ready_of_found (h : Coherent s) (hs : Scanning now s t cursor)
    (ha : t.table.nextAttention t.registry now cursor = some (task, .dispatch left right redispatch)) :
    s.IsReady now task left right := by
  obtain ⟨hg, _, hat, _⟩ := TaskTable.nextAttention_eq_some ha
  have hgs := h.get?_of_scanning hs hg
  rcases h.scanning_keeps hs hgs with ⟨_, hsame⟩ | hinvalid
  · exact h.ready_of_attention hgs (hsame ▸ hat)
  · obtain ⟨root, ho, _⟩ := (h.scanning hs).owned task.id task hg
    exact absurd hinvalid (Registry.status?_ne_of_open ho rfl)

end Coherent

/-- A pull does what the plain one does, which keeps no mark and searches the whole table again after every
removal: it answers the same, panics alike, and leaves the same state but for the mark. So what it hands out
is the ready task with the least id, among those whose expressions it does not find to be invalid. -/
theorem pull_agrees_with_rescan (h : Reachable s) (now : Nat) :
    s.pull now = ((s.rescan now).1, (s.rescan now).2.withMark s.markAfterPull) ∧
    (∀ payload, (s.pull now).1 = .ok (some payload) → ∃ task left right, s.IsReady now task left right ∧
      payload = ⟨task.id, left, right, task.operator, task.duration⟩ ∧
      ∀ other left' right', s.IsReady now other left' right' → other.id < task.id →
        (s.pull now).2.registry.status? other.owner = some .invalid) ∧
    ((s.pull now).1 = .ok none → ∀ other left right, s.IsReady now other left right →
      (s.pull now).2.registry.status? other.owner = some .invalid) := by
  have hc := h.coherent
  refine ⟨hc.pull_eq_rescan now, fun payload hp => ?_, fun hp other left right hr => ?_⟩
  · rcases s.pull_cases now with ⟨outcome, t, hf, he⟩ | ⟨t, cursor, task, left, right, again, hs, ha, _, _, he⟩
    · rw [he] at hp
      exact absurd hp (hf.ne_some payload)
    · rw [he] at hp ⊢
      refine ⟨task, left, right, hc.ready_of_found hs ha,
        (Option.some.inj (Outcome.ok.inj hp)).symm, ?_⟩
      intro other left' right' hr hlt
      apply Registry.status?_markCalculating_of_invalid
      refine hc.invalid_of_passed hs hr fun hlive => ?_
      rcases Nat.lt_or_ge other.id cursor with hbehind | hge
      · exact hc.attention_behind_cursor hs hlive hbehind
      · exact (TaskTable.nextAttention_eq_some ha).2.2.2 other.id other hlive hge hlt
  · obtain ⟨t, cursor, hs, hn, he⟩ := pull_eq_none hp
    rw [he]
    refine hc.invalid_of_passed hs hr fun hlive => ?_
    rcases Nat.lt_or_ge other.id cursor with hlt | hge
    · exact hc.attention_behind_cursor hs hlive hlt
    · exact TaskTable.nextAttention_eq_none hn hlive hge

/-- A worker has the first sum and the product waits for it, so the second sum comes next. -/
theorem pull_past_waiting_product :
    let s := ((({} : Scheduler).perform (.accept "a" "(1+2)*3" (.graph Formula.productGraph))).perform
      (.pull 0)).perform (.accept "b" "1+2" (.graph Formula.sumGraph))
    Reachable s ∧ s.pull 0 = ((s.rescan 0).1, (s.rescan 0).2.withMark 1) ∧
      ∃ task left right, s.IsReady 0 task left right ∧ task.id = 3 := by
  intro s
  have hr : Reachable s := .step (.step (.step (.fresh {} none) (admissible_product "a" "(1+2)*3"))
    trivial) (admissible_sum "b" "1+2")
  obtain ⟨he, hsome, _⟩ := pull_agrees_with_rescan hr 0
  have hp : (s.pull 0).1 = .ok (some ⟨3, .one, .two, .add, 1000⟩) := by decide +kernel
  have hmark : s.markAfterPull = 1 := by decide +kernel
  rw [hmark] at he
  obtain ⟨task, left, right, hready, hpayload, _⟩ := hsome _ hp
  exact ⟨hr, he, task, left, right, hready, (congrArg TaskPayload.id hpayload).symm⟩

end Scheduler

end ArithDispatch
