import ArithDispatch.Proofs.Scheduler.Frame
import ArithDispatch.Proofs.Scheduler.Run

/-! What one action can do to a live task and to the record of an expression, said once for all actions.
What holds along a run follows from it case by case. -/
namespace ArithDispatch.Scheduler

/-- The task can be handed out as this payload: nobody who still has time works on it, and both its operands
are known. -/
structure Offers (s : Scheduler) (now : Nat) (payload : TaskPayload) (task : Task) : Prop where
  live : s.table.get? payload.id = some task
  operator : payload.operator = task.operator
  duration : payload.duration = task.duration
  notDone : task.isDone = false
  expired : task.isInProgress = true → task.leaseExpired now = true
  left : s.table.readiness task.left = .ready payload.left
  right : s.table.readiness task.right = .ready payload.right
  divisible : ¬ (task.operator = .div ∧ payload.right.isZero = true)

/-- The task is out at a worker, whose report for it is taken. -/
structure Takes (s : Scheduler) (id : Nat) (value : Binary64) (task : Task) : Prop where
  reported : (s.report id value).1 = .ok ()
  live : s.table.get? id = some task
  sent : task.status = .inProgress

/-- How a task has come to be live after an action. -/
inductive Becomes (s : Scheduler) : Action → Nat → Task → Prop
  | untouched {action : Action} {id : Nat} {task : Task} : s.table.get? id = some task →
      Becomes s action id task
  | created {owner source : String} {graph : Formula.Graph} {i : Nat} {node : Formula.Node} :
      (s.accept owner source (.graph graph)).1 = .ok () → graph.nodes[i]? = some node →
      Becomes s (.accept owner source (.graph graph)) (s.table.nextId + i)
        (TaskTable.taskOfNode owner s.durations s.table.nextId i node)
  | handedOut {now : Nat} {payload : TaskPayload} {task : Task} : (s.pull now).1 = .ok (some payload) →
      s.Offers now payload task →
      Becomes s (.pull now) payload.id (s.handedOut now task payload.left payload.right)
  | completed {id : Nat} {value : Binary64} {task : Task} : s.Takes id value task →
      Becomes s (.report id value) id (withResult task value)

/-- A live division of the expression has both its operands, and the right one is a zero. -/
def MeetsZero (s : Scheduler) (owner : String) : Prop :=
  ∃ task left right, s.table.get? task.id = some task ∧ task.owner = owner ∧
    s.table.readiness task.left = .ready left ∧ s.table.readiness task.right = .ready right ∧
    task.operator = .div ∧ right.isZero = true

/-- What an action makes of the record of an expression. -/
inductive Turns (s : Scheduler) (owner : String) (record : ExpressionRecord) :
    Action → ExpressionRecord → Prop
  | same (action : Action) : Turns s owner record action record
  | begun {now : Nat} {payload : TaskPayload} {task : Task} : (s.pull now).1 = .ok (some payload) →
      s.Offers now payload task → task.owner = owner →
      Turns s owner record (.pull now) { record with stage := .calculating }
  | spoilt {now : Nat} : s.registry.IsOpen owner → s.MeetsZero owner →
      Turns s owner record (.pull now)
        { record with stage := .invalid Obstacle.divisionByZero.reason }
  | finished {id : Nat} {value : Binary64} {task : Task} : s.Takes id value task → task.owner = owner →
      s.registry.openRoot? owner = some id →
      Turns s owner record (.report id value) { record with stage := .done value }

variable {s t : Scheduler} {task : Task} {now cursor id : Nat} {action : Action} {owner : String}
  {record : ExpressionRecord} {payload : TaskPayload}

theorem Turns.keeps {after : ExpressionRecord} (h : Turns s owner record action after) :
    after.source = record.source ∧ after.rootTask = record.rootTask := by
  cases h <;> exact ⟨rfl, rfl⟩

theorem Offers.pending_or_out (ho : s.Offers now payload task) :
    task.status = .pending ∨ task.isInProgress = true := by
  have hd := ho.notDone
  cases hs : task.status with
  | pending => exact .inl rfl
  | inProgress => exact .inr (by rw [Task.isInProgress, hs]; rfl)
  | completed =>
    rw [Task.isDone, hs] at hd
    cases hd

namespace Coherent

theorem readiness_of_scanning (h : Coherent s) (hs : Scanning now s t cursor) {operand : Operand}
    {value : Binary64} (hr : t.table.readiness operand = .ready value) :
    s.table.readiness operand = .ready value := by
  cases operand with
  | literal known => exact hr
  | reference dep =>
    obtain ⟨other, hg, hd, rfl⟩ := TaskTable.readiness_reference_ready hr
    simp only [TaskTable.readiness, h.get?_of_scanning hs hg, hd, if_true]

/-- What can be handed out in the course of a scan can be handed out before it. -/
theorem offers_of_scanning (h : Coherent s) (hs : Scanning now s t cursor)
    (ho : t.Offers now payload task) : s.Offers now payload task :=
  { ho with
    live := h.get?_of_scanning hs ho.live
    left := h.readiness_of_scanning hs ho.left
    right := h.readiness_of_scanning hs ho.right }

theorem handedOut_of_scanning (h : Coherent s) (hs : Scanning now s t cursor) (left right : Binary64) :
    t.handedOut now task left right = s.handedOut now task left right := by
  rw [handedOut, (Extends.scanning h hs).lease, handedOut]

/-- A pull that hands nothing out only removes tasks. -/
theorem get?_of_fruitless (h : Coherent s) {outcome : Outcome (Option TaskPayload)}
    (hf : Fruitless now s outcome t) (hg : t.table.get? id = some task) : s.table.get? id = some task := by
  cases hf with
  | locked => exact hg
  | idle _ hs => exact h.get?_of_scanning hs hg
  | panicked _ hs => exact h.get?_of_scanning hs hg

/-- A pull only removes tasks before it ends without a task or hands one out. -/
theorem pull_effect (h : Coherent s) (now : Nat) :
    (∃ outcome t, Fruitless now s outcome t ∧ s.pull now = (outcome, t)) ∨
    ∃ t cursor payload task, Scanning now s t cursor ∧ t.Offers now payload task ∧
      s.pull now = (.ok (some payload),
        (t.dispatch now task payload.left payload.right task.isInProgress).2) := by
  rcases s.pull_cases now with hn | ⟨t, cursor, task, left, right, again, hs, ha, _, _, he⟩
  · exact .inl hn
  · have ht := h.scanning hs
    obtain ⟨hg, _, ha, _⟩ := TaskTable.nextAttention_eq_some ha
    obtain ⟨hd, hx, _, _, hl, hr, ⟨_, _, hf⟩ | ⟨hz, hf⟩⟩ := ht.attention_cases hg ha <;> cases hf
    exact .inr ⟨t, cursor, _, task, hs, ⟨hg, rfl, rfl, hd, hx, hl, hr, hz⟩, he⟩

/-- After the task was handed out it is out, and the other live tasks are as they were. -/
theorem get?_of_offers (h : Coherent s) (ho : s.Offers now payload task) (redispatch : Bool) (id : Nat) :
    (s.dispatch now task payload.left payload.right redispatch).2.table.get? id =
      if id = payload.id then some (s.handedOut now task payload.left payload.right)
      else if id ∈ task.dependencies then none else s.table.get? id := by
  have hid : task.id = payload.id := Arena.id_of_get? ho.live
  have hg : s.table.get? task.id = some task := hid ▸ ho.live
  rw [← hid]
  exact get?_dispatch hg (fun dep hm => (h.reads task.id task dep hg hm).1)
    (h.leaf_of_ready ho.left ho.right) now _ _ redispatch id

/-- A pull that hands a task out leaves it live, out at the worker. -/
theorem get?_of_pull (h : Coherent s) (hp : (s.pull now).1 = .ok (some payload)) :
    ∃ task, s.Offers now payload task ∧ (s.pull now).2.table.get? payload.id =
      some (s.handedOut now task payload.left payload.right) := by
  rcases h.pull_effect now with ⟨outcome, t, hf, he⟩ | ⟨t, cursor, other, task, hs, ho, he⟩
  · rw [he] at hp
    exact absurd hp (hf.ne_some payload)
  · rw [he] at hp
    cases hp
    refine ⟨task, h.offers_of_scanning hs ho, ?_⟩
    rw [he, (h.scanning hs).get?_of_offers ho, if_pos rfl, h.handedOut_of_scanning hs]

theorem offers (h : Coherent s) (hp : (s.pull now).1 = .ok (some payload)) :
    ∃ task, s.Offers now payload task := by
  obtain ⟨task, ho, _⟩ := h.get?_of_pull hp
  exact ⟨task, ho⟩

theorem becomes_of_pull (h : Coherent s) (hg : (s.pull now).2.table.get? id = some task) :
    s.Becomes (.pull now) id task := by
  rcases h.pull_effect now with ⟨outcome, t, hf, he⟩ | ⟨t, cursor, payload, old, hs, ho, he⟩
  · rw [he] at hg
    exact .untouched (h.get?_of_fruitless hf hg)
  · have hp : (s.pull now).1 = .ok (some payload) := by rw [he]
    rw [he, (h.scanning hs).get?_of_offers ho] at hg
    split at hg
    · next hid =>
      obtain rfl := Option.some.inj hg
      subst hid
      rw [h.handedOut_of_scanning hs]
      exact .handedOut hp (h.offers_of_scanning hs ho)
    · split at hg
      · cases hg
      · exact .untouched (h.get?_of_scanning hs hg)

theorem becomes_of_report (h : Coherent s) {reported : Nat} {value : Binary64}
    (hg : (s.report reported value).2.table.get? id = some task) :
    s.Becomes (.report reported value) id task := by
  rcases h.report_cases reported value with
    ⟨failure, t, hf, he⟩ | ⟨old, rfl, hold, hp, ⟨_, he⟩ | ⟨t, _, he, _, hget, _⟩⟩
  · rw [he] at hg
    exact .untouched (hf.unchanged.1 ▸ hg)
  · have hr : (s.report old.id value).1 = .ok () := by rw [he]
    rw [he, get?_record hold] at hg
    split at hg
    · next hid =>
      obtain rfl := Option.some.inj hg
      subst hid
      exact .completed ⟨hr, hold, hp⟩
    · exact .untouched hg
  · rw [he, hget, Option.filter_eq_some_iff] at hg
    exact .untouched hg.1

theorem becomes_of_accept (h : Coherent s) {source : String} {compiled : Formula.Compiled}
    (hg : (s.accept owner source compiled).2.table.get? id = some task) :
    s.Becomes (.accept owner source compiled) id task := by
  rcases s.accept_cases owner source compiled with
    ⟨failure, he⟩ | ⟨_, ⟨value, t, rfl, he, ht, _⟩ | ⟨graph, t, rfl, he, ht, _⟩⟩
  · rw [he] at hg
    exact .untouched hg
  · rw [he, ht] at hg
    exact .untouched hg
  · have hok : (s.accept owner source (.graph graph)).1 = .ok () := by rw [he]
    rw [he] at hg
    rcases TaskTable.get?_commit_cases h.bounded (ht ▸ hg) with ⟨_, hg⟩ | ⟨i, node, rfl, hn, rfl⟩
    · exact .untouched hg
    · exact .created hok hn

/-- Every live task was live before, or is a node of the graph that was accepted. -/
theorem becomes (h : Coherent s) (hg : (s.perform action).table.get? id = some task) :
    s.Becomes action id task := by
  cases action with
  | accept owner source compiled => exact h.becomes_of_accept hg
  | pull now => exact h.becomes_of_pull hg
  | report id value => exact h.becomes_of_report hg

/-- A scan leaves a record alone, or closes it for a division by zero. -/
theorem find?_of_scanning (h : Coherent s) (hs : Scanning now s t cursor)
    (hf : s.registry.find? owner = some record) :
    t.registry.find? owner = some record ∨
      s.registry.IsOpen owner ∧ s.MeetsZero owner ∧ t.registry.find? owner =
        some { record with stage := .invalid Obstacle.divisionByZero.reason } := by
  induction hs with
  | start => exact .inl hf
  | sweep hs ha => exact absurd ha (h.scanning hs).nextAttention_ne_sweep
  | @invalidate t cursor task obstacle hs ha ih =>
    have ht := h.scanning hs
    obtain ⟨hg, _, left, right, hl, hr, ⟨hop, hz, hf'⟩ | ⟨_, hf'⟩⟩ := ht.nextAttention_cases ha <;>
      cases hf'
    have hreg : (t.invalidate task .divisionByZero).registry =
      (t.registry.invalidate task.owner Obstacle.divisionByZero.reason).2 := rfl
    rw [hreg]
    by_cases hne : owner = task.owner
    · subst hne
      -- the task is live, so its expression was not closed before
      obtain ⟨root, ho, _⟩ := ht.owned task.id task hg
      obtain ⟨found, hfound, hopen, _⟩ := Registry.openRoot?_eq_some.mp ho
      rcases ih with hsame | ⟨_, _, hclosed⟩
      · obtain rfl : found = record := Option.some.inj (hfound.symm.trans hsame)
        refine .inr ⟨Registry.isOpen_iff.mpr ⟨found, hf, hopen⟩, ⟨task, left, right,
          h.get?_of_scanning hs hg, rfl, h.readiness_of_scanning hs hl,
          h.readiness_of_scanning hs hr, hop, hz⟩, ?_⟩
        rw [Registry.invalidate, Registry.find?_moveTo_self, hfound, Option.map_some,
          if_pos (ExpressionStatus.canBecome_of_terminal hopen rfl)]
      · cases hfound.symm.trans hclosed
        cases hopen
    · rw [Registry.invalidate, Registry.find?_moveTo_of_ne _ hne]
      exact ih

theorem turns_of_fruitless (h : Coherent s) {outcome : Outcome (Option TaskPayload)}
    (hf : Fruitless now s outcome t) (hr : s.registry.find? owner = some record) :
    ∃ after, t.registry.find? owner = some after ∧ s.Turns owner record (.pull now) after := by
  have scanned : ∀ {t : Scheduler} {cursor : Nat}, Scanning now s t cursor →
      ∃ after, t.registry.find? owner = some after ∧ s.Turns owner record (.pull now) after := by
    intro t cursor hs
    rcases h.find?_of_scanning hs hr with hsame | ⟨hopen, hz, hclosed⟩
    · exact ⟨record, hsame, .same _⟩
    · exact ⟨_, hclosed, .spoilt hopen hz⟩
  exact hf.elim ⟨record, hr, .same _⟩ scanned fun h => h

theorem turns_of_pull (h : Coherent s) (hf : s.registry.find? owner = some record) (now : Nat) :
    ∃ after, (s.pull now).2.registry.find? owner = some after ∧
      s.Turns owner record (.pull now) after := by
  rcases h.pull_effect now with ⟨outcome, t, hn, he⟩ | ⟨t, cursor, payload, task, hs, ho, he⟩
  · rw [he]
    exact h.turns_of_fruitless hn hf
  · have hp : (s.pull now).1 = .ok (some payload) := by rw [he]
    have hreg : (s.pull now).2.registry = (t.registry.markCalculating task.owner).2 := by rw [he]; rfl
    rw [hreg]
    by_cases hne : owner = task.owner
    · subst hne
      -- the task is live at the end of the scan, so the scan has not closed its expression
      obtain ⟨root, hroot, _⟩ := (h.scanning hs).owned _ task ho.live
      obtain ⟨found, hfound, hopen, _⟩ := Registry.openRoot?_eq_some.mp hroot
      rcases h.find?_of_scanning hs hf with hsame | ⟨_, _, hclosed⟩
      · obtain rfl : found = record := Option.some.inj (hfound.symm.trans hsame)
        exact ⟨_, Registry.find?_markCalculating_of_open hsame hopen,
          .begun hp (h.offers_of_scanning hs ho) rfl⟩
      · cases hfound.symm.trans hclosed
        cases hopen
    · rw [Registry.markCalculating_eq_moveTo, Registry.find?_moveTo_of_ne _ hne]
      rcases h.find?_of_scanning hs hf with hsame | ⟨hopen, hz, hclosed⟩
      · exact ⟨record, hsame, .same _⟩
      · exact ⟨_, hclosed, .spoilt hopen hz⟩

theorem turns_of_report (h : Coherent s) (hf : s.registry.find? owner = some record) (id : Nat)
    (value : Binary64) : ∃ after, (s.report id value).2.registry.find? owner = some after ∧
      s.Turns owner record (.report id value) after := by
  rcases h.report_cases id value with
    ⟨failure, t, hr, he⟩ | ⟨task, rfl, hg, hp, ⟨_, he⟩ | ⟨t, ho, he, hreg, _⟩⟩
  · rw [he]
    exact ⟨record, hr.unchanged.2 ▸ hf, .same _⟩
  · rw [he]
    exact ⟨record, hf, .same _⟩
  · have hr : (s.report task.id value).1 = .ok () := by rw [he]
    rw [he, hreg]
    by_cases hne : owner = task.owner
    · subst hne
      obtain ⟨found, hfound, hopen, _⟩ := Registry.openRoot?_eq_some.mp ho
      obtain rfl : found = record := Option.some.inj (hfound.symm.trans hf)
      refine ⟨{ found with stage := .done value }, ?_, .finished ⟨hr, hg, hp⟩ rfl ho⟩
      rw [Registry.complete, Registry.find?_moveTo_self, hfound, Option.map_some,
        if_pos (ExpressionStatus.canBecome_of_terminal hopen rfl)]
    · rw [Registry.complete, Registry.find?_moveTo_of_ne _ hne]
      exact ⟨record, hf, .same _⟩

theorem contains_of_scanning (h : Coherent s) (hs : Scanning now s t cursor) (owner : String) :
    t.registry.contains owner = s.registry.contains owner := by
  induction hs with
  | start => rfl
  | sweep hs ha => exact absurd ha (h.scanning hs).nextAttention_ne_sweep
  | invalidate _ _ ih => exact (Registry.contains_moveTo ..).trans ih

theorem contains_pull (h : Coherent s) (now : Nat) (owner : String) :
    (s.pull now).2.registry.contains owner = s.registry.contains owner := by
  rcases h.pull_effect now with ⟨outcome, t, hf, he⟩ | ⟨t, cursor, payload, task, hs, _, he⟩
  · rw [he]
    exact hf.elim (motive := fun t => t.registry.contains owner = s.registry.contains owner) rfl
      (fun hs => h.contains_of_scanning hs owner) fun h => h
  · have hreg : (s.pull now).2.registry = (t.registry.markCalculating task.owner).2 := by rw [he]; rfl
    rw [hreg, Registry.markCalculating_eq_moveTo, Registry.contains_moveTo]
    exact h.contains_of_scanning hs owner

theorem contains_report (h : Coherent s) (id : Nat) (value : Binary64) (owner : String) :
    (s.report id value).2.registry.contains owner = s.registry.contains owner := by
  rcases h.report_cases id value with
    ⟨failure, t, hf, he⟩ | ⟨task, rfl, _, _, ⟨_, he⟩ | ⟨t, _, he, hreg, _⟩⟩
  · rw [he]
    rw [hf.unchanged.2]
  · rw [he]
    rfl
  · rw [he, hreg]
    exact Registry.contains_moveTo ..

theorem find?_accept_of_some (hf : s.registry.find? owner = some record) (other source : String)
    (compiled : Formula.Compiled) :
    (s.accept other source compiled).2.registry.find? owner = some record := by
  have stays : ∀ {after : Registry} {added : ExpressionRecord}, ¬ s.registry.contains other = true →
      (∀ id, after.find? id = if id = other then some added else s.registry.find? id) →
      after.find? owner = some record := by
    intro after added hnew hfind
    rw [hfind, if_neg, hf]
    rintro rfl
    rw [find?_eq_none_of_not_contains hnew] at hf
    cases hf
  rcases s.accept_cases other source compiled with
    ⟨failure, he⟩ | ⟨hnew, ⟨_, t, _, he, _, hfind⟩ | ⟨_, t, _, he, _, hfind⟩⟩
  · rw [he]
    exact hf
  · rw [he]
    exact stays hnew hfind
  · rw [he]
    exact stays hnew hfind

/-- A record stays, and only its stage can change. -/
theorem turns (h : Coherent s) (hf : s.registry.find? owner = some record) (action : Action) :
    ∃ after, (s.perform action).registry.find? owner = some after ∧
      s.Turns owner record action after := by
  cases action with
  | accept other source compiled => exact ⟨record, find?_accept_of_some hf other source compiled, .same _⟩
  | pull now => exact h.turns_of_pull hf now
  | report id value => exact h.turns_of_report hf id value

/-- A record was there before the action, or it is the one of what the action accepted. -/
theorem find?_perform_cases (h : Coherent s) (hf : (s.perform action).registry.find? owner = some record) :
    (∃ before, s.registry.find? owner = some before ∧ s.Turns owner before action record) ∨
      (∃ source value, action = .accept owner source (.literal value) ∧ record = .literal source value) ∨
      ∃ source graph, action = .accept owner source (.graph graph) ∧
        record = .pending source (s.table.nextId + graph.root) := by
  cases hb : s.registry.find? owner with
  | some before =>
    obtain ⟨after, hafter, hturn⟩ := h.turns hb action
    obtain rfl := Option.some.inj (hafter.symm.trans hf)
    exact .inl ⟨before, rfl, hturn⟩
  | none =>
    have hnew : s.registry.contains owner = false := by rw [Registry.contains, hb]; rfl
    have hin : (s.perform action).registry.contains owner = true := by rw [Registry.contains, hf]; rfl
    refine .inr ?_
    cases action with
    | accept other source compiled =>
      rw [Scheduler.perform] at hf hin
      rcases s.accept_cases other source compiled with
        ⟨failure, he⟩ | ⟨_, ⟨value, t, rfl, he, _, hfind⟩ | ⟨graph, t, rfl, he, _, hfind⟩⟩
      · rw [he, hnew] at hin
        cases hin
      · rw [he, hfind, hb] at hf
        split at hf <;> cases hf
        subst owner
        exact .inl ⟨source, value, rfl, rfl⟩
      · rw [he, hfind, hb] at hf
        split at hf <;> cases hf
        subst owner
        exact .inr ⟨source, graph, rfl, rfl⟩
    | pull now => cases hnew.symm.trans ((h.contains_pull now owner).symm.trans hin)
    | report id value => cases hnew.symm.trans ((h.contains_report id value owner).symm.trans hin)

/-- A record that has come to a last stage is final. -/
theorem find?_perform_of_closed (h : Coherent s) (hf : s.registry.find? owner = some record)
    (hclosed : record.stage.status.isTerminal = true) (action : Action) :
    (s.perform action).registry.find? owner = some record := by
  have notOpen : ¬ s.registry.IsOpen owner := by
    intro ho
    obtain ⟨found, hfound, hopen⟩ := Registry.isOpen_iff.mp ho
    cases hf.symm.trans hfound
    rw [hclosed] at hopen
    cases hopen
  obtain ⟨after, hafter, hturn⟩ := h.turns hf action
  cases hturn with
  | same => exact hafter
  | @begun now payload task _ ho howner =>
    obtain ⟨root, hroot, _⟩ := h.owned _ task ho.live
    exact absurd (Registry.isOpen_of_openRoot? (howner ▸ hroot)) notOpen
  | spoilt hopen => exact absurd hopen notOpen
  | finished _ _ hroot => exact absurd (Registry.isOpen_of_openRoot? hroot) notOpen

theorem find?_run_of_closed (h : Coherent s) (hf : s.registry.find? owner = some record)
    (hclosed : record.stage.status.isTerminal = true) {actions : List Action}
    (ha : ∀ action ∈ actions, action.Admissible) : (s.run actions).registry.find? owner = some record :=
  h.run_induction (motive := fun _ s => s.registry.find? owner = some record) ha [] hf
    fun hc _ hf => hc.find?_perform_of_closed hf hclosed _

end Coherent

end ArithDispatch.Scheduler
