import ArithDispatch.Proofs.Scheduler.Provenance
import Mathlib.Data.List.Destutter

/-! The life of an expression along a run. What makes it go through its stages one by one is that a division by
zero is found only after some operand was reported, and so after some task was handed out. -/
namespace ArithDispatch

namespace ExpressionStatus

/-- How an expression that has tasks moves on. -/
inductive Next : ExpressionStatus → ExpressionStatus → Prop
  | begun : Next .pending .calculating
  | finished : Next .calculating .done
  | spoilt : Next .calculating .invalid

/-- The statuses that an expression may go through from this one on. -/
def Leads (path : List ExpressionStatus) : ExpressionStatus → Prop
  | .pending => path <+: [.pending, .calculating, .done] ∨ path <+: [.pending, .calculating, .invalid]
  | .calculating => path <+: [.calculating, .done] ∨ path <+: [.calculating, .invalid]
  | .done => path <+: [.done]
  | .invalid => path <+: [.invalid]

theorem leads_of_isChain {status : ExpressionStatus} {rest : List ExpressionStatus}
    (h : (status :: rest).IsChain fun first second => second = first ∨ Next first second) :
    Leads (rest.destutter' (· ≠ ·) status) status := by
  induction rest generalizing status with
  | nil => cases status <;> simp [Leads]
  | cons next rest ih =>
    obtain ⟨rfl | hn, hrest⟩ := List.isChain_cons_cons.mp h
    · rw [List.destutter'_cons_neg _ (by simp)]
      exact ih hrest
    · have hne : status ≠ next := by cases hn <;> simp
      rw [List.destutter'_cons_pos _ hne]
      have hlater := ih hrest
      cases hn with
      | begun => simpa [Leads] using hlater
      | finished => exact .inl (by simpa [Leads] using hlater)
      | spoilt => exact .inr (by simpa [Leads] using hlater)

end ExpressionStatus

namespace Scheduler
open Formula (assemble isTree_of_assemble divisible_of_assemble)

/-- The statuses of an expression along a run, from the first state on in which it is known. -/
def statuses (s : Scheduler) (owner : String) : List Action → List ExpressionStatus
  | [] => (s.registry.status? owner).toList
  | action :: rest => (s.registry.status? owner).toList ++ (s.perform action).statuses owner rest

/-- Some task of the expression was handed out. -/
def Started (events : List Event) (owner : String) : Prop :=
  ∃ id, BelongsTo events id owner ∧ .handedOut id ∈ events

/-- What is known of every state that a run leads to. -/
structure Tracked (events : List Event) (s : Scheduler) : Prop where
  coherent : Coherent s
  recorded : Recorded events s
  sourced : Sourced events s
  assembled : ∀ owner graph base, Assigned events owner graph base →
    ∃ tokens, assemble tokens = .ok (.graph graph)

/-- The record of an expression that was accepted as a graph. -/
structure GraphRecord (events : List Event) (s : Scheduler) (owner source : String) (root : Nat)
    (record : ExpressionRecord) : Prop where
  found : s.registry.find? owner = some record
  text : record.source = source
  rootTask : record.rootTask = some root
  belongs : BelongsTo events root owner
  pending : record.stage.status = .pending ↔ ¬ Started events owner

variable {events : List Event} {s : Scheduler} {action : Action} {actions : List Action}
  {owner source : String} {record : ExpressionRecord} {root : Nat} {graph : Formula.Graph}

theorem Started.append (h : Started events owner) (more : List Event) : Started (events ++ more) owner := by
  obtain ⟨id, hb, hm⟩ := h
  exact ⟨id, hb.append more, List.mem_append_left _ hm⟩

namespace Tracked

theorem fresh (durations : OperationDurations) (lease : Option Duration) :
    Tracked [] { durations, lease } where
  coherent := .fresh durations lease
  recorded := .fresh durations lease
  sourced := .fresh durations lease
  assembled _ _ _ ha := absurd ha not_assigned_nil

theorem perform (h : Tracked events s) (ha : action.Admissible) :
    Tracked (events ++ s.observe action) (s.perform action) where
  coherent := h.coherent.perform ha
  recorded := h.recorded.perform h.coherent action
  sourced := h.sourced.perform h.recorded h.coherent action
  assembled owner graph base hassigned := by
    rcases assigned_observe.mp hassigned with hassigned | ⟨_, source, rfl, _⟩
    · exact h.assembled owner graph base hassigned
    · exact ha

theorem run (h : Tracked events s) (ha : ∀ action ∈ actions, action.Admissible) :
    Tracked (events ++ s.history actions) (s.run actions) :=
  h.coherent.run_induction ha events h fun _ hfirst h => h.perform hfirst

/-- A division by zero is found only once a task of the expression was handed out: no zero that is written in
the formula stands to the right of a division, so the zero was reported. -/
theorem started_of_meetsZero (h : Tracked events s) (hz : s.MeetsZero owner) : Started events owner := by
  obtain ⟨task, left, right, hg, rfl, _, hr, hop, hzero⟩ := hz
  obtain ⟨graph, base, i, node, ha, hn, _, hcarries⟩ := h.sourced.carries task.id task hg
  obtain ⟨tokens, ht⟩ := h.assembled _ graph base ha
  have hsupplied := hcarries.right.supplied h.recorded hr
  cases hslot : node.right with
  | literal written =>
    rw [hslot] at hsupplied
    obtain rfl : right = written := hsupplied
    refine absurd ⟨hcarries.operator.symm.trans hop, ?_⟩
      (divisible_of_assemble ht (List.mem_of_getElem? hn))
    rw [hslot]
    exact hzero
  | reference j =>
    rw [hslot] at hsupplied
    have hj := (isTree_of_assemble ht).backward i node hn j (Formula.Node.mem_references.mpr (.inr hslot))
    have hi : i < graph.size := (List.getElem?_eq_some_iff.mp hn).1
    exact ⟨base + j, ⟨graph, base, j, ha, Nat.lt_trans hj hi, rfl⟩, h.recorded.sent _ ⟨right, hsupplied⟩⟩

/-- The first hand-out of a task of the expression is where the computation begins. -/
theorem started_observe (h : Tracked events s) (ha : action.Admissible)
    (hs : Started (events ++ s.observe action) owner) :
    Started events owner ∨ (s.perform action).registry.status? owner = some .calculating := by
  obtain ⟨id, hb, hm⟩ := hs
  rcases List.mem_append.mp hm with hm | hm
  · obtain ⟨graph, base, i, hassigned, hi, rfl⟩ := hb
    rcases assigned_observe.mp hassigned with hassigned | ⟨rfl, _⟩
    · exact .inl ⟨_, ⟨graph, base, i, hassigned, hi, rfl⟩, hm⟩
    · have hissued := h.recorded.issued _ hm
      rw [h.recorded.next] at hissued
      omega
  · obtain ⟨now, payload, rfl, hp, rfl⟩ := handedOut_mem_observe.mp hm
    obtain ⟨task, _, hg⟩ := h.coherent.get?_of_pull hp
    have hafter := (h.perform ha).recorded
    have hcalculating := hafter.begun _ _ hg (by simp [handedOut])
    rw [hafter.owner_of_belongsTo hg hb] at hcalculating
    exact .inr hcalculating

end Tracked

namespace GraphRecord

theorem status? (h : GraphRecord events s owner source root record) :
    s.registry.status? owner = some record.stage.status := by
  rw [Registry.status?, h.found, Option.map_some]

theorem calculating_of_started (h : GraphRecord events s owner source root record)
    (ho : s.registry.IsOpen owner) (hs : Started events owner) : record.stage.status = .calculating := by
  obtain ⟨found, hfound, hopen⟩ := Registry.isOpen_iff.mp ho
  cases h.found.symm.trans hfound
  cases hstatus : record.stage.status with
  | pending => exact absurd hs (h.pending.mp hstatus)
  | calculating => rfl
  | done => rw [hstatus] at hopen; cases hopen
  | invalid => rw [hstatus] at hopen; cases hopen

/-- A record that has left the first stage, some task of its expression being handed out. -/
theorem moved (h : GraphRecord events s owner source root record) {stage : Stage}
    (hf : (s.perform action).registry.find? owner = some { record with stage })
    (hstage : stage.status ≠ .pending) (hs : Started (events ++ s.observe action) owner) :
    GraphRecord (events ++ s.observe action) (s.perform action) owner source root
      { record with stage } where
  found := hf
  text := h.text
  rootTask := h.rootTask
  belongs := h.belongs.append _
  pending := iff_of_false hstage (not_not.mpr hs)

/-- An action leaves the stage as it is, or takes the expression to the next one. -/
theorem perform (h : GraphRecord events s owner source root record) (ht : Tracked events s)
    (ha : action.Admissible) : ∃ after,
      GraphRecord (events ++ s.observe action) (s.perform action) owner source root after ∧
        (after.stage.status = record.stage.status ∨
          ExpressionStatus.Next record.stage.status after.stage.status) := by
  obtain ⟨after, hafter, hturn⟩ := ht.coherent.turns h.found action
  refine ⟨after, ?_⟩
  cases hturn with
  | same action =>
    refine ⟨⟨hafter, h.text, h.rootTask, h.belongs.append _, fun hp hs => ?_, fun hn => ?_⟩, .inl rfl⟩
    · rcases ht.started_observe ha hs with hs | hc
      · exact h.pending.mp hp hs
      · rw [Registry.status?, hafter, Option.map_some, hp] at hc
        cases hc
    · exact h.pending.mpr fun hs => hn (hs.append _)
  | @begun now payload task hp ho howner =>
    subst howner
    have hstarted : Started (events ++ s.observe (.pull now)) task.owner :=
      ⟨payload.id, (ht.recorded.live _ task ho.live).belongsTo.append _,
        List.mem_append_right _ (handedOut_mem_observe.mpr ⟨now, payload, rfl, hp, rfl⟩)⟩
    obtain ⟨open', hroot, _⟩ := ht.coherent.owned _ task ho.live
    refine ⟨h.moved hafter (by simp [Stage.status]) hstarted, ?_⟩
    rcases Registry.status?_of_open hroot with hs | hs <;> rw [h.status?] at hs <;>
      rw [Option.some.inj hs]
    · exact .inr .begun
    · exact .inl rfl
  | spoilt hopen hz =>
    -- this is where the check for written zeros matters: without it the stage could still be the first
    have hstarted := ht.started_of_meetsZero hz
    refine ⟨h.moved hafter (by simp [Stage.status]) (hstarted.append _), .inr ?_⟩
    rw [h.calculating_of_started hopen hstarted]
    exact .spoilt
  | @finished id value task htakes howner hroot =>
    subst howner
    have hm := ht.recorded.live id task htakes.live
    have hstarted : Started events task.owner :=
      ⟨id, hm.belongsTo, hm.handedOut_mem (by simp [htakes.sent])⟩
    refine ⟨h.moved hafter (by simp [Stage.status]) (hstarted.append _), .inr ?_⟩
    rw [h.calculating_of_started (Registry.isOpen_of_openRoot? hroot) hstarted]
    exact .finished

/-- An accepted graph begins its life. -/
theorem accept (ht : Tracked events s) (ha : (Action.accept owner source (.graph graph)).Admissible)
    (hok : (s.accept owner source (.graph graph)).1 = .ok ()) :
    GraphRecord (events ++ s.observe (.accept owner source (.graph graph)))
      (s.perform (.accept owner source (.graph graph))) owner source (s.table.nextId + graph.root)
      (.pending source (s.table.nextId + graph.root)) := by
  have hnew := not_contains_of_accept hok
  obtain ⟨t, he, _, hf⟩ := accept_graph hok
  have hfound : (s.perform (.accept owner source (.graph graph))).registry.find? owner =
      some (.pending source (s.table.nextId + graph.root)) := by
    rw [Scheduler.perform, he, hf, if_pos rfl]
  have hroot : graph.root < graph.size := by
    obtain ⟨tokens, htokens⟩ := ha
    exact (isTree_of_assemble htokens).root_lt
  refine ⟨hfound, rfl, rfl, ?_, iff_of_true rfl fun hs => ?_⟩
  · exact ⟨graph, _, graph.root, assigned_observe.mpr (.inr ⟨ht.recorded.next, source, rfl, hok⟩), hroot, rfl⟩
  · rcases ht.started_observe ha hs with ⟨_, ⟨graph', base, _, hassigned, _⟩, _⟩ | hc
    · obtain ⟨record, hold, _⟩ := ht.sourced.rooted owner graph' base hassigned
      rw [find?_eq_none_of_not_contains hnew] at hold
      cases hold
    · rw [Registry.status?, hfound] at hc
      cases hc

theorem run (h : GraphRecord events s owner source root record) (ht : Tracked events s)
    (ha : ∀ action ∈ actions, action.Admissible) : ∃ after,
      GraphRecord (events ++ s.history actions) (s.run actions) owner source root after := by
  have both := ht.coherent.run_induction (motive := fun events s => Tracked events s ∧
    ∃ record, GraphRecord events s owner source root record) ha events ⟨ht, record, h⟩ ?_
  · exact both.2
  · intro events s action _ hfirst ⟨ht, record, h⟩
    obtain ⟨after, hafter, _⟩ := h.perform ht hfirst
    exact ⟨ht.perform hfirst, after, hafter⟩

/-- Along a run the status stays or moves on, from one state to the next. -/
theorem isChain_statuses (h : GraphRecord events s owner source root record) (ht : Tracked events s)
    (ha : ∀ action ∈ actions, action.Admissible) : ∃ rest,
      s.statuses owner actions = record.stage.status :: rest ∧ rest.length = actions.length ∧
        (record.stage.status :: rest).IsChain
          fun first second => second = first ∨ ExpressionStatus.Next first second := by
  induction actions generalizing events s record with
  | nil => exact ⟨[], by rw [statuses, h.status?]; rfl, rfl, .singleton _⟩
  | cons action rest ih =>
    obtain ⟨hfirst, hrest⟩ := List.forall_mem_cons.mp ha
    obtain ⟨after, hafter, hnext⟩ := h.perform ht hfirst
    obtain ⟨later, hlater, hlength, hchain⟩ := ih hafter (ht.perform hfirst) hrest
    refine ⟨after.stage.status :: later, ?_, congrArg (· + 1) hlength,
      List.isChain_cons_cons.mpr ⟨hnext, hchain⟩⟩
    rw [statuses, h.status?, hlater]
    rfl

/-- The expression is done by the report for its root that is taken, and by nothing else. -/
theorem done_iff (h : GraphRecord events s owner source root record) (ht : Tracked events s) :
    (s.registry.status? owner ≠ some .done ∧ (s.perform action).registry.status? owner = some .done) ↔
      ∃ value, action = .report root value ∧ (s.report root value).1 = .ok () := by
  constructor
  · rintro ⟨hbefore, hdone⟩
    obtain ⟨after, hafter, hturn⟩ := ht.coherent.turns h.found action
    rw [Registry.status?, hafter, Option.map_some] at hdone
    rw [h.status?] at hbefore
    cases hturn with
    | same => exact absurd hdone hbefore
    | begun => cases hdone
    | spoilt => cases hdone
    | @finished id value task htakes _ hroot =>
      have hid : some id = some root := by
        rw [← h.rootTask, ← Registry.rootTask?_of_openRoot? hroot, Registry.rootTask?, h.found,
          Option.bind_some]
      obtain rfl := Option.some.inj hid
      exact ⟨value, rfl, htakes.reported⟩
  · rintro ⟨value, rfl, hok⟩
    rcases ht.coherent.report_cases root value with
      ⟨failure, t, _, he⟩ | ⟨task, rfl, hg, _, hcase⟩
    · rw [he] at hok
      cases hok
    · obtain rfl := ht.recorded.owner_of_belongsTo hg h.belongs
      obtain ⟨root, hopen, _⟩ := ht.coherent.owned _ task hg
      have hroot : root = task.id := by
        have hsame := Registry.rootTask?_of_openRoot? hopen
        rw [Registry.rootTask?, h.found, Option.bind_some, h.rootTask] at hsame
        exact (Option.some.inj hsame).symm
      subst hroot
      rcases hcase with ⟨hne, _⟩ | ⟨t, _, he, hreg, _⟩
      · exact absurd hopen hne
      · constructor
        · exact Registry.status?_ne_of_open hopen rfl
        · rw [Scheduler.perform, he, hreg, Registry.complete, Registry.status?_moveTo,
            if_pos ⟨Registry.moveTo_of_open hopen rfl, rfl⟩]
          rfl

/-- The expression becomes invalid in a pull. -/
theorem exists_pull_of_invalid (h : GraphRecord events s owner source root record) (ht : Tracked events s)
    (hbefore : s.registry.status? owner ≠ some .invalid)
    (hinvalid : (s.perform action).registry.status? owner = some .invalid) : ∃ now, action = .pull now := by
  obtain ⟨after, hafter, hturn⟩ := ht.coherent.turns h.found action
  rw [Registry.status?, hafter, Option.map_some] at hinvalid
  rw [h.status?] at hbefore
  cases hturn with
  | same => exact absurd hinvalid hbefore
  | begun => cases hinvalid
  | @spoilt now => exact ⟨now, rfl⟩
  | finished => cases hinvalid

/-- There is one reason only for which an expression is given up. -/
theorem error_of_invalid (h : GraphRecord events s owner source root record) (ht : Tracked events s)
    {summary : ExpressionSummary} (hs : s.registry.summary? owner = some summary)
    (hinvalid : summary.status = .invalid) : summary.error = some "division by zero" := by
  rw [Registry.summary?, h.found] at hs
  cases hs
  obtain ⟨reason, hreason⟩ := Stage.exists_invalid hinvalid
  have hcause := ht.coherent.regular.cause owner record reason h.found hreason
  simp only [ExpressionRecord.summary, hreason, Stage.error?, hcause]
  rfl

end GraphRecord

/-- An accepted number is done at once, and stays so. -/
theorem Coherent.find?_run_of_literal (h : Coherent s) {value : Binary64}
    (hok : (s.accept owner source (.literal value)).1 = .ok ())
    (ha : (Action.accept owner source (.literal value)).Admissible)
    (hlate : ∀ action ∈ actions, action.Admissible) :
    ((s.perform (.accept owner source (.literal value))).run actions).registry.find? owner =
      some (.literal source value) := by
  obtain ⟨t, he, _, hf⟩ := accept_literal hok
  refine (h.perform ha).find?_run_of_closed ?_ rfl hlate
  rw [Scheduler.perform, he, hf, if_pos rfl]

/-- The life of an expression, from its admission to any later state. A number is done at once. A graph is
pending until one of its tasks is handed out, then it is being computed, and it ends done or invalid; it skips
no stage. It is done by the report for its root that is taken, and it becomes invalid in a pull, for a division
by zero. Then nothing changes its record any more. -/
theorem expression_lifecycle (durations : OperationDurations) (lease : Option Duration)
    {early late : List Action} {owner source : String} {compiled : Formula.Compiled}
    (ha : ∀ action ∈ early ++ .accept owner source compiled :: late, action.Admissible)
    (hok : ((({ durations, lease } : Scheduler).run early).accept owner source compiled).1 = .ok ()) :
    let start : Scheduler := { durations, lease }
    let actions := early ++ .accept owner source compiled :: late
    let admitted := (start.run early).perform (.accept owner source compiled)
    let s := start.run actions
    (∀ value, compiled = .literal value → s.registry.find? owner = some (.literal source value)) ∧
    (∀ graph, compiled = .graph graph →
      let root := (start.run early).table.nextId + graph.root
      let statuses := admitted.statuses owner late
      let path := statuses.destutter (· ≠ ·)
      (statuses.length = late.length + 1 ∧ statuses.head? = some .pending) ∧
      (path <+: [.pending, .calculating, .done] ∨ path <+: [.pending, .calculating, .invalid]) ∧
      (s.registry.status? owner = some .pending ↔ ∀ id, BelongsTo (start.history actions) id owner →
        .handedOut id ∉ start.history actions) ∧
      (∀ action : Action,
        ((s.registry.status? owner ≠ some .done ∧ (s.perform action).registry.status? owner = some .done) ↔
          ∃ value, action = .report root value ∧ (s.report root value).1 = .ok ()) ∧
        (s.registry.status? owner ≠ some .invalid →
          (s.perform action).registry.status? owner = some .invalid → ∃ now, action = .pull now)) ∧
      ∀ summary, s.registry.summary? owner = some summary → summary.status = .invalid →
        summary.error = some "division by zero") ∧
    ∀ record, s.registry.find? owner = some record → record.stage.status.isTerminal = true →
      ∀ more : List Action, (∀ action ∈ more, action.Admissible) →
        (s.run more).registry.find? owner = some record := by
  intro start actions admitted s
  obtain ⟨hearly, hrest⟩ := List.forall_mem_append.mp ha
  obtain ⟨haccept, hlate⟩ := List.forall_mem_cons.mp hrest
  have hbefore : Tracked (start.history early) (start.run early) := (Tracked.fresh durations lease).run hearly
  have hadmitted := hbefore.perform haccept
  have hrun : s = admitted.run late := start.run_append early _
  have hhistory : start.history actions = start.history early ++
      (start.run early).observe (.accept owner source compiled) ++ admitted.history late := by
    rw [history_append, history, List.append_assoc]
  have hs : Tracked (start.history actions) s := by
    rw [hhistory, hrun]
    exact hadmitted.run hlate
  refine ⟨?literal, ?graph, ?final⟩
  case literal =>
    rintro value rfl
    rw [hrun]
    exact hbefore.coherent.find?_run_of_literal hok haccept hlate
  case graph =>
    rintro graph rfl root statuses path
    have hfirst := GraphRecord.accept hbefore haccept hok
    obtain ⟨rest, hstatuses, hlength, hchain⟩ := hfirst.isChain_statuses hadmitted hlate
    obtain ⟨record, hrecord⟩ := hfirst.run hadmitted hlate
    rw [← hhistory, ← hrun] at hrecord
    refine ⟨?_, ?_, ?_, fun action => ⟨hrecord.done_iff hs, hrecord.exists_pull_of_invalid hs⟩,
      fun summary => hrecord.error_of_invalid hs⟩
    · rw [show statuses = .pending :: rest from hstatuses, List.length_cons, hlength]
      exact ⟨rfl, rfl⟩
    · rw [show path = rest.destutter' (· ≠ ·) .pending from congrArg (List.destutter _) hstatuses]
      exact ExpressionStatus.leads_of_isChain hchain
    · rw [hrecord.status?, Option.some.injEq, hrecord.pending, Started]
      simp only [not_exists, not_and]
  case final =>
    intro record hf hclosed more hmore
    exact hs.coherent.find?_run_of_closed hf hclosed hmore

/-- A sum is handed out and reported. Whatever follows, its record stays as it is then. -/
theorem lifecycle_of_sum :
    let start : Scheduler := {}
    let late : List Action := [.pull 0, .report 1 .three]
    let admitted := start.perform (.accept "a" "1+2" (.graph Formula.sumGraph))
    let s := start.run (.accept "a" "1+2" (.graph Formula.sumGraph) :: late)
    admitted.statuses "a" late = [.pending, .calculating, .done] ∧
      (admitted.statuses "a" late).head? = some .pending ∧
      ∀ more : List Action, (∀ action ∈ more, action.Admissible) →
        (s.run more).registry.find? "a" = some ⟨"1+2", some 1, .done .three⟩ := by
  intro start late admitted s
  have ha : ∀ action ∈ [] ++ .accept "a" "1+2" (.graph Formula.sumGraph) :: late, action.Admissible :=
    List.forall_mem_cons.mpr ⟨admissible_sum "a" "1+2", by simp [late, Action.Admissible]⟩
  have hok : ((start.run []).accept "a" "1+2" (.graph Formula.sumGraph)).1 = .ok () := rfl
  have hf : s.registry.find? "a" = some ⟨"1+2", some 1, .done .three⟩ := by decide +kernel
  obtain ⟨_, hgraph, hfinal⟩ := expression_lifecycle {} none ha hok
  exact ⟨by decide +kernel, (hgraph Formula.sumGraph rfl).1.2, hfinal _ hf rfl⟩

end Scheduler

end ArithDispatch
