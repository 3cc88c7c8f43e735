import ArithDispatch.Proofs.Scheduler.Effects
import ArithDispatch.Proofs.Scheduler.Recorded

/-! Where numbers come from. The operands of a task are overwritten by numbers and the tasks that they came
from are freed, but the history still tells what was reported for them. -/
namespace ArithDispatch.Scheduler

/-- The value of an operand of a node: the number written there, or what was reported for the node that it
refers to. -/
def Supplied (events : List Event) (base : Nat) : Operand → Binary64 → Prop
  | .literal written, value => value = written
  | .reference i, value => .taken (base + i) value ∈ events

/-- What a live task has as an operand of its node: the same operand, or its value. -/
def Fills (events : List Event) (base : Nat) (slot operand : Operand) : Prop :=
  operand = slot.shift base ∨ ∃ value, operand = .literal value ∧ Supplied events base slot value

/-- The task does the operation of the node. -/
structure Carries (events : List Event) (durations : OperationDurations) (base : Nat)
    (node : Formula.Node) (task : Task) : Prop where
  operator : task.operator = node.operator
  duration : task.duration = durations.forOperator node.operator
  left : Fills events base node.left task.left
  right : Fills events base node.right task.right

structure Sourced (events : List Event) (s : Scheduler) : Prop where
  carries : ∀ id task, s.table.get? id = some task → ∃ graph base i node,
    Assigned events task.owner graph base ∧ graph.nodes[i]? = some node ∧ id = base + i ∧
      Carries events s.durations base node task
  /-- The result of an expression is what was reported for its root. -/
  rooted : ∀ owner graph base, Assigned events owner graph base →
    ∃ record, s.registry.find? owner = some record ∧ record.rootTask = some (base + graph.root) ∧
      ∀ value, record.stage = .done value → .taken (base + graph.root) value ∈ events

variable {events more : List Event} {s : Scheduler} {task : Task} {action : Action} {base id now : Nat}
  {slot operand : Operand} {value other : Binary64} {node : Formula.Node} {payload : TaskPayload}
  {durations : OperationDurations} {owner : String} {graph : Formula.Graph}

theorem Supplied.append (h : Supplied events base slot value) (more : List Event) :
    Supplied (events ++ more) base slot value := by
  cases slot with
  | literal written => exact h
  | reference i => exact List.mem_append_left _ h

theorem Fills.append (h : Fills events base slot operand) (more : List Event) :
    Fills (events ++ more) base slot operand := by
  rcases h with h | ⟨value, ho, hv⟩
  · exact .inl h
  · exact .inr ⟨value, ho, hv.append more⟩

theorem Carries.append (h : Carries events durations base node task) (more : List Event) :
    Carries (events ++ more) durations base node task :=
  { h with left := h.left.append more, right := h.right.append more }

/-- What a task reads from a live task was reported for that one. -/
theorem Fills.supplied (h : Fills events base slot operand) (hr : Recorded events s)
    (hv : s.table.readiness operand = .ready value) : Supplied events base slot value := by
  rcases h with rfl | ⟨known, rfl, hk⟩
  · cases slot with
    | literal written =>
      cases hv
      rfl
    | reference i =>
      obtain ⟨dep, hg, hd, rfl⟩ := TaskTable.readiness_reference_ready hv
      exact ((hr.live _ dep hg).result _).mpr ⟨hd, rfl⟩
  · cases hv
    exact hk

namespace Sourced

theorem fresh (durations : OperationDurations) (lease : Option Duration) :
    Sourced [] { durations, lease } where
  carries id task hg := by cases hg
  rooted owner graph base ha := absurd ha not_assigned_nil

theorem carries_perform (h : Sourced events s) (hr : Recorded events s) (hc : Coherent s)
    (hg : (s.perform action).table.get? id = some task) : ∃ graph base i node,
      Assigned (events ++ s.observe action) task.owner graph base ∧ graph.nodes[i]? = some node ∧
        id = base + i ∧ Carries (events ++ s.observe action) s.durations base node task := by
  cases hc.becomes hg with
  | untouched hg =>
    obtain ⟨graph, base, i, node, ha, hn, hid, hcarries⟩ := h.carries id task hg
    exact ⟨graph, base, i, node, ha.append _, hn, hid, hcarries.append _⟩
  | @created owner source graph i node hok hn =>
    refine ⟨graph, s.table.nextId, i, node, ?_, hn, rfl, rfl, rfl, .inl rfl, .inl rfl⟩
    exact assigned_observe.mpr (.inr ⟨hr.next, source, rfl, hok⟩)
  | @handedOut now payload old hp ho =>
    obtain ⟨graph, base, i, node, ha, hn, hid, hcarries⟩ := h.carries _ old ho.live
    refine ⟨graph, base, i, node, ha.append _, hn, hid, hcarries.operator, hcarries.duration, ?_, ?_⟩
    · exact .inr ⟨payload.left, rfl, (hcarries.left.supplied hr ho.left).append _⟩
    · exact .inr ⟨payload.right, rfl, (hcarries.right.supplied hr ho.right).append _⟩
  | @completed id value old ht =>
    obtain ⟨graph, base, i, node, ha, hn, hid, hcarries⟩ := h.carries id old ht.live
    have hsame := hcarries.append (s.observe (.report id value))
    exact ⟨graph, base, i, node, ha.append _, hn, hid, hsame.operator, hsame.duration, hsame.left, hsame.right⟩

theorem rooted_perform (h : Sourced events s) (hr : Recorded events s) (hc : Coherent s)
    (ha : Assigned (events ++ s.observe action) owner graph base) :
    ∃ record, (s.perform action).registry.find? owner = some record ∧
      record.rootTask = some (base + graph.root) ∧ ∀ value, record.stage = .done value →
        .taken (base + graph.root) value ∈ events ++ s.observe action := by
  rcases assigned_observe.mp ha with ha | ⟨rfl, source, rfl, hok⟩
  · obtain ⟨record, hf, hroot, hdone⟩ := h.rooted owner graph base ha
    obtain ⟨after, hafter, hturn⟩ := hc.turns hf action
    cases hturn with
    | same action => exact ⟨record, hafter, hroot, fun value hs => List.mem_append_left _ (hdone value hs)⟩
    | begun => exact ⟨_, hafter, hroot, by simp⟩
    | spoilt => exact ⟨_, hafter, hroot, by simp⟩
    | @finished id value task ht _ ho =>
      have hid : some id = some (base + graph.root) := by
        rw [← hroot, ← Registry.rootTask?_of_openRoot? ho, Registry.rootTask?, hf, Option.bind_some]
      obtain rfl := Option.some.inj hid
      refine ⟨_, hafter, hroot, fun other hs => List.mem_append_right _ ?_⟩
      cases hs
      exact taken_mem_observe.mpr ⟨rfl, ht.reported⟩
  · obtain ⟨t, he, _, hf⟩ := accept_graph hok
    refine ⟨.pending source (s.table.nextId + graph.root), ?_, ?_, by simp [ExpressionRecord.pending]⟩
    · rw [perform, he, hf, if_pos rfl]
    · rw [← hr.next]
      rfl

theorem perform (h : Sourced events s) (hr : Recorded events s) (hc : Coherent s) (action : Action) :
    Sourced (events ++ s.observe action) (s.perform action) where
  carries id task hg := by
    rw [(Extends.perform hc action).durations]
    exact h.carries_perform hr hc hg
  rooted owner graph base ha := h.rooted_perform hr hc ha

theorem run (h : Sourced events s) (hr : Recorded events s) (hc : Coherent s) {actions : List Action}
    (ha : ∀ action ∈ actions, action.Admissible) :
    Sourced (events ++ s.history actions) (s.run actions) := by
  have both := hc.run_induction (motive := fun events s => Recorded events s ∧ Sourced events s) ha events
    ⟨hr, h⟩ fun hc _ ⟨hr, h⟩ => ⟨hr.perform hc _, h.perform hr hc _⟩
  exact both.2

/-- What a pull hands out is the operation of its node on the values of the operands. -/
theorem of_pull (h : Sourced events s) (hr : Recorded events s) (hc : Coherent s)
    (hp : (s.pull now).1 = .ok (some payload)) {i : Nat} (ha : Assigned events owner graph base)
    (hn : graph.nodes[i]? = some node) (hid : payload.id = base + i) :
    payload.operator = node.operator ∧ payload.duration = s.durations.forOperator node.operator ∧
      Supplied events base node.left payload.left ∧ Supplied events base node.right payload.right := by
  obtain ⟨task, ho⟩ := hc.offers hp
  obtain ⟨graph', base', k, node', ha', hn', hid', hcarries⟩ := h.carries _ task ho.live
  obtain ⟨_, rfl, rfl⟩ := ha.unique ha' (List.getElem?_eq_some_iff.mp hn).1
    (List.getElem?_eq_some_iff.mp hn').1 (hid.symm.trans hid')
  obtain rfl : i = k := Nat.add_left_cancel (hid.symm.trans hid')
  cases hn.symm.trans hn'
  exact ⟨ho.operator.trans hcarries.operator, ho.duration.trans hcarries.duration,
    hcarries.left.supplied hr ho.left, hcarries.right.supplied hr ho.right⟩

end Sourced

namespace Recorded

theorem belongsTo_of_pull (h : Recorded events s) (hc : Coherent s) (hp : (s.pull now).1 = .ok (some payload)) :
    ∃ owner, BelongsTo events payload.id owner := by
  obtain ⟨task, ho⟩ := hc.offers hp
  exact ⟨task.owner, (h.live _ task ho.live).belongsTo⟩

/-- At most one value was ever taken for a task. -/
theorem taken_unique (h : Recorded events s) (hv : .taken id value ∈ events)
    (hw : .taken id other ∈ events) : value = other := by
  obtain ⟨before, after, rfl⟩ := List.append_of_mem hv
  have honce := h.once id
  rw [List.countP_append, List.countP_cons_of_pos (by simp [Event.takes])] at honce
  have hnone : (before ++ after).countP (Event.takes id) = 0 := by
    rw [List.countP_append]
    omega
  by_contra hne
  refine List.countP_eq_zero.mp hnone (.taken id other) ?_ (by simp [Event.takes])
  simpa [Ne.symm hne] using hw

end Recorded

/-- The values that workers receive come from the formula or from earlier reports, bit for bit and whatever was
reported. A pull hands out a node of an accepted graph with the operator and the duration of this node; each
operand is the number written there or the one value that was taken for the node it refers to. It never hands
out a division by a zero. The result of a finished expression is the value taken for its root. -/
theorem operands_from_formula_or_reports (durations : OperationDurations) (lease : Option Duration)
    {actions : List Action} (ha : ∀ action ∈ actions, action.Admissible) :
    let start : Scheduler := { durations, lease }
    let s := start.run actions
    let events := start.history actions
    (∀ now payload, (s.pull now).1 = .ok (some payload) →
      (∃ owner, BelongsTo events payload.id owner) ∧
      (∀ owner graph base i node, Assigned events owner graph base → graph.nodes[i]? = some node →
        payload.id = base + i → payload.operator = node.operator ∧
          payload.duration = durations.forOperator node.operator ∧
          Supplied events base node.left payload.left ∧ Supplied events base node.right payload.right) ∧
      ¬ (payload.operator = .div ∧ payload.right.isZero = true)) ∧
    (∀ id value other, .taken id value ∈ events → .taken id other ∈ events → value = other) ∧
    ∀ owner graph base summary, Assigned events owner graph base →
      s.registry.summary? owner = some summary → summary.status = .done →
        ∃ value, summary.result = some value ∧ .taken (base + graph.root) value ∈ events := by
  intro start s events
  have hfresh : Coherent start := .fresh durations lease
  have hc : Coherent s := hfresh.run ha
  have hr : Recorded events s := (Recorded.fresh durations lease).run hfresh ha
  have h : Sourced events s := (Sourced.fresh durations lease).run (.fresh durations lease) hfresh ha
  have hdurations : s.durations = durations := (Extends.run hfresh ha).durations
  refine ⟨fun now payload hp => ⟨hr.belongsTo_of_pull hc hp, ?_, ?_⟩,
    fun id value other => hr.taken_unique, ?_⟩
  · intro owner graph base i node hassigned hn hid
    exact hdurations ▸ h.of_pull hr hc hp hassigned hn hid
  · obtain ⟨task, ho⟩ := hc.offers hp
    rw [ho.operator]
    exact ho.divisible
  · intro owner graph base summary hassigned hsummary hdone
    obtain ⟨record, hf, _, hresult⟩ := h.rooted owner graph base hassigned
    rw [Registry.summary?, hf] at hsummary
    cases hsummary
    obtain ⟨value, hstage⟩ := Stage.exists_done hdone
    refine ⟨value, ?_, hresult value hstage⟩
    simp only [ExpressionRecord.summary, hstage, Stage.result?]

/-- What is reported for the difference is no number. The division receives it bit for bit, and a sum alone
has it as its result. -/
theorem operands_of_quotient_by_nan :
    let nan : Binary64 := ⟨0x7FF8000000000001⟩
    let quotient : Formula.Graph :=
      ⟨[⟨.literal .two, .sub, .literal .two⟩, ⟨.literal .one, .div, .reference 0⟩]⟩
    let start : Scheduler := {}
    let actions : List Action := [.accept "a" "1/(2-2)" (.graph quotient), .pull 0, .report 1 nan]
    let sum : List Action := [.accept "b" "1+2" (.graph Formula.sumGraph), .pull 0, .report 1 nan]
    (∃ payload, ((start.run actions).pull 0).1 = .ok (some payload) ∧
      Supplied (start.history actions) 1 (.reference 0) payload.right ∧
      ¬ (payload.operator = .div ∧ payload.right.isZero = true)) ∧
    (start.run sum).registry.summary? "b" = some ⟨"b", "1+2", .done, some nan, none⟩ ∧
      .taken 1 nan ∈ start.history sum := by
  intro nan quotient start actions sum
  have ha : ∀ action ∈ actions, action.Admissible := by
    have hc : Formula.compile "1/(2-2)" = .ok (.graph quotient) := by decide +kernel
    exact List.forall_mem_cons.mpr
      ⟨Formula.exists_assemble_of_compile hc, by simp [Action.Admissible]⟩
  have hsum : ∀ action ∈ sum, action.Admissible :=
    List.forall_mem_cons.mpr ⟨admissible_sum "b" "1+2", by simp [Action.Admissible]⟩
  constructor
  · have hp : ((start.run actions).pull 0).1 =
        .ok (some ⟨2, .one, nan, .div, ({} : OperationDurations).forOperator .div⟩) := by decide +kernel
    have hassigned : Assigned (start.history actions) "a" quotient 1 :=
      ⟨[], [.handedOut 1, .taken 1 nan], by decide +kernel, rfl⟩
    obtain ⟨_, hnode, hdivisible⟩ := (operands_from_formula_or_reports {} none ha).1 0 _ hp
    obtain ⟨_, _, _, hright⟩ := hnode "a" quotient 1 1 _ hassigned rfl rfl
    exact ⟨_, hp, hright, hdivisible⟩
  · have hs : (start.run sum).registry.summary? "b" =
        some ⟨"b", "1+2", .done, some nan, none⟩ := by decide +kernel
    have hassigned : Assigned (start.history sum) "b" Formula.sumGraph 1 :=
      ⟨[], [.handedOut 1, .taken 1 nan], by decide +kernel, rfl⟩
    obtain ⟨value, hv, hm⟩ :=
      (operands_from_formula_or_reports {} none hsum).2.2 "b" _ 1 _ hassigned hs rfl
    cases hv
    exact ⟨hs, hm⟩

end ArithDispatch.Scheduler
