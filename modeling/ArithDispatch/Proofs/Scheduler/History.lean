import ArithDispatch.Proofs.Scheduler.Run
import Mathlib.Data.List.Induction

/-! The history of a run: which graphs it accepted, which tasks it handed out and which reports it took.
Refused calls leave no trace in it. -/
namespace ArithDispatch.Scheduler

inductive Event where
  | accepted (owner : String) (graph : Formula.Graph)
  | handedOut (id : Nat)
  | taken (id : Nat) (value : Binary64)
  deriving DecidableEq, Repr

/-- What an action adds to the history, from the answer that its caller gets. -/
def observe (s : Scheduler) : Action → List Event
  | .accept owner source compiled =>
    match compiled, (s.accept owner source compiled).1 with
    | .graph graph, .ok () => [.accepted owner graph]
    | _, _ => []
  | .pull now =>
    match (s.pull now).1 with
    | .ok (some payload) => [.handedOut payload.id]
    | _ => []
  | .report id value =>
    match (s.report id value).1 with
    | .ok () => [.taken id value]
    | .error _ => []

def run (s : Scheduler) (actions : List Action) : Scheduler := actions.foldl perform s

def history (s : Scheduler) : List Action → List Event
  | [] => []
  | action :: rest => s.observe action ++ (s.perform action).history rest

theorem run_append (s : Scheduler) (first second : List Action) :
    s.run (first ++ second) = (s.run first).run second :=
  List.foldl_append

theorem history_append (s : Scheduler) (first second : List Action) :
    s.history (first ++ second) = s.history first ++ (s.run first).history second := by
  induction first generalizing s with
  | nil => rfl
  | cons action rest ih =>
    rw [List.cons_append, history, history, ih, List.append_assoc]
    rfl

section Observe
variable {s : Scheduler} {action : Action} {owner source : String} {graph : Formula.Graph} {id now : Nat}
  {value : Binary64} {payload : TaskPayload}

theorem observe_accept (h : (s.accept owner source (.graph graph)).1 = .ok ()) :
    s.observe (.accept owner source (.graph graph)) = [.accepted owner graph] := by
  simp only [observe, h]

theorem observe_pull (h : (s.pull now).1 = .ok (some payload)) :
    s.observe (.pull now) = [.handedOut payload.id] := by
  simp only [observe, h]

/-- A pull that hands nothing out is not in the history, whatever its caller is told. -/
theorem observe_of_fruitless {outcome : Outcome (Option TaskPayload)} {t : Scheduler}
    (hf : Fruitless now s outcome t) (he : s.pull now = (outcome, t)) : s.observe (.pull now) = [] := by
  cases hf <;> simp only [observe, he]

theorem observe_report (h : (s.report id value).1 = .ok ()) :
    s.observe (.report id value) = [.taken id value] := by
  simp only [observe, h]

theorem observe_cases (s : Scheduler) (action : Action) :
    s.observe action = [] ∨ ∃ event, s.observe action = [event] := by
  unfold observe
  split
  · split
    · exact .inr ⟨_, rfl⟩
    · exact .inl rfl
  · split
    · exact .inr ⟨_, rfl⟩
    · exact .inl rfl
  · split
    · exact .inr ⟨_, rfl⟩
    · exact .inl rfl

/-- A graph is in the history once it was accepted. -/
theorem accepted_mem_observe : .accepted owner graph ∈ s.observe action ↔
    ∃ source, action = .accept owner source (.graph graph) ∧
      (s.accept owner source (.graph graph)).1 = .ok () := by
  constructor
  · intro hm
    unfold observe at hm
    split at hm
    · split at hm
      · next hok =>
        cases List.mem_singleton.mp hm
        exact ⟨_, rfl, hok⟩
      · cases hm
    · split at hm
      · simp at hm
      · cases hm
    · split at hm
      · simp at hm
      · cases hm
  · rintro ⟨source, rfl, hok⟩
    rw [observe_accept hok]
    exact List.mem_singleton_self _

theorem handedOut_mem_observe : .handedOut id ∈ s.observe action ↔
    ∃ now payload, action = .pull now ∧ (s.pull now).1 = .ok (some payload) ∧ payload.id = id := by
  constructor
  · intro hm
    unfold observe at hm
    split at hm
    · split at hm
      · simp at hm
      · cases hm
    · next now =>
      split at hm
      · next payload hp =>
        cases List.mem_singleton.mp hm
        exact ⟨now, payload, rfl, hp, rfl⟩
      · cases hm
    · split at hm
      · simp at hm
      · cases hm
  · rintro ⟨now, payload, rfl, hp, rfl⟩
    rw [observe_pull hp]
    exact List.mem_singleton_self _

theorem taken_mem_observe : .taken id value ∈ s.observe action ↔
    action = .report id value ∧ (s.report id value).1 = .ok () := by
  constructor
  · intro hm
    unfold observe at hm
    split at hm
    · split at hm
      · simp at hm
      · cases hm
    · split at hm
      · simp at hm
      · cases hm
    · split at hm
      · next hok =>
        cases List.mem_singleton.mp hm
        exact ⟨rfl, hok⟩
      · cases hm
  · rintro ⟨rfl, hok⟩
    rw [observe_report hok]
    exact List.mem_singleton_self _

end Observe

theorem Coherent.run {s : Scheduler} {actions : List Action} (h : Coherent s)
    (ha : ∀ action ∈ actions, action.Admissible) : Coherent (s.run actions) := by
  induction actions generalizing s with
  | nil => exact h
  | cons action rest ih =>
    obtain ⟨hfirst, hrest⟩ := List.forall_mem_cons.mp ha
    exact ih (h.perform hfirst) hrest

/-- What holds to begin with, and is kept by every action, holds along a run. -/
theorem Coherent.run_induction {motive : List Event → Scheduler → Prop} {s : Scheduler}
    {actions : List Action} (hc : Coherent s) (ha : ∀ action ∈ actions, action.Admissible)
    (events : List Event) (start : motive events s)
    (step : ∀ {events s} {action : Action}, Coherent s → action.Admissible → motive events s →
      motive (events ++ s.observe action) (s.perform action)) :
    motive (events ++ s.history actions) (s.run actions) := by
  induction actions generalizing events s with
  | nil => exact (List.append_nil events).symm ▸ start
  | cons action rest ih =>
    obtain ⟨hfirst, hrest⟩ := List.forall_mem_cons.mp ha
    rw [history, ← List.append_assoc]
    exact ih (hc.perform hfirst) hrest _ (step hc hfirst start)

namespace Event

def tasks : Event → Nat
  | accepted _ graph => graph.size
  | handedOut _ | taken _ _ => 0

def takes (id : Nat) : Event → Bool
  | taken task _ => task == id
  | accepted _ _ | handedOut _ => false

/-- The task that the event is about. -/
def task? : Event → Option Nat
  | accepted _ _ => none
  | handedOut id | taken id _ => some id

end Event

/-- The first id that no accepted graph has received: graphs receive their ids in turn, from 1 on. -/
def firstFree (events : List Event) : Nat := events.foldl (fun free event => free + event.tasks) 1

/-- The nodes of the graph received the ids from `base` on. -/
def Assigned (events : List Event) (owner : String) (graph : Formula.Graph) (base : Nat) : Prop :=
  ∃ before after, events = before ++ .accepted owner graph :: after ∧ base = firstFree before

def BelongsTo (events : List Event) (id : Nat) (owner : String) : Prop :=
  ∃ graph base i, Assigned events owner graph base ∧ i < graph.size ∧ id = base + i

/-- Two tasks of an expression, the second one an operand of the first one. -/
def Consumes (events : List Event) (owner : String) (user id : Nat) : Prop :=
  ∃ graph base i j node, Assigned events owner graph base ∧ graph.nodes[j]? = some node ∧
    i ∈ node.references ∧ id = base + i ∧ user = base + j

def Taken (events : List Event) (id : Nat) : Prop := ∃ value, .taken id value ∈ events

variable {events : List Event} {event : Event} {owner other : String} {graph graph' : Formula.Graph}
  {base base' i j id : Nat}

theorem firstFree_concat (events : List Event) (event : Event) :
    firstFree (events ++ [event]) = firstFree events + event.tasks := by
  rw [firstFree, List.foldl_append]
  rfl

theorem assigned_concat : Assigned (events ++ [event]) owner graph base ↔
    Assigned events owner graph base ∨ (event = .accepted owner graph ∧ base = firstFree events) := by
  constructor
  · rintro ⟨before, after, he, rfl⟩
    rcases List.eq_nil_or_concat after with rfl | ⟨after, last, rfl⟩
    · obtain ⟨rfl, hl⟩ := List.append_inj' he rfl
      exact .inr ⟨List.head_eq_of_cons_eq hl, rfl⟩
    · rw [List.concat_eq_append, ← List.cons_append, ← List.append_assoc] at he
      exact .inl ⟨before, after, (List.append_inj' he rfl).1, rfl⟩
  · rintro (⟨before, after, rfl, rfl⟩ | ⟨rfl, rfl⟩)
    · exact ⟨before, after ++ [event], by simp, rfl⟩
    · exact ⟨events, [], rfl, rfl⟩

theorem not_assigned_nil : ¬ Assigned [] owner graph base := by
  rintro ⟨before, after, he, _⟩
  simp at he

theorem Assigned.le_firstFree (h : Assigned events owner graph base) :
    base + graph.size ≤ firstFree events := by
  induction events using List.reverseRecOn with
  | nil => exact absurd h not_assigned_nil
  | append_singleton events event ih =>
    rw [firstFree_concat]
    rcases assigned_concat.mp h with h | ⟨rfl, rfl⟩
    · exact Nat.le_add_right_of_le (ih h)
    · exact Nat.le_refl _

/-- No id is assigned twice. -/
theorem Assigned.unique (h : Assigned events owner graph base) (h' : Assigned events other graph' base')
    (hi : i < graph.size) (hj : j < graph'.size) (he : base + i = base' + j) :
    owner = other ∧ graph = graph' ∧ base = base' := by
  induction events using List.reverseRecOn with
  | nil => exact absurd h not_assigned_nil
  | append_singleton events event ih =>
    rcases assigned_concat.mp h with h | ⟨ha, rfl⟩ <;> rcases assigned_concat.mp h' with h' | ⟨ha', rfl⟩
    · exact ih h h'
    · have := h.le_firstFree
      omega
    · have := h'.le_firstFree
      omega
    · cases ha.symm.trans ha'
      exact ⟨rfl, rfl, rfl⟩

theorem Assigned.append (h : Assigned events owner graph base) (more : List Event) :
    Assigned (events ++ more) owner graph base := by
  obtain ⟨before, after, rfl, rfl⟩ := h
  exact ⟨before, after ++ more, by simp, rfl⟩

theorem BelongsTo.append (h : BelongsTo events id owner) (more : List Event) :
    BelongsTo (events ++ more) id owner := by
  obtain ⟨graph, base, i, ha, hi, hid⟩ := h
  exact ⟨graph, base, i, ha.append more, hi, hid⟩

/-- Ids are assigned by the acceptance of a graph. -/
theorem assigned_observe {s : Scheduler} {action : Action} :
    Assigned (events ++ s.observe action) owner graph base ↔ Assigned events owner graph base ∨
      (base = firstFree events ∧ ∃ source, action = .accept owner source (.graph graph) ∧
        (s.accept owner source (.graph graph)).1 = .ok ()) := by
  constructor
  · intro h
    rcases s.observe_cases action with he | ⟨event, he⟩
    · rw [he, List.append_nil] at h
      exact .inl h
    · rw [he] at h
      rcases assigned_concat.mp h with h | ⟨rfl, rfl⟩
      · exact .inl h
      · exact .inr ⟨rfl, accepted_mem_observe.mp (he ▸ List.mem_singleton_self _)⟩
  · rintro (h | ⟨rfl, source, rfl, hok⟩)
    · exact h.append _
    · rw [observe_accept hok]
      exact assigned_concat.mpr (.inr ⟨rfl, rfl⟩)

/-- What happens to a task assigns no ids. -/
theorem assigned_concat_of_task (he : event.task? = some id) :
    Assigned (events ++ [event]) owner graph base ↔ Assigned events owner graph base := by
  rw [assigned_concat, or_iff_left]
  rintro ⟨rfl, _⟩
  cases he

theorem Taken.append (h : Taken events id) (more : List Event) : Taken (events ++ more) id := by
  obtain ⟨value, hm⟩ := h
  exact ⟨value, List.mem_append_left _ hm⟩

section Frame
variable (he : event.task? ≠ some id)
include he

theorem handedOut_mem_concat : .handedOut id ∈ events ++ [event] ↔ .handedOut id ∈ events := by
  rw [List.mem_append, List.mem_singleton, or_iff_left]
  rintro rfl
  exact he rfl

theorem taken_mem_concat {value : Binary64} :
    .taken id value ∈ events ++ [event] ↔ .taken id value ∈ events := by
  rw [List.mem_append, List.mem_singleton, or_iff_left]
  rintro rfl
  exact he rfl

theorem taken_concat : Taken (events ++ [event]) id ↔ Taken events id :=
  exists_congr fun _ => taken_mem_concat he

theorem count_handedOut_concat :
    (events ++ [event]).count (.handedOut id) = events.count (.handedOut id) := by
  rw [List.count_append, List.count_singleton, if_neg, Nat.add_zero]
  rw [beq_iff_eq]
  rintro rfl
  exact he rfl

theorem countP_takes_concat :
    (events ++ [event]).countP (Event.takes id) = events.countP (Event.takes id) := by
  have hf : Event.takes id event = false := by
    cases event with
    | taken task value => simpa [Event.takes, Event.task?] using he
    | accepted => rfl
    | handedOut => rfl
  rw [List.countP_append, List.countP_singleton, hf]
  rfl

end Frame

theorem countP_takes_eq_zero (h : ¬ Taken events id) : events.countP (Event.takes id) = 0 := by
  rw [List.countP_eq_zero]
  intro event hm ht
  cases event with
  | taken task value =>
    obtain rfl : task = id := by simpa [Event.takes] using ht
    exact h ⟨value, hm⟩
  | accepted => cases ht
  | handedOut => cases ht

end ArithDispatch.Scheduler
