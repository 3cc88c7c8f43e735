import ArithDispatch.Proofs.Orchestrator.Submission
import ArithDispatch.Proofs.Scheduler.Balance

/-! Submissions that overlap. Each checks first and is admitted later, and between the two anything may
happen; the admission alone decides which of several submissions with one id is registered, and it gives
out the ids of tasks in turn. -/
namespace ArithDispatch

namespace Scheduler
variable {s : Scheduler} {events : List Event}

theorem firstFree_pull (events : List Event) (s : Scheduler) (now : Nat) :
    firstFree (events ++ s.observe (.pull now)) = firstFree events := by
  simp only [observe]
  split
  · exact firstFree_concat ..
  · rw [List.append_nil]

theorem firstFree_report (events : List Event) (s : Scheduler) (id : Nat) (value : Binary64) :
    firstFree (events ++ s.observe (.report id value)) = firstFree events := by
  simp only [observe]
  split
  · exact firstFree_concat ..
  · rw [List.append_nil]

/-- What the history of a run tells about its state. -/
structure Told (events : List Event) (s : Scheduler) : Prop where
  coherent : Coherent s
  recorded : Recorded events s
  balanced : ∃ answers totals, Balanced events answers totals s

theorem Told.fresh (durations : OperationDurations) (lease : Option Duration) :
    Told [] { durations, lease } :=
  ⟨.fresh .., .fresh .., _, _, .fresh ..⟩

theorem Told.perform (h : Told events s) {action : Action} (ha : action.Admissible) :
    Told (events ++ s.observe action) (s.perform action) where
  coherent := h.coherent.perform ha
  recorded := h.recorded.perform h.coherent action
  balanced := by
    obtain ⟨answers, totals, hb⟩ := h.balanced
    exact ⟨_, hb.perform h.coherent h.recorded action⟩

end Scheduler

/-- A submission that has passed its checks and asks to be admitted. -/
structure Candidate where
  id : String
  text : String
  compiled : Formula.Compiled
  deriving DecidableEq

namespace Candidate

/-- The operations to be done; a plain number has none. -/
def nodes (candidate : Candidate) : List Formula.Node :=
  match candidate.compiled with
  | .literal _ => []
  | .graph graph => graph.nodes

def size (candidate : Candidate) : Nat := candidate.nodes.length

/-- The record of the candidate when its first node becomes task `base`. -/
def record (candidate : Candidate) (base : Nat) : ExpressionRecord :=
  match candidate.compiled with
  | .literal value => ⟨candidate.text, none, .done value⟩
  | .graph _ => ⟨candidate.text, some (base + candidate.size - 1), .pending⟩

theorem source_record (candidate : Candidate) (base : Nat) :
    (candidate.record base).source = candidate.text := by
  unfold record
  split <;> rfl

end Candidate

/-- The number of operations of all candidates together. -/
def totalSize : List Candidate → Nat
  | [] => 0
  | candidate :: rest => candidate.size + totalSize rest

/-- The id of the next task after the given candidates were admitted. -/
def firstId (admitted : List Candidate) : Nat := 1 + totalSize admitted

theorem totalSize_append (first second : List Candidate) :
    totalSize (first ++ second) = totalSize first + totalSize second := by
  induction first with
  | nil => exact (Nat.zero_add _).symm
  | cons candidate rest ih => rw [List.cons_append, totalSize, totalSize, ih, Nat.add_assoc]

namespace Orchestrator
open Scheduler (Coherent Event Assigned Told firstFree)

variable {σ : Type} [IdGenerator σ]

/-- The first step of a submission. The id is free when it is looked at, but it is not taken yet. -/
def check (o : Orchestrator σ) (given : Option String) (text : String) :
    Except Failure Candidate × Orchestrator σ :=
  if Text.isBlank text then (.error .emptyExpression, o)
  else
    let (id, o) := o.chooseId given
    if o.scheduler.registry.contains id then (.error (.duplicateId id), o)
    else match Formula.compile text with
      | .error fault => (.error fault.failure, o)
      | .ok compiled => (.ok ⟨id, text, compiled⟩, o)

/-- The second step of a submission. -/
def accept (o : Orchestrator σ) (candidate : Candidate) : Except Failure String × Orchestrator σ :=
  let (outcome, scheduler) := o.scheduler.accept candidate.id candidate.text candidate.compiled
  (outcome.map fun _ => candidate.id, { o with scheduler })

/-- A submission is its two steps with nothing between them. -/
theorem submit_eq_accept (o : Orchestrator σ) (given : Option String) (text : String) :
    o.submit given text = match o.check given text with
      | (.error failure, o) => (.error failure, o)
      | (.ok candidate, o) => o.accept candidate := by
  unfold submit check
  split
  · rfl
  · dsimp only
    split
    · rfl
    · cases Formula.compile text <;> rfl

/-- What any number of submissions can come to when their steps are taken in any order, with pulls and reports
between them: the candidates that wait to be admitted, those that were admitted, in turn, and the state. -/
inductive Interleaving : List Candidate → List Candidate → Orchestrator σ → Prop
  | create (config : Config) (ids : σ) : Interleaving [] [] (create config ids)
  | check {waiting admitted : List Candidate} {o : Orchestrator σ} (given : Option String) (text : String) :
      Interleaving waiting admitted o →
      Interleaving (waiting ++ (o.check given text).1.toOption.toList) admitted (o.check given text).2
  | won {waiting admitted : List Candidate} {o : Orchestrator σ} {candidate : Candidate} {id : String} :
      Interleaving waiting admitted o → candidate ∈ waiting → (o.accept candidate).1 = .ok id →
      Interleaving (waiting.erase candidate) (admitted ++ [candidate]) (o.accept candidate).2
  | lost {waiting admitted : List Candidate} {o : Orchestrator σ} {candidate : Candidate} {failure : Failure} :
      Interleaving waiting admitted o → candidate ∈ waiting → (o.accept candidate).1 = .error failure →
      Interleaving (waiting.erase candidate) admitted (o.accept candidate).2
  | pull {waiting admitted : List Candidate} {o : Orchestrator σ} (now : Nat) :
      Interleaving waiting admitted o → Interleaving waiting admitted (o.pull now).2
  | report {waiting admitted : List Candidate} {o : Orchestrator σ} (id : Nat) (value : Binary64) :
      Interleaving waiting admitted o → Interleaving waiting admitted (o.report id value).2

variable {o : Orchestrator σ} {waiting admitted : List Candidate} {candidate : Candidate} {events : List Event}
  {given : Option String} {text : String} {s : Scheduler} {base : Nat} {owner : String}
  {graph : Formula.Graph}

theorem scheduler_check (o : Orchestrator σ) (given : Option String) (text : String) :
    (o.check given text).2.scheduler = o.scheduler := by
  obtain ⟨t, ht, hchoose⟩ := o.chooseId_eq given
  simp only [check, hchoose]
  split
  · rfl
  · split
    · exact ht.scheduler
    · split <;> exact ht.scheduler

theorem compiled_of_check (h : (o.check given text).1 = .ok candidate) :
    Formula.compile candidate.text = .ok candidate.compiled := by
  unfold check at h
  split at h
  · cases h
  · dsimp only at h
    split at h
    · cases h
    · split at h
      · cases h
      · cases h
        assumption

/-- The graph of the owner received the ids from `base` on when its turn came. -/
def Numbered (admitted : List Candidate) (owner : String) (graph : Formula.Graph) (base : Nat) : Prop :=
  ∃ k text, admitted[k]? = some ⟨owner, text, .graph graph⟩ ∧ base = firstId (admitted.take k)

theorem firstId_concat (admitted : List Candidate) (candidate : Candidate) :
    firstId (admitted ++ [candidate]) = firstId admitted + candidate.size := by
  rw [firstId, totalSize_append, ← Nat.add_assoc]
  rfl

theorem getElem?_concat_cases {k : Nat} {other : Candidate}
    (h : (admitted ++ [candidate])[k]? = some other) :
    (admitted[k]? = some other ∧ (admitted ++ [candidate]).take k = admitted.take k) ∨
    (other = candidate ∧ (admitted ++ [candidate]).take k = admitted) := by
  rcases Nat.lt_or_ge k admitted.length with hlt | hge
  · rw [List.getElem?_append_left hlt] at h
    exact .inl ⟨h, List.take_append_of_le_length (Nat.le_of_lt hlt)⟩
  · rw [List.getElem?_append_right hge, List.getElem?_singleton] at h
    split at h
    · next hk =>
      obtain rfl : k = admitted.length := by omega
      exact .inr ⟨(Option.some.inj h).symm, List.take_left⟩
    · cases h

theorem numbered_concat : Numbered (admitted ++ [candidate]) owner graph base ↔
    Numbered admitted owner graph base ∨
      (candidate.id = owner ∧ candidate.compiled = .graph graph ∧ base = firstId admitted) := by
  constructor
  · rintro ⟨k, text, hk, rfl⟩
    rcases getElem?_concat_cases hk with ⟨hk, htake⟩ | ⟨he, htake⟩
    · exact .inl ⟨k, text, hk, by rw [htake]⟩
    · exact .inr ⟨he ▸ rfl, he ▸ rfl, by rw [htake]⟩
  · rintro (⟨k, text, hk, rfl⟩ | ⟨rfl, hg, rfl⟩)
    · have hlt := (List.getElem?_eq_some_iff.mp hk).1
      refine ⟨k, text, ?_, ?_⟩
      · rw [List.getElem?_append_left hlt, hk]
      · rw [List.take_append_of_le_length (Nat.le_of_lt hlt)]
    · refine ⟨admitted.length, candidate.text, ?_, ?_⟩
      · rw [List.getElem?_concat_length, ← hg]
      · rw [List.take_left]

/-- The candidate is registered and its nodes have become the tasks from `base` on, in order and with their
references shifted by `base`. Nothing else has changed among the tasks and the records. -/
structure Places (s : Scheduler) (candidate : Candidate) (base : Nat) (t : Scheduler) : Prop where
  tasks : ∀ id, t.table.get? id =
    if id < base then s.table.get? id
    else candidate.nodes[id - base]?.map fun node => {
      id
      left := node.left.shift base
      operator := node.operator
      right := node.right.shift base
      duration := s.durations.forOperator node.operator
      owner := candidate.id }
  next : t.table.nextId = base + candidate.size
  records : ∀ id, t.registry.find? id =
    if id = candidate.id then some (candidate.record base) else s.registry.find? id

theorem places_accept (hc : Coherent s)
    (hok : (s.accept candidate.id candidate.text candidate.compiled).1 = .ok ())
    (hcompile : Formula.compile candidate.text = .ok candidate.compiled) :
    Places s candidate s.table.nextId (s.accept candidate.id candidate.text candidate.compiled).2 := by
  obtain ⟨id, text, compiled⟩ := candidate
  cases compiled with
  | literal value =>
    obtain ⟨t, he, ht, hf⟩ := Scheduler.accept_literal hok
    rw [he]
    refine ⟨fun other => ?_, by simp [ht, Candidate.size, Candidate.nodes], hf⟩
    rw [ht]
    split
    · rfl
    · next hge =>
      cases hg : s.table.get? other with
      | none => rfl
      | some task => exact absurd (hc.bounded other task hg) hge
  | graph graph =>
    obtain ⟨t, he, ht, hf⟩ := Scheduler.accept_graph hok
    have hroot : s.table.nextId + graph.root = s.table.nextId + graph.size - 1 := by
      have := (Formula.isTree_of_compile hcompile).root_lt
      simp only [Formula.Graph.root, Formula.Graph.size] at this ⊢
      omega
    rw [he]
    refine ⟨fun other => ?_, by rw [ht]; rfl, ?_⟩
    · rw [ht]
      split
      · next hlt => exact TaskTable.get?_commit_of_lt hlt
      · next hge =>
        obtain ⟨i, rfl⟩ := Nat.exists_eq_add_of_le (Nat.le_of_not_lt hge)
        rw [TaskTable.get?_commit_add hc.bounded, Nat.add_sub_cancel_left]
        rfl
    · rw [hroot] at hf
      exact hf

/-- What is known after the given admissions, whatever happened between them. -/
structure Accounts (admitted : List Candidate) (events : List Event) (s : Scheduler) : Prop where
  told : Told events s
  distinct : (admitted.map Candidate.id).Nodup
  registered : ∀ id, s.registry.contains id = true ↔ id ∈ admitted.map Candidate.id
  records : ∀ (k : Nat) candidate, admitted[k]? = some candidate →
    ∃ record, s.registry.find? candidate.id = some record ∧ record.source = candidate.text ∧
      record.rootTask = (candidate.record (firstId (admitted.take k))).rootTask
  free : firstFree events = firstId admitted
  assigned : ∀ owner graph base, Assigned events owner graph base ↔ Numbered admitted owner graph base

namespace Accounts

theorem create (config : Config) : Accounts [] [] (.ofConfig config) where
  told := .fresh ..
  distinct := .nil
  registered id := by simp [Registry.contains, Scheduler.ofConfig]
  records k candidate hk := by simp at hk
  free := rfl
  assigned owner graph base := by
    refine ⟨fun h => absurd h Scheduler.not_assigned_nil, ?_⟩
    rintro ⟨k, text, hk, _⟩
    simp at hk

/-- An action that registers nothing. -/
theorem perform (h : Accounts admitted events s) (action : Scheduler.Action) (ha : action.Admissible)
    (hids : ∀ owner source graph, action ≠ .accept owner source (.graph graph))
    (hkept : ∀ id, (s.perform action).registry.contains id = s.registry.contains id)
    (hfree : firstFree (events ++ s.observe action) = firstFree events) :
    Accounts admitted (events ++ s.observe action) (s.perform action) where
  told := h.told.perform ha
  distinct := h.distinct
  registered id := by rw [hkept, h.registered]
  records k candidate hk := by
    obtain ⟨record, hf, hsource, hroot⟩ := h.records k candidate hk
    obtain ⟨after, hafter, hturn⟩ := h.told.coherent.turns hf action
    exact ⟨after, hafter, hturn.keeps.1.trans hsource, hturn.keeps.2.trans hroot⟩
  free := hfree.trans h.free
  assigned owner graph base := by
    rw [← h.assigned, Scheduler.assigned_observe, or_iff_left]
    rintro ⟨_, source, rfl, _⟩
    exact hids owner source graph rfl

theorem pull (h : Accounts admitted events s) (now : Nat) :
    Accounts admitted (events ++ s.observe (.pull now)) (s.pull now).2 :=
  h.perform (.pull now) trivial (by simp) (h.told.coherent.contains_pull now)
    (Scheduler.firstFree_pull ..)

theorem report (h : Accounts admitted events s) (id : Nat) (value : Binary64) :
    Accounts admitted (events ++ s.observe (.report id value)) (s.report id value).2 :=
  h.perform (.report id value) trivial (by simp) (h.told.coherent.contains_report id value)
    (Scheduler.firstFree_report ..)

theorem not_contains (h : Accounts admitted events s) (hnew : candidate.id ∉ admitted.map Candidate.id) :
    ¬ s.registry.contains candidate.id = true :=
  fun ht => hnew ((h.registered _).mp ht)

theorem next (h : Accounts admitted events s) : s.table.nextId = firstId admitted :=
  h.told.recorded.next.trans h.free

theorem places (h : Accounts admitted events s)
    (hcompile : Formula.compile candidate.text = .ok candidate.compiled)
    (hok : (s.accept candidate.id candidate.text candidate.compiled).1 = .ok ()) :
    Places s candidate (firstId admitted) (s.accept candidate.id candidate.text candidate.compiled).2 :=
  h.next ▸ places_accept h.told.coherent hok hcompile

theorem accept (h : Accounts admitted events s)
    (hcompile : Formula.compile candidate.text = .ok candidate.compiled)
    (hok : (s.accept candidate.id candidate.text candidate.compiled).1 = .ok ()) :
    ∃ events, Accounts (admitted ++ [candidate]) events
      (s.accept candidate.id candidate.text candidate.compiled).2 := by
  let action : Scheduler.Action := .accept candidate.id candidate.text candidate.compiled
  have hplaces := h.places hcompile hok
  have hnew : candidate.id ∉ admitted.map Candidate.id := fun hm =>
    Scheduler.not_contains_of_accept hok ((h.registered _).mpr hm)
  refine ⟨events ++ s.observe action, h.told.perform (Formula.exists_assemble_of_compile hcompile),
    ?distinct, ?registered, ?records, ?free, ?assigned⟩
  case distinct =>
    rw [List.map_append, List.map_singleton]
    exact List.nodup_append.mpr ⟨h.distinct, List.nodup_singleton _, by grind⟩
  case registered =>
    intro id
    rw [Registry.contains_insert hplaces.records, h.registered, List.map_append, List.mem_append, or_comm]
    simp
  case records =>
    intro k other hk
    rcases getElem?_concat_cases hk with ⟨hk, htake⟩ | ⟨rfl, htake⟩
    · obtain ⟨record, hf, hrest⟩ := h.records k other hk
      rw [htake]
      exact ⟨record, Coherent.find?_accept_of_some hf .., hrest⟩
    · rw [htake]
      exact ⟨_, (hplaces.records _).trans (if_pos rfl), other.source_record _, rfl⟩
  case free =>
    rw [firstId_concat, ← h.free]
    cases hc : candidate.compiled with
    | literal value => simp [action, hc, Scheduler.observe, Candidate.size, Candidate.nodes]
    | graph graph =>
      simp only [action, hc, Scheduler.observe_accept (hc ▸ hok), Scheduler.firstFree_concat]
      simp [Candidate.size, Candidate.nodes, hc, Event.tasks, Formula.Graph.size]
  case assigned =>
    intro owner graph base
    rw [Scheduler.assigned_observe, numbered_concat, h.assigned, h.free]
    refine or_congr_right ⟨?_, ?_⟩
    · rintro ⟨rfl, source, he, _⟩
      obtain ⟨hid, _, hc⟩ := Scheduler.Action.accept.inj he
      exact ⟨hid, hc, rfl⟩
    · rintro ⟨rfl, hc, rfl⟩
      exact ⟨rfl, candidate.text, by simp only [action, hc], hc ▸ hok⟩

end Accounts

omit [IdGenerator σ] in
theorem accept_barred (h : o.scheduler.bars candidate.compiled = true) :
    o.accept candidate = (.error .tableLockPoisoned, o) := by
  simp only [accept, Scheduler.accept_barred h]
  rfl

omit [IdGenerator σ] in
theorem accept_taken (hb : o.scheduler.bars candidate.compiled = false)
    (h : o.scheduler.registry.contains candidate.id = true) :
    o.accept candidate = (.error (.duplicateId candidate.id), o) := by
  simp only [accept, Scheduler.accept_taken hb h]
  rfl

omit [IdGenerator σ] in
/-- What the scheduler does to admit the candidate, from what its client is told. -/
theorem accept_cases (o : Orchestrator σ) (candidate : Candidate) :
    (∃ failure, o.accept candidate = (.error failure, o)) ∨
    ((o.scheduler.accept candidate.id candidate.text candidate.compiled).1 = .ok () ∧
      (o.accept candidate).1 = .ok candidate.id) := by
  rcases o.scheduler.accept_cases candidate.id candidate.text candidate.compiled with
    ⟨failure, he⟩ | ⟨_, ⟨_, _, _, he, _⟩ | ⟨_, _, _, he, _⟩⟩
  · refine .inl ⟨failure, ?_⟩
    simp only [accept, he]
    rfl
  · refine .inr ⟨congrArg Prod.fst he, ?_⟩
    simp only [accept, he]
    rfl
  · refine .inr ⟨congrArg Prod.fst he, ?_⟩
    simp only [accept, he]
    rfl

theorem Interleaving.accounts (h : Interleaving waiting admitted o) :
    (∀ candidate ∈ waiting, Formula.compile candidate.text = .ok candidate.compiled) ∧
      ∃ events, Accounts admitted events o.scheduler := by
  induction h with
  | create config ids => exact ⟨by simp, [], .create config⟩
  | @check waiting admitted o given text _ ih =>
    obtain ⟨hwaiting, ih⟩ := ih
    rw [o.scheduler_check]
    refine ⟨fun candidate hm => ?_, ih⟩
    rcases List.mem_append.mp hm with hm | hm
    · exact hwaiting candidate hm
    · cases hc : (o.check given text).1 with
      | error failure => simp [hc, Except.toOption] at hm
      | ok found =>
        obtain rfl : candidate = found := by simpa [hc, Except.toOption] using hm
        exact compiled_of_check hc
  | @won waiting admitted o candidate id _ hm hok ih =>
    obtain ⟨hwaiting, events, h⟩ := ih
    refine ⟨fun other hother => hwaiting other (List.mem_of_mem_erase hother), ?_⟩
    rcases o.accept_cases candidate with ⟨failure, he⟩ | ⟨haccepted, _⟩
    · rw [he] at hok
      cases hok
    · exact h.accept (hwaiting candidate hm) haccepted
  | @lost waiting admitted o candidate failure _ hm herror ih =>
    obtain ⟨hwaiting, events, h⟩ := ih
    refine ⟨fun other hother => hwaiting other (List.mem_of_mem_erase hother), events, ?_⟩
    rcases o.accept_cases candidate with ⟨other, he⟩ | ⟨_, hok⟩
    · rwa [he]
    · cases hok.symm.trans herror
  | pull now _ ih =>
    obtain ⟨hwaiting, events, h⟩ := ih
    exact ⟨hwaiting, _, h.pull now⟩
  | report id value _ ih =>
    obtain ⟨hwaiting, events, h⟩ := ih
    exact ⟨hwaiting, _, h.report id value⟩

namespace Accounts

/-- The candidate in whose range the id of a live task is. -/
theorem owner_iff (h : Accounts admitted events s) {k id : Nat} {task : Task}
    (hk : admitted[k]? = some candidate) (hg : s.table.get? id = some task) : task.owner = candidate.id ↔
      firstId (admitted.take k) ≤ id ∧ id < firstId (admitted.take k) + candidate.size := by
  constructor
  · intro howner
    obtain ⟨graph, base, i, ha, hi, rfl⟩ := (h.told.recorded.live id task hg).belongsTo
    obtain ⟨j, text, hj, rfl⟩ := (h.assigned _ _ _).mp ha
    have hmap : (admitted.map Candidate.id)[j]? = (admitted.map Candidate.id)[k]? := by
      rw [List.getElem?_map, List.getElem?_map, hj, hk]
      exact congrArg some howner
    have hlt : j < (admitted.map Candidate.id).length := by
      simpa using (List.getElem?_eq_some_iff.mp hj).1
    obtain rfl := (List.getElem?_inj hlt h.distinct).mp hmap
    cases hj.symm.trans hk
    exact ⟨Nat.le_add_right _ _, Nat.add_lt_add_left hi _⟩
  · rintro ⟨hle, hlt⟩
    obtain ⟨i, rfl⟩ := Nat.exists_eq_add_of_le hle
    obtain ⟨owner, text, compiled⟩ := candidate
    cases compiled with
    | literal value => exact absurd (Nat.lt_of_add_lt_add_left hlt) (Nat.not_lt_zero i)
    | graph graph =>
      have ha := (h.assigned owner graph _).mpr ⟨k, text, hk, rfl⟩
      exact h.told.recorded.owner_of_belongsTo hg ⟨graph, _, i, ha, Nat.lt_of_add_lt_add_left hlt, rfl⟩

theorem exists_owner (h : Accounts admitted events s) {id : Nat} {task : Task}
    (hg : s.table.get? id = some task) : ∃ candidate ∈ admitted, task.owner = candidate.id := by
  obtain ⟨graph, base, _, ha, _⟩ := (h.told.recorded.live id task hg).belongsTo
  obtain ⟨k, text, hk, _⟩ := (h.assigned _ _ _).mp ha
  exact ⟨_, List.mem_of_getElem? hk, rfl⟩

theorem created (h : Accounts admitted events s) :
    s.metrics.tasksCreated = .ofNat (totalSize admitted) := by
  obtain ⟨answers, totals, hb⟩ := h.told.balanced
  have hcreated := hb.created
  rw [h.next, firstId, Nat.add_comm 1] at hcreated
  rw [hb.metrics, ← Nat.add_right_cancel hcreated]
  rfl

end Accounts

/-- A later candidate receives later ids. -/
theorem firstId_take_le {k j : Nat} (hk : admitted[k]? = some candidate) (hlt : k < j) :
    firstId (admitted.take k) + candidate.size ≤ firstId (admitted.take j) := by
  obtain ⟨rest, hrest⟩ := List.take_prefix_take_left (l := admitted) hlt
  rw [List.take_add_one, hk, Option.toList_some] at hrest
  rw [← firstId_concat, ← hrest, firstId, firstId, totalSize_append _ rest]
  omega

end Orchestrator

end ArithDispatch
