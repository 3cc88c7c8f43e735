import ArithDispatch.Proofs.Scheduler.Preservation

/-! Accepting a compiled formula: nothing happens under an id that is taken, nor to a graph while the lock
is poisoned; else the record is new, and the nodes of a graph become pending tasks that keep the state
coherent. -/
namespace ArithDispatch.Scheduler
variable {s t : Scheduler} {owner source : String} {graph : Formula.Graph} {compiled : Formula.Compiled}

/-- Whether a poisoned lock keeps what was compiled from being accepted. -/
def bars (s : Scheduler) : Formula.Compiled → Bool
  | .literal _ => false
  | .graph _ => s.poisoned

theorem bars_of_sound (h : s.poisoned = false) (compiled : Formula.Compiled) : s.bars compiled = false := by
  cases compiled with
  | literal value => rfl
  | graph graph => exact h

theorem accept_barred (h : s.bars compiled = true) :
    s.accept owner source compiled = (.error .tableLockPoisoned, s) := by
  cases compiled with
  | literal value => cases h
  | graph graph =>
    have hp : s.poisoned = true := h
    simp only [accept, hp, if_true]

theorem accept_taken (hb : s.bars compiled = false) (h : s.registry.contains owner = true) :
    s.accept owner source compiled = (.error (.duplicateId owner), s) := by
  cases compiled with
  | literal value => simp only [accept, Registry.register_eq_none_iff.mpr h]
  | graph graph =>
    have hp : ¬ s.poisoned = true := Bool.eq_false_iff.mp hb
    simp only [accept, if_neg hp]
    simp only [Registry.register_eq_none_iff.mpr h]

theorem find?_eq_none_of_not_contains (h : ¬ s.registry.contains owner = true) :
    s.registry.find? owner = none := by
  rw [Registry.contains, Option.isSome_iff_ne_none] at h
  exact Classical.not_not.mp h

/-- An acceptance fails and changes nothing, or it adds the record of a number, or that of a graph together
with its tasks. -/
theorem accept_cases (s : Scheduler) (owner source : String) (compiled : Formula.Compiled) :
    (∃ failure, s.accept owner source compiled = (.error failure, s)) ∨
    ¬ s.registry.contains owner = true ∧
      ((∃ value t, compiled = .literal value ∧ s.accept owner source compiled = (.ok (), t) ∧
          t.table = s.table ∧ ∀ other, t.registry.find? other =
            if other = owner then some (.literal source value) else s.registry.find? other) ∨
        ∃ graph t, compiled = .graph graph ∧ s.accept owner source compiled = (.ok (), t) ∧
          t.table = (s.table.commit graph owner s.durations).2 ∧ ∀ other, t.registry.find? other =
            if other = owner then some (.pending source (s.table.nextId + graph.root))
            else s.registry.find? other) := by
  by_cases hb : s.bars compiled = true
  · exact .inl ⟨_, accept_barred hb⟩
  rw [Bool.not_eq_true] at hb
  by_cases h : s.registry.contains owner = true
  · exact .inl ⟨_, accept_taken hb h⟩
  refine .inr ⟨h, ?_⟩
  cases compiled with
  | literal value =>
    simp only [accept]
    split
    · next hn => exact absurd (Registry.register_eq_none_iff.mp hn) h
    · next after _ hr => exact .inl ⟨value, _, rfl, rfl, rfl, Registry.find?_register hr⟩
  | graph graph =>
    have hp : ¬ s.poisoned = true := Bool.eq_false_iff.mp hb
    simp only [accept, if_neg hp]
    split
    · next hn => exact absurd (Registry.register_eq_none_iff.mp hn) h
    · next after table hr =>
      exact .inr ⟨graph, _, rfl, rfl, (Registry.register_eq_some hr).2.1, Registry.find?_register hr⟩

/-- Under a free id everything is accepted that the lock does not bar. -/
theorem accept_free (hb : s.bars compiled = false) (h : ¬ s.registry.contains owner = true) :
    (s.accept owner source compiled).1 = .ok () := by
  cases compiled with
  | literal value =>
    simp only [accept]
    split
    · next hn => exact absurd (Registry.register_eq_none_iff.mp hn) h
    · rfl
  | graph graph =>
    have hp : ¬ s.poisoned = true := Bool.eq_false_iff.mp hb
    simp only [accept, if_neg hp]
    split
    · next hn => exact absurd (Registry.register_eq_none_iff.mp hn) h
    · rfl

theorem not_contains_of_accept (h : (s.accept owner source compiled).1 = .ok ()) :
    ¬ s.registry.contains owner = true := by
  rcases s.accept_cases owner source compiled with ⟨failure, he⟩ | ⟨hnew, _⟩
  · rw [he] at h
    cases h
  · exact hnew

theorem accept_literal {value : Binary64} (h : (s.accept owner source (.literal value)).1 = .ok ()) :
    ∃ t, s.accept owner source (.literal value) = (.ok (), t) ∧ t.table = s.table ∧
      ∀ other, t.registry.find? other =
        if other = owner then some (.literal source value) else s.registry.find? other := by
  rcases s.accept_cases owner source (.literal value) with
    ⟨failure, he⟩ | ⟨_, ⟨_, t, heq, hall⟩ | ⟨_, _, heq, _⟩⟩
  · rw [he] at h
    cases h
  · cases heq
    exact ⟨t, hall⟩
  · cases heq

theorem accept_graph (h : (s.accept owner source (.graph graph)).1 = .ok ()) :
    ∃ t, s.accept owner source (.graph graph) = (.ok (), t) ∧
      t.table = (s.table.commit graph owner s.durations).2 ∧
      ∀ other, t.registry.find? other =
        if other = owner then some (.pending source (s.table.nextId + graph.root))
        else s.registry.find? other := by
  rcases s.accept_cases owner source (.graph graph) with
    ⟨failure, he⟩ | ⟨_, ⟨_, _, heq, _⟩ | ⟨_, t, heq, hall⟩⟩
  · rw [he] at h
    cases h
  · cases heq
  · cases heq
    exact ⟨t, hall⟩

/-- What is accepted has a record with the text that was submitted, and the other records stay. -/
theorem find?_accept (h : (s.accept owner source compiled).1 = .ok ()) :
    ∃ record, record.source = source ∧ ∀ other, (s.accept owner source compiled).2.registry.find? other =
      if other = owner then some record else s.registry.find? other := by
  rcases s.accept_cases owner source compiled with
    ⟨failure, he⟩ | ⟨_, ⟨value, t, _, he, _, hf⟩ | ⟨graph, t, _, he, _, hf⟩⟩
  · rw [he] at h
    cases h
  · exact ⟨_, rfl, by rwa [he]⟩
  · exact ⟨_, rfl, by rwa [he]⟩

/-- What is looked up is the summary of a record. -/
theorem find?_of_expression {summary : ExpressionSummary} (h : s.expression owner = .ok summary) :
    ∃ record, s.registry.find? owner = some record ∧ record.summary owner = summary := by
  simp only [expression] at h
  split at h <;> cases h
  exact Option.map_eq_some_iff.mp ‹_›

namespace Coherent

theorem owner_ne_of_new (h : Coherent s) (hnew : s.registry.find? owner = none) {id : Nat} {task : Task}
    (hg : s.table.get? id = some task) : task.owner ≠ owner := by
  rintro rfl
  obtain ⟨root, ho, _⟩ := h.owned id task hg
  obtain ⟨record, hf, _⟩ := Registry.openRoot?_eq_some.mp ho
  rw [hnew] at hf
  cases hf

theorem commit (h : Coherent s) (hgraph : graph.IsTree) (hnew : s.registry.find? owner = none)
    (ht : t.table = (s.table.commit graph owner s.durations).2)
    (hf : ∀ other, t.registry.find? other =
      if other = owner then some (.pending source (s.table.nextId + graph.root))
      else s.registry.find? other) : Coherent t := by
  have hopen : ∀ other, t.registry.openRoot? other =
      if other = owner then some (s.table.nextId + graph.root) else s.registry.openRoot? other :=
    Registry.openRoot?_insert hf
  have old : ∀ {id task}, s.table.get? id = some task → t.table.get? id = some task := by
    intro id task hg
    rw [ht, TaskTable.get?_commit_of_lt (h.bounded id task hg), hg]
  have new : ∀ {i node}, graph.nodes[i]? = some node → t.table.get? (s.table.nextId + i) =
      some (TaskTable.taskOfNode owner s.durations s.table.nextId i node) := by
    intro i node hn
    rw [ht, TaskTable.get?_commit_add h.bounded, hn]
    rfl
  have live : ∀ {id task}, t.table.get? id = some task → _ :=
    fun hg => TaskTable.get?_commit_cases h.bounded (ht ▸ hg)
  have refers : ∀ {user id}, t.table.arena.Refers user id →
      (id < s.table.nextId ∧ s.table.arena.Refers user id) ∨
        ∃ i node j, user = s.table.nextId + i ∧ graph.nodes[i]? = some node ∧
          j ∈ node.references ∧ id = s.table.nextId + j := by
    rintro user id ⟨reader, hu, hd⟩
    rcases live hu with ⟨_, hu⟩ | ⟨i, node, rfl, hn, rfl⟩
    · obtain ⟨_, other, hother, _⟩ := h.reads user reader id hu hd
      exact .inl ⟨h.bounded id other hother, reader, hu, hd⟩
    · rw [TaskTable.dependencies_taskOfNode] at hd
      obtain ⟨j, hj, rfl⟩ := List.mem_map.mp hd
      exact .inr ⟨i, node, j, rfl, hn, hj, rfl⟩
  have hroot := hgraph.root_lt
  refine ⟨h.regular.insert hf (fun _ => rfl) (by simp [ExpressionRecord.pending]), ?owned, ?rooted,
    ?reads, ?used, ?used_once, ?distinct, ?settled, ?untried, ?bounded, ?marked, ?mark_le⟩
  case owned =>
    intro id task hg
    rw [hopen]
    rcases live hg with ⟨_, hg⟩ | ⟨i, node, rfl, hn, rfl⟩
    · rw [if_neg (h.owner_ne_of_new hnew hg)]
      exact h.owned id task hg
    · refine ⟨_, if_pos rfl, Nat.add_le_add_left ?_ _⟩
      have := (List.getElem?_eq_some_iff.mp hn).1
      simp only [Formula.Graph.root, Formula.Graph.size]
      omega
  case rooted =>
    intro other root ho
    rw [hopen] at ho
    split at ho
    · next he =>
      cases ho
      have hn := List.getElem?_eq_getElem hroot
      exact ⟨_, new hn, he.symm, rfl⟩
    · obtain ⟨task, hg, howner⟩ := h.rooted other root ho
      exact ⟨task, old hg, howner⟩
  case reads =>
    intro id task dep hg hd
    rcases live hg with ⟨_, hg⟩ | ⟨i, node, rfl, hn, rfl⟩
    · obtain ⟨hlt, other, hother, howner⟩ := h.reads id task dep hg hd
      exact ⟨hlt, other, old hother, howner⟩
    · rw [TaskTable.dependencies_taskOfNode] at hd
      obtain ⟨j, hj, rfl⟩ := List.mem_map.mp hd
      have hlt := hgraph.backward i node hn j hj
      have hi := (List.getElem?_eq_some_iff.mp hn).1
      exact ⟨Nat.add_lt_add_left hlt _, _, new (List.getElem?_eq_getElem (Nat.lt_trans hlt hi)), rfl⟩
  case used =>
    intro id task hg ho
    rw [hopen] at ho
    rcases live hg with ⟨_, hg⟩ | ⟨i, node, rfl, hn, rfl⟩
    · rw [if_neg (h.owner_ne_of_new hnew hg)] at ho
      obtain ⟨user, reader, hu, hd⟩ := h.used id task hg ho
      exact ⟨user, reader, old hu, hd⟩
    · have hi := (List.getElem?_eq_some_iff.mp hn).1
      have hne : graph.root ≠ i := by simpa [TaskTable.taskOfNode] using ho
      obtain ⟨k, user, hk, hm⟩ := hgraph.exists_user (show i < graph.root by
        simp only [Formula.Graph.root, Formula.Graph.size] at hne ⊢
        omega)
      refine ⟨_, _, new hk, ?_⟩
      rw [TaskTable.dependencies_taskOfNode]
      exact List.mem_map_of_mem hm
  case used_once =>
    intro id user other hu hv
    rcases refers hu with ⟨hlt, hu⟩ | ⟨i, node, j, rfl, hn, hj, rfl⟩
    · rcases refers hv with ⟨_, hv⟩ | ⟨i, node, j, rfl, hn, hj, rfl⟩
      · exact h.used_once id user other hu hv
      · omega
    · rcases refers hv with ⟨hlt, _⟩ | ⟨k, node', j', rfl, hk, hj', he⟩
      · omega
      · obtain rfl : j = j' := Nat.add_left_cancel he
        rw [hgraph.user_unique hn hk hj hj']
  case distinct =>
    intro id task hg
    rcases live hg with ⟨_, hg⟩ | ⟨i, node, rfl, hn, rfl⟩
    · exact h.distinct id task hg
    · rw [TaskTable.dependencies_taskOfNode]
      exact (hgraph.nodup_references hn).map fun _ _ he => Nat.add_left_cancel he
  case settled =>
    intro id task hg hs
    rcases live hg with ⟨_, hg⟩ | ⟨i, node, rfl, hn, rfl⟩
    · exact h.settled id task hg hs
    · exact absurd rfl hs
  case untried =>
    intro id task hg hs
    rcases live hg with ⟨_, hg⟩ | ⟨i, node, rfl, hn, rfl⟩
    · exact h.untried id task hg hs
    · rfl
  case bounded =>
    intro id task hg
    rw [ht] at hg ⊢
    exact TaskTable.lt_nextId_commit h.bounded hg
  case marked =>
    intro id task hg hlt
    rw [ht] at hg hlt
    exact TaskTable.isDone_of_lt_commit h.bounded h.mark_le h.marked hg hlt
  case mark_le =>
    rw [ht]
    exact Nat.le_add_right_of_le h.mark_le

theorem accept (h : Coherent s) (hc : ∀ graph, compiled = .graph graph → graph.IsTree)
    (owner source : String) : Coherent (s.accept owner source compiled).2 := by
  rcases s.accept_cases owner source compiled with
    ⟨failure, he⟩ | ⟨htaken, ⟨value, t, _, he, ht, hf⟩ | ⟨graph, t, heq, he, ht, hf⟩⟩
  · rw [he]
    exact h
  · have hnew := find?_eq_none_of_not_contains htaken
    rw [he]
    have hopen : ∀ other, t.registry.openRoot? other = s.registry.openRoot? other := by
      intro other
      rw [Registry.openRoot?_insert hf]
      split
      · next hsame => rw [hsame, Registry.openRoot?, hnew]; rfl
      · rfl
    refine h.of_same_tasks (fun id => by rw [ht]) hopen ?_ (by rw [ht]) (by rw [ht]; exact h.marked)
      (by rw [ht]; exact h.mark_le)
    exact h.regular.insert hf (by intro hs; cases hs) (by simp [ExpressionRecord.literal])
  · rw [he]
    exact h.commit (hc graph heq) (find?_eq_none_of_not_contains htaken) ht hf

end Coherent

end ArithDispatch.Scheduler
