import ArithDispatch.Proofs.Formula.Shape
import ArithDispatch.Proofs.Task.Reclaim

/-! The task table through `get?`: what a commit adds, what a removal takes away and how far the
low-water mark moves. -/
namespace ArithDispatch

theorem Task.mem_dependencies {task : Task} {dep : Nat} :
    dep ∈ task.dependencies ↔ task.left = .reference dep ∨ task.right = .reference dep :=
  Operand.mem_references

namespace Arena

/-- Removing a task that reads from no other one removes nothing else. -/
theorem get?_reclaim_leaf {arena : Arena} {id : Nat} (h : ∀ dep, ¬ arena.Refers id dep) (other : Nat) :
    (arena.reclaim [id]).1.get? other = if other = id then none else arena.get? other := by
  split
  · next he =>
    subst he
    exact arena.get?_reclaim_of_mem (List.mem_singleton_self _)
  · next he =>
    refine get?_reclaim_of_not (· = id) ?_ (by simp) he
    rintro _ dep rfl hr
    exact absurd hr (h dep)

theorem get?_reclaim_absent {arena : Arena} {id : Nat} (h : arena.get? id = none) (other : Nat) :
    (arena.reclaim [id]).1.get? other = arena.get? other := by
  rw [get?_reclaim_leaf fun dep hr => by obtain ⟨task, hg, _⟩ := hr; rw [h] at hg; cases hg]
  split
  · next he => rw [he, h]
  · rfl

private theorem get?_insertAll_of_lt {base id : Nat} (h : id < base) (nodes : List Formula.Node)
    (make : Nat → Formula.Node → Task) (hm : ∀ i node, (make i node).id = base + i) (arena : Arena) :
    ((nodes.mapIdx make).foldl insert arena).get? id = arena.get? id := by
  induction nodes generalizing base make arena with
  | nil => rfl
  | cons node rest ih =>
    rw [List.mapIdx_cons, List.foldl_cons, ih (Nat.lt_succ_of_lt h) _
      (fun i node => by rw [hm]; omega), get?_insert, hm, if_neg (by omega)]

private theorem get?_insertAll_add {base i : Nat} {node : Formula.Node} (nodes : List Formula.Node)
    (make : Nat → Formula.Node → Task) (hm : ∀ i node, (make i node).id = base + i) (arena : Arena)
    (hn : nodes[i]? = some node) :
    ((nodes.mapIdx make).foldl insert arena).get? (base + i) = some (make i node) := by
  induction nodes generalizing base i make arena with
  | nil => simp at hn
  | cons first rest ih =>
    rw [List.mapIdx_cons, List.foldl_cons]
    have hs : ∀ i node, (make (i + 1) node).id = base + 1 + i := fun i node => by rw [hm]; omega
    cases i with
    | zero =>
      obtain rfl : first = node := by simpa using hn
      rw [Nat.add_zero, get?_insertAll_of_lt (Nat.lt_succ_self base) _ _ hs, get?_insert, hm,
        Nat.add_zero, if_pos rfl]
    | succ i =>
      rw [show base + (i + 1) = base + 1 + i by omega]
      exact ih _ hs _ (by simpa using hn)

private theorem get?_insertAll_of_ge {base i : Nat} (nodes : List Formula.Node)
    (make : Nat → Formula.Node → Task) (hm : ∀ i node, (make i node).id = base + i) (arena : Arena)
    (hn : nodes[i]? = none) :
    ((nodes.mapIdx make).foldl insert arena).get? (base + i) = arena.get? (base + i) := by
  induction nodes generalizing base i make arena with
  | nil => rfl
  | cons first rest ih =>
    have hs : ∀ i node, (make (i + 1) node).id = base + 1 + i := fun i node => by rw [hm]; omega
    cases i with
    | zero => simp at hn
    | succ i =>
      rw [List.mapIdx_cons, List.foldl_cons, show base + (i + 1) = base + 1 + i by omega,
        ih _ hs _ (by simpa using hn), get?_insert, hm, if_neg (by omega)]

end Arena

namespace TaskTable
variable {table : TaskTable} {graph : Formula.Graph} {owner : String} {durations : OperationDurations}

theorem get?_modify (table : TaskTable) (id other : Nat) (change : Task → Task) :
    (table.modify id change).get? other =
      (table.get? other).map fun task => if other = id then { change task with id } else task :=
  table.arena.get?_modify id other change

theorem dependencies_taskOfNode (owner : String) (durations : OperationDurations) (base i : Nat)
    (node : Formula.Node) :
    (taskOfNode owner durations base i node).dependencies = node.references.map (base + ·) := by
  obtain ⟨left, op, right⟩ := node
  cases left <;> cases right <;> rfl

theorem get?_commit_of_lt {id : Nat} (h : id < table.nextId) :
    (table.commit graph owner durations).2.get? id = table.get? id :=
  Arena.get?_insertAll_of_lt h _ _ (fun _ _ => rfl) _

/-- Node `i` of a committed graph becomes the task `i` places behind the next free id. -/
theorem get?_commit_add (h : ∀ id task, table.get? id = some task → id < table.nextId) (i : Nat) :
    (table.commit graph owner durations).2.get? (table.nextId + i) =
      (graph.nodes[i]?).map (taskOfNode owner durations table.nextId i) := by
  cases hn : graph.nodes[i]? with
  | some node => exact Arena.get?_insertAll_add _ _ (fun _ _ => rfl) _ hn
  | none =>
    refine (Arena.get?_insertAll_of_ge _ _ (fun _ _ => rfl) _ hn).trans ?_
    cases hg : table.arena.get? (table.nextId + i) with
    | none => rfl
    | some task => exact absurd (h _ _ hg) (by omega)

/-- The live tasks after a commit are those from before and the nodes of the graph. -/
theorem get?_commit_cases (h : ∀ id task, table.get? id = some task → id < table.nextId) {id : Nat}
    {task : Task} (hg : (table.commit graph owner durations).2.get? id = some task) :
    (id < table.nextId ∧ table.get? id = some task) ∨
      ∃ i node, id = table.nextId + i ∧ graph.nodes[i]? = some node ∧
        task = taskOfNode owner durations table.nextId i node := by
  rcases Nat.lt_or_ge id table.nextId with hlt | hge
  · rw [get?_commit_of_lt hlt] at hg
    exact .inl ⟨hlt, hg⟩
  · obtain ⟨i, rfl⟩ := Nat.exists_eq_add_of_le hge
    rw [get?_commit_add h] at hg
    obtain ⟨node, hn, rfl⟩ := Option.map_eq_some_iff.mp hg
    exact .inr ⟨i, node, rfl, hn, rfl⟩

theorem lt_nextId_commit (h : ∀ id task, table.get? id = some task → id < table.nextId) {id : Nat}
    {task : Task} (hg : (table.commit graph owner durations).2.get? id = some task) :
    id < (table.commit graph owner durations).2.nextId := by
  rcases get?_commit_cases h hg with ⟨hlt, _⟩ | ⟨i, _, rfl, hn, _⟩
  · exact Nat.lt_add_right graph.size hlt
  · exact Nat.add_lt_add_left (List.getElem?_eq_some_iff.mp hn).1 table.nextId

/-- New tasks do not come below the mark. -/
theorem isDone_of_lt_commit (h : ∀ id task, table.get? id = some task → id < table.nextId)
    (hl : table.lowWater ≤ table.nextId)
    (hm : ∀ id task, table.get? id = some task → id < table.lowWater → task.isDone = true) {id : Nat}
    {task : Task} (hg : (table.commit graph owner durations).2.get? id = some task)
    (hlt : id < table.lowWater) : task.isDone = true := by
  rcases get?_commit_cases h hg with ⟨_, hg⟩ | ⟨i, _, rfl, _, _⟩
  · exact hm id task hg hlt
  · exact absurd (Nat.lt_of_lt_of_le hlt hl) (Nat.not_lt.mpr (Nat.le_add_right ..))

/-- Nothing but the mark is moved. -/
theorem advance_eq (table : TaskTable) :
    table.advance = { table with lowWater := table.advance.lowWater } := by
  unfold advance
  split <;> rfl

@[simp] theorem get?_advance (table : TaskTable) (id : Nat) : table.advance.get? id = table.get? id := by
  unfold advance
  split <;> rfl

@[simp] theorem nextId_advance (table : TaskTable) : table.advance.nextId = table.nextId := by
  unfold advance
  split <;> rfl

/-- The mark moves to a live task that is not completed, or to the next free id. -/
theorem lowWater_advance (table : TaskTable) :
    (∃ task, table.get? table.advance.lowWater = some task ∧ task.isDone = false) ∨
      table.advance.lowWater = table.nextId := by
  unfold advance
  split
  · next task hf =>
    have hm := Arena.mem_startingAt.mp (List.mem_of_find?_eq_some hf)
    exact .inl ⟨task, hm.1, by simpa using List.find?_some hf⟩
  · exact .inr rfl

theorem lowWater_advance_le (h : ∀ id task, table.get? id = some task → id < table.nextId) :
    table.advance.lowWater ≤ table.nextId := by
  rcases table.lowWater_advance with ⟨task, hg, _⟩ | he
  · exact Nat.le_of_lt (h _ task hg)
  · exact Nat.le_of_eq he

/-- The mark never passes a task that is not completed. -/
theorem isDone_of_lt_advance {id : Nat} {task : Task}
    (hm : ∀ id task, table.get? id = some task → id < table.lowWater → task.isDone = true)
    (hg : table.get? id = some task) (hlt : id < table.advance.lowWater) : task.isDone = true := by
  rcases Nat.lt_or_ge id table.lowWater with hlow | hlow
  · exact hm id task hg hlow
  · have hid : task.id = id := Arena.id_of_get? hg
    have hmem : task ∈ table.arena.startingAt table.lowWater :=
      Arena.mem_startingAt.mpr ⟨by rw [hid]; exact hg, by rw [hid]; exact hlow⟩
    unfold advance at hlt
    split at hlt
    · next first hf =>
      obtain ⟨_, before, after, hl, hb⟩ := List.find?_eq_some_iff_append.mp hf
      have hsorted : (table.arena.startingAt table.lowWater).Pairwise (·.id < ·.id) :=
        table.arena.ascending.filter _
      rw [hl] at hmem hsorted
      rcases List.mem_append.mp hmem with hmem | hmem
      · simpa using hb task hmem
      · rcases List.mem_cons.mp hmem with rfl | hmem
        · exact absurd hlt (by simp [hid])
        · have := List.rel_of_pairwise_cons (List.pairwise_append.mp hsorted).2.1 hmem
          exact absurd hlt (by simp only; omega)
    · next hf => simpa using List.find?_eq_none.mp hf task hmem

end TaskTable

end ArithDispatch
