import ArithDispatch.Task

/-! The live tasks, keyed by id and listed in ascending order of it. What `get?` sees after an operation
describes the operation, and a task is listed exactly when `get?` finds it under its id. -/
namespace ArithDispatch

structure Arena where
  tasks : List Task
  ascending : tasks.Pairwise (·.id < ·.id)

namespace Arena

def empty : Arena := ⟨[], .nil⟩

def size (arena : Arena) : Nat := arena.tasks.length

def get? (arena : Arena) (id : Nat) : Option Task := arena.tasks.find? (·.id == id)

/-- The tasks from `start` on, in ascending order. -/
def startingAt (arena : Arena) (start : Nat) : List Task :=
  arena.tasks.filter (start ≤ ·.id)

def erase (arena : Arena) (id : Nat) : Arena :=
  ⟨arena.tasks.filter (·.id != id), arena.ascending.filter _⟩

/-- Changes the task with the given id, which keeps that id. -/
def modify (arena : Arena) (id : Nat) (change : Task → Task) : Arena where
  tasks := arena.tasks.map fun task => if task.id = id then { change task with id } else task
  ascending := by
    refine List.pairwise_map.mpr (arena.ascending.imp fun h => ?_)
    split <;> split <;> simp_all

/-- Puts a task at its place in an ascending list, over one with the same id. -/
def place (task : Task) : List Task → List Task
  | [] => [task]
  | first :: rest =>
    if task.id < first.id then task :: first :: rest
    else if task.id = first.id then task :: rest
    else first :: place task rest

private theorem mem_place {task other : Task} {tasks : List Task} (h : other ∈ place task tasks) :
    other = task ∨ other ∈ tasks := by
  fun_induction place task tasks <;> grind

private theorem ascending_place (task : Task) {tasks : List Task}
    (h : tasks.Pairwise (·.id < ·.id)) : (place task tasks).Pairwise (·.id < ·.id) := by
  fun_induction place task tasks with
  | case1 => simp
  | case2 first rest less =>
    refine List.pairwise_cons.mpr ⟨fun other member => ?_, h⟩
    rcases List.mem_cons.mp member with rfl | member
    · exact less
    · exact Nat.lt_trans less (List.rel_of_pairwise_cons h member)
  | case3 first rest _ same =>
    obtain ⟨above, sorted⟩ := List.pairwise_cons.mp h
    exact List.pairwise_cons.mpr ⟨fun other member => same ▸ above other member, sorted⟩
  | case4 first rest notLess notSame ih =>
    obtain ⟨above, sorted⟩ := List.pairwise_cons.mp h
    refine List.pairwise_cons.mpr ⟨fun other member => ?_, ih sorted⟩
    rcases mem_place member with rfl | member
    · exact Nat.lt_of_le_of_ne (Nat.le_of_not_lt notLess) (Ne.symm notSame)
    · exact above other member

def insert (arena : Arena) (task : Task) : Arena :=
  ⟨place task arena.tasks, ascending_place task arena.ascending⟩

theorem mem_of_get? {arena : Arena} {id : Nat} {task : Task} (h : arena.get? id = some task) :
    task ∈ arena.tasks :=
  List.mem_of_find?_eq_some h

theorem id_of_get? {arena : Arena} {id : Nat} {task : Task} (h : arena.get? id = some task) :
    task.id = id := by
  simpa using List.find?_some h

theorem mem_tasks_iff {arena : Arena} {task : Task} :
    task ∈ arena.tasks ↔ arena.get? task.id = some task := by
  refine ⟨fun member => ?_, mem_of_get?⟩
  obtain ⟨tasks, ascending⟩ := arena
  induction ascending with
  | nil => simp at member
  | @cons first rest above sorted ih =>
    rcases List.mem_cons.mp member with rfl | member
    · simp [get?]
    · have found : get? ⟨rest, sorted⟩ task.id = some task := ih member
      simp only [get?] at found ⊢
      rw [List.find?_cons_of_neg (by simpa using Nat.ne_of_lt (above task member)), found]

theorem mem_startingAt {arena : Arena} {start : Nat} {task : Task} :
    task ∈ arena.startingAt start ↔ arena.get? task.id = some task ∧ start ≤ task.id := by
  simp [startingAt, mem_tasks_iff]

@[simp] theorem get?_empty (id : Nat) : empty.get? id = none := rfl

theorem get?_insert (arena : Arena) (task : Task) (id : Nat) :
    (arena.insert task).get? id = if id = task.id then some task else arena.get? id := by
  obtain ⟨tasks, ascending⟩ := arena
  simp only [get?, insert]
  clear ascending
  fun_induction place task tasks <;> grind

theorem get?_modify (arena : Arena) (id other : Nat) (change : Task → Task) :
    (arena.modify id change).get? other =
      (arena.get? other).map fun task => if other = id then { change task with id } else task := by
  obtain ⟨tasks, ascending⟩ := arena
  simp only [get?, modify]
  clear ascending
  induction tasks with
  | nil => rfl
  | cons first rest ih => grind

theorem get?_erase (arena : Arena) (id other : Nat) :
    (arena.erase id).get? other = if other = id then none else arena.get? other := by
  simp only [get?, erase, List.find?_filter]
  split
  · subst other
    simp
  · congr 1
    funext task
    grind

@[simp] theorem size_modify (arena : Arena) (id : Nat) (change : Task → Task) :
    (arena.modify id change).size = arena.size :=
  List.length_map ..

theorem size_erase_lt {arena : Arena} {id : Nat} {task : Task} (h : arena.get? id = some task) :
    (arena.erase id).size < arena.size := by
  refine List.length_filter_lt_length_iff_exists.mpr ⟨task, mem_of_get? h, ?_⟩
  simpa using id_of_get? h

/-- Removes the tasks named in `ids` and all that is reachable from them through operands, and
counts the removed ones. The ids still to be visited are kept in a list, which may name a task twice
or name one that is gone. -/
def reclaim (arena : Arena) : List Nat → Arena × Nat
  | [] => (arena, 0)
  | id :: rest =>
    match _ : arena.get? id with
    | none => reclaim arena rest
    | some task =>
      let (remaining, count) := reclaim (arena.erase id) (task.dependencies ++ rest)
      (remaining, count + 1)
termination_by ids => (arena.size, ids.length)
decreasing_by
  · exact Prod.Lex.right _ (Nat.lt_succ_self _)
  · exact Prod.Lex.left _ _ (size_erase_lt ‹_›)

theorem sublist_reclaim (arena : Arena) (ids : List Nat) :
    (arena.reclaim ids).1.tasks.Sublist arena.tasks := by
  fun_induction reclaim arena ids with
  | case1 => exact .refl _
  | case2 _ _ _ _ ih => exact ih
  | case3 arena id rest task _ remaining count result ih =>
    rw [result] at ih
    exact ih.trans List.filter_sublist

end Arena

end ArithDispatch
