import ArithDispatch.Task.Arena

/-! The task table: the live tasks, the next id to give out, and a low-water mark below which every
task is completed or gone. Each formula receives one contiguous range of ids. -/
namespace ArithDispatch

structure TaskTable where
  arena : Arena := .empty
  /-- The id that is given out next: one more than the number of all tasks that were ever committed. The
  count is 64 bits wide where the program runs. It is unbounded here, so what is proved of ids is about runs
  that commit fewer than 2 ^ 64 - 1 tasks. -/
  nextId : Nat := 1
  /-- The mark, which never passes `nextId` and so needs no more bits. -/
  lowWater : Nat := 1

namespace TaskTable

def size (table : TaskTable) : Nat := table.arena.size

def get? (table : TaskTable) (id : Nat) : Option Task := table.arena.get? id

def contains (table : TaskTable) (id : Nat) : Bool := (table.get? id).isSome

def inProgress (table : TaskTable) : Nat := table.arena.tasks.countP Task.isInProgress

def modify (table : TaskTable) (id : Nat) (change : Task → Task) : TaskTable :=
  { table with arena := table.arena.modify id change }

/-- The task for one node of a graph whose first node becomes task `base`. -/
def taskOfNode (owner : String) (durations : OperationDurations) (base index : Nat)
    (node : Formula.Node) : Task where
  id := base + index
  left := node.left.shift base
  operator := node.operator
  right := node.right.shift base
  duration := durations.forOperator node.operator
  owner := owner

/-- Adds the nodes of a graph as pending tasks and returns the id of its root. -/
def commit (table : TaskTable) (graph : Formula.Graph) (owner : String)
    (durations : OperationDurations) : Nat × TaskTable :=
  let tasks := graph.nodes.mapIdx (taskOfNode owner durations table.nextId)
  (table.nextId + graph.root,
    { table with
      arena := tasks.foldl Arena.insert table.arena
      nextId := table.nextId + graph.size })

/-- Moves the mark up to the first task that is not completed. -/
def advance (table : TaskTable) : TaskTable :=
  match (table.arena.startingAt table.lowWater).find? (!·.isDone) with
  | some task => { table with lowWater := task.id }
  | none => { table with lowWater := table.nextId }

/-- Removes a task with all that is reachable from it, and counts the removed tasks. -/
def reclaim (table : TaskTable) (id : Nat) : Nat × TaskTable :=
  let (arena, count) := table.arena.reclaim [id]
  (count, { table with arena })

end TaskTable

end ArithDispatch
