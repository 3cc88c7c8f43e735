import ArithDispatch.Proofs.Scheduler.Run

/-! The live tasks of every reachable state, said without reference to how they came about. -/
namespace ArithDispatch.Scheduler

/-- The live tasks are the trees of the open expressions. -/
structure IsForest (s : Scheduler) : Prop where
  owner_open : ∀ id task, s.table.get? id = some task → s.registry.IsOpen task.owner
  root_highest : ∀ owner, s.registry.IsOpen owner →
    ∃ root task, s.registry.rootTask? owner = some root ∧ s.table.get? root = some task ∧
      task.owner = owner ∧
      ∀ id other, s.table.get? id = some other → other.owner = owner → id ≤ root
  operand_below : ∀ id task dep, s.table.get? id = some task →
    task.left = .reference dep ∨ task.right = .reference dep →
    dep < id ∧ ∃ other, s.table.get? dep = some other ∧ other.owner = task.owner
  read_once : ∀ id task, s.table.get? id = some task → s.registry.rootTask? task.owner ≠ some id →
    ∃ user reader, s.table.get? user = some reader ∧ reader.dependencies.count id = 1 ∧
      reader.status = .pending ∧ reader.attempts = 0 ∧
      ∀ other task, s.table.get? other = some task → id ∈ task.dependencies → other = user
  operands_known : ∀ id task, s.table.get? id = some task → task.status ≠ .pending →
    ∃ left right, task.left = .literal left ∧ task.right = .literal right

private theorem literals_of_no_dependencies {task : Task} (h : task.dependencies = []) :
    ∃ left right, task.left = .literal left ∧ task.right = .literal right := by
  obtain ⟨_, left, _, right⟩ := task
  cases left with
  | reference dep => cases right <;> cases h
  | literal left =>
    cases right with
    | reference dep => cases h
    | literal right => exact ⟨left, right, rfl, rfl⟩

namespace Coherent
variable {s : Scheduler}

theorem isForest (h : Coherent s) : s.IsForest where
  owner_open id task hg := by
    obtain ⟨root, ho, _⟩ := h.owned id task hg
    exact Registry.isOpen_of_openRoot? ho
  root_highest owner howner := by
    obtain ⟨root, ho⟩ := h.regular.openRoot? howner
    obtain ⟨task, hg, htask, _⟩ := h.rooted owner root ho
    refine ⟨root, task, Registry.rootTask?_of_openRoot? ho, hg, htask, ?_⟩
    rintro id other hother rfl
    obtain ⟨root', ho', hle⟩ := h.owned id other hother
    cases ho.symm.trans ho'
    exact hle
  operand_below id task dep hg hd := h.reads id task dep hg (Task.mem_dependencies.mpr hd)
  read_once id task hg hroot := by
    have hne : s.registry.openRoot? task.owner ≠ some id :=
      fun ho => hroot (Registry.rootTask?_of_openRoot? ho)
    obtain ⟨user, reader, hu, hd⟩ := h.used id task hg hne
    have hp : reader.status = .pending := by
      by_contra hp
      rw [h.settled user reader hu hp] at hd
      cases hd
    refine ⟨user, reader, hu, List.count_eq_one_of_mem (h.distinct user reader hu) hd, hp,
      h.untried user reader hu hp, ?_⟩
    intro other task ho hm
    exact h.used_once id other user ⟨task, ho, hm⟩ ⟨reader, hu, hd⟩
  operands_known id task hg hs := literals_of_no_dependencies (h.settled id task hg hs)

theorem not_live_of_closed (h : Coherent s) {owner : String}
    (hc : s.registry.status? owner = some .done ∨ s.registry.status? owner = some .invalid)
    {id : Nat} {task : Task} (hg : s.table.get? id = some task) : task.owner ≠ owner := by
  rintro rfl
  rcases h.isForest.owner_open id task hg with ho | ho <;> rcases hc with hc | hc <;>
    rw [ho] at hc <;> cases hc

end Coherent

end ArithDispatch.Scheduler
