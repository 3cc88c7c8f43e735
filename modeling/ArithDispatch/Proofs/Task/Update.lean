import ArithDispatch.Task.Arena
import Mathlib.Data.List.Sort

/-! Updates of different tasks do not get in each other's way. An arena is known by what `get?` finds in it, so
the order of such updates leaves no trace. -/
namespace ArithDispatch.Arena
variable {arena other : Arena} {a b id : Nat} {task : Task}

/-- Arenas in which the same tasks are found are the same. -/
theorem eq_of_get? (h : ∀ id, arena.get? id = other.get? id) : arena = other := by
  obtain ⟨tasks, ascending⟩ := arena
  obtain ⟨tasks', ascending'⟩ := other
  have hirrefl : Std.Irrefl fun t u : Task => t.id < u.id := ⟨fun t => Nat.lt_irrefl t.id⟩
  have hantisymm : Std.Antisymm fun t u : Task => t.id < u.id :=
    ⟨fun _ _ hlt hgt => absurd hgt (Nat.lt_asymm hlt)⟩
  obtain rfl : tasks = tasks' := ascending.eq_of_mem_iff ascending' fun task => by
    have hm : task ∈ (⟨tasks, ascending⟩ : Arena).tasks ↔ task ∈ (⟨tasks', ascending'⟩ : Arena).tasks := by
      rw [mem_tasks_iff, mem_tasks_iff, h]
    exact hm
  rfl

theorem modify_comm (hne : a ≠ b) (arena : Arena) (f g : Task → Task) :
    (arena.modify a f).modify b g = (arena.modify b g).modify a f := by
  refine eq_of_get? fun id => ?_
  simp only [get?_modify, Option.map_map]
  refine Option.map_congr fun task _ => ?_
  simp only [Function.comp_apply]
  by_cases ha : id = a
  · subst ha
    simp only [if_neg hne, if_true]
  · simp only [if_neg ha]

theorem erase_comm (arena : Arena) (a b : Nat) : (arena.erase a).erase b = (arena.erase b).erase a := by
  refine eq_of_get? fun id => ?_
  simp only [get?_erase]
  by_cases ha : id = a <;> by_cases hb : id = b <;> simp [ha, hb]

theorem erase_modify_comm (arena : Arena) (a b : Nat) (f : Task → Task) :
    (arena.erase a).modify b f = (arena.modify b f).erase a := by
  refine eq_of_get? fun id => ?_
  simp only [get?_modify, get?_erase]
  by_cases ha : id = a <;> simp [ha]

theorem erase_modify_self (arena : Arena) (id : Nat) (f : Task → Task) :
    (arena.modify id f).erase id = arena.erase id := by
  refine eq_of_get? fun other => ?_
  simp only [get?_modify, get?_erase]
  by_cases he : other = id <;> simp [he]

/-- A live task without references goes alone. -/
theorem reclaim_of_settled (hg : arena.get? id = some task) (hd : task.dependencies = []) :
    arena.reclaim [id] = (arena.erase id, 1) := by
  rw [reclaim]
  split
  · next hn => cases hn.symm.trans hg
  · next found hfound =>
    cases hfound.symm.trans hg
    simp [hd, reclaim]

end ArithDispatch.Arena
