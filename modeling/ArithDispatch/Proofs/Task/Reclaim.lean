import ArithDispatch.Task.Table
import Mathlib.Logic.Relation

/-! What is left after a removal along operands: exactly the tasks that cannot be reached from the
ids to be removed. -/
namespace ArithDispatch.Arena
open Relation

/-- The live task `id` reads one of its operands from the task `dep`. -/
def Refers (arena : Arena) (id dep : Nat) : Prop :=
  ∃ task, arena.get? id = some task ∧ dep ∈ task.dependencies

theorem get?_of_reclaim {arena : Arena} {ids : List Nat} {id : Nat} {task : Task}
    (h : (arena.reclaim ids).1.get? id = some task) : arena.get? id = some task := by
  have hm := (arena.sublist_reclaim ids).subset (mem_of_get? h)
  have hid := id_of_get? h
  rw [mem_tasks_iff, hid] at hm
  exact hm

theorem get?_reclaim_of_none {arena : Arena} {id : Nat} (h : arena.get? id = none) (ids : List Nat) :
    (arena.reclaim ids).1.get? id = none := by
  cases hr : (arena.reclaim ids).1.get? id with
  | none => rfl
  | some task => rw [get?_of_reclaim hr] at h; cases h

theorem get?_reclaim_of_mem (arena : Arena) {ids : List Nat} {id : Nat} (h : id ∈ ids) :
    (arena.reclaim ids).1.get? id = none := by
  fun_induction reclaim arena ids with
  | case1 => cases h
  | case2 arena first rest absent ih =>
    rcases List.mem_cons.mp h with rfl | h
    · exact get?_reclaim_of_none absent rest
    · exact ih h
  | case3 arena first rest task live remaining count result ih =>
    rw [result] at ih
    rcases List.mem_cons.mp h with rfl | h
    · have hn : (arena.erase id).get? id = none := by rw [get?_erase, if_pos rfl]
      have hr := get?_reclaim_of_none hn (task.dependencies ++ rest)
      rwa [result] at hr
    · exact ih (List.mem_append_right _ h)

/-- With a task all its operands go. -/
theorem get?_reclaim_dependency {arena : Arena} {ids : List Nat} {id dep : Nat}
    (hr : arena.Refers id dep) (hg : (arena.reclaim ids).1.get? id = none) :
    (arena.reclaim ids).1.get? dep = none := by
  fun_induction reclaim arena ids with
  | case1 arena =>
    obtain ⟨task, hl, _⟩ := hr
    rw [hl] at hg
    cases hg
  | case2 arena first rest absent ih => exact ih hr hg
  | case3 arena first rest task live remaining count result ih =>
    rw [result] at ih
    obtain ⟨owner, hl, hd⟩ := hr
    by_cases he : id = first
    · subst he
      obtain rfl : task = owner := Option.some.inj (live.symm.trans hl)
      have hn := (arena.erase id).get?_reclaim_of_mem (List.mem_append_left rest hd)
      rwa [result] at hn
    · exact ih ⟨owner, by rw [get?_erase, if_neg he, hl], hd⟩ hg

/-- A set that is closed under operands and holds the given ids covers all that is removed. -/
theorem get?_reclaim_of_not {arena : Arena} {ids : List Nat} {id : Nat} (covered : Nat → Prop)
    (hc : ∀ id dep, covered id → arena.Refers id dep → covered dep)
    (hi : ∀ id ∈ ids, covered id) (hn : ¬ covered id) :
    (arena.reclaim ids).1.get? id = arena.get? id := by
  fun_induction reclaim arena ids with
  | case1 => rfl
  | case2 arena first rest absent ih =>
    exact ih hc fun id h => hi id (List.mem_cons_of_mem _ h)
  | case3 arena first rest task live remaining count result ih =>
    rw [result] at ih
    have hf := hi first List.mem_cons_self
    rw [ih, get?_erase, if_neg (by rintro rfl; exact hn hf)]
    · rintro other dep ho ⟨owner, hl, hd⟩
      rw [get?_erase] at hl
      split at hl
      · cases hl
      · exact hc other dep ho ⟨owner, hl, hd⟩
    · intro other hm
      rcases List.mem_append.mp hm with hd | hm
      · exact hc first other hf ⟨task, live, hd⟩
      · exact hi other (List.mem_cons_of_mem _ hm)

/-- A removal takes away what is reachable from the given ids, and nothing else. -/
theorem get?_reclaim (arena : Arena) (ids : List Nat) (id : Nat)
    [Decidable (∃ root ∈ ids, ReflTransGen arena.Refers root id)] :
    (arena.reclaim ids).1.get? id =
      if ∃ root ∈ ids, ReflTransGen arena.Refers root id then none else arena.get? id := by
  split
  · next h =>
    obtain ⟨root, hm, hp⟩ := h
    induction hp with
    | refl => exact arena.get?_reclaim_of_mem hm
    | tail _ hr ih => exact get?_reclaim_dependency hr ih
  · next h =>
    refine get?_reclaim_of_not (fun id => ∃ root ∈ ids, ReflTransGen arena.Refers root id) ?_ ?_ h
    · rintro id dep ⟨root, hm, hp⟩ hr
      exact ⟨root, hm, hp.tail hr⟩
    · intro id hm
      exact ⟨id, hm, .refl⟩

end ArithDispatch.Arena
