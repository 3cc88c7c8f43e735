import ArithDispatch.Proofs.Task.Count
import ArithDispatch.Proofs.Task.Reclaim
import ArithDispatch.Proofs.Task.Update
import ArithDispatch.Task.Reclamation
import Mathlib.Data.Set.Card

/-! A removal takes away the live tasks that can be reached from its root and counts each of them once,
whatever the operands refer to. It ends, since every turn uses up weight, and its mode shows in what is
noted only. -/
namespace ArithDispatch
open Relation

namespace Arena
variable {arena : Arena} {ids others : List Nat}

theorem reclaim_cons_of_none {id : Nat} (h : arena.get? id = none) (rest : List Nat) :
    arena.reclaim (id :: rest) = arena.reclaim rest := by
  rw [reclaim]
  split
  · rfl
  · next hg => cases h.symm.trans hg

theorem reclaim_cons_of_some {id : Nat} {task : Task} (h : arena.get? id = some task) (rest : List Nat) :
    arena.reclaim (id :: rest) =
      (((arena.erase id).reclaim (task.dependencies ++ rest)).1,
        ((arena.erase id).reclaim (task.dependencies ++ rest)).2 + 1) := by
  rw [reclaim]
  split
  · next hg => cases h.symm.trans hg
  · next found hg =>
    cases h.symm.trans hg
    rfl

/-- What a removal leaves and counts does not hang on the order in which ids wait, or on how often. -/
theorem reclaim_congr (h : ∀ id, id ∈ ids ↔ id ∈ others) (arena : Arena) :
    arena.reclaim ids = arena.reclaim others := by
  classical
  have harena : (arena.reclaim ids).1 = (arena.reclaim others).1 := by
    apply eq_of_get?
    intro id
    simp only [get?_reclaim, h]
  have hsize := arena.size_reclaim ids
  rw [harena, ← arena.size_reclaim others] at hsize
  exact Prod.ext harena (Nat.add_right_cancel hsize)

/-- The tasks that a removal counts are the ones that it reaches. -/
theorem count_reclaim (arena : Arena) (root : Nat) :
    (arena.reclaim [root]).2 =
      {id | (∃ task, arena.get? id = some task) ∧ ReflTransGen arena.Refers root id}.ncard := by
  classical
  have hleft : (arena.reclaim [root]).1.ids (fun _ => true) =
      (arena.ids fun _ => true).filter fun id => ¬ ReflTransGen arena.Refers root id := by
    ext id
    simp only [Finset.mem_filter, mem_ids, get?_reclaim, List.mem_singleton, exists_eq_left, and_true]
    by_cases hr : ReflTransGen arena.Refers root id <;> simp [hr]
  have hset : {id | (∃ task, arena.get? id = some task) ∧ ReflTransGen arena.Refers root id} =
      ((arena.ids fun _ => true).filter fun id => ReflTransGen arena.Refers root id : Finset Nat) := by
    ext id
    simp [mem_ids]
  have hcount := arena.size_reclaim [root]
  have hsplit := Finset.card_filter_add_card_filter_not (s := arena.ids fun _ => true)
    (fun id => ReflTransGen arena.Refers root id)
  rw [← card_live, ← card_live, hleft] at hcount
  rw [hset, Set.ncard_coe_finset]
  omega

end Arena

namespace Reclamation
variable {mode : Reclaim} {state : Reclamation} {id : Nat} {rest : List Nat} {task : Task}

theorem turn_of_none (hw : state.worklist = id :: rest) (hg : state.table.get? id = none) :
    state.turn mode = { state with worklist := rest } := by
  simp only [turn, hw, hg]

theorem turn_of_some (hw : state.worklist = id :: rest) (hg : state.table.get? id = some task) :
    state.turn mode =
      { table := { state.table with arena := state.table.arena.erase id }
        worklist := task.dependencies.reverse ++ rest
        removed := state.removed + 1
        notices := state.notices ++ [mode.notice id task] } := by
  simp only [turn, hw, hg]

/-- A removal that is all done: nothing waits, and `reclaim` has taken from `before` what was to go. -/
structure Completes (before after : Reclamation) : Prop where
  worklist : after.worklist = []
  table : after.table = { before.table with arena := (before.table.arena.reclaim before.worklist).1 }
  removed : after.removed = before.removed + (before.table.arena.reclaim before.worklist).2

/-- A turn leaves to be removed what was to be removed before, less what it removed itself. -/
theorem Completes.of_turn {after : Reclamation} (h : (state.turn mode).Completes after) :
    state.Completes after := by
  obtain ⟨hworklist, htable, hremoved⟩ := h
  cases hw : state.worklist with
  | nil =>
    have hidle : state.turn mode = state := by simp only [turn, hw]
    rw [hidle] at htable hremoved
    exact ⟨hworklist, htable, hremoved⟩
  | cons id rest =>
    cases hg : state.table.get? id with
    | none =>
      rw [turn_of_none hw hg] at htable hremoved
      have hrest := Arena.reclaim_cons_of_none hg rest
      exact ⟨hworklist, by rw [htable, hw, hrest], by rw [hremoved, hw, hrest]⟩
    | some task =>
      rw [turn_of_some hw hg] at htable hremoved
      have hrest := Arena.reclaim_cons_of_some hg rest
      have horder : (state.table.arena.erase id).reclaim (task.dependencies.reverse ++ rest) =
          (state.table.arena.erase id).reclaim (task.dependencies ++ rest) :=
        Arena.reclaim_congr (by simp) _
      refine ⟨hworklist, by rw [htable, hw, hrest, horder], ?_⟩
      rw [hremoved, hw, hrest, horder]
      exact Nat.succ_add_eq_add_succ ..

theorem completes_finish (mode : Reclaim) (state : Reclamation) :
    state.Completes (state.finish mode) := by
  fun_induction finish mode state with
  | case1 state hw => exact ⟨hw, by rw [hw, Arena.reclaim], by rw [hw, Arena.reclaim, Nat.add_zero]⟩
  | case2 state hw ih => exact ih.of_turn

theorem exists_turns (mode : Reclaim) (state : Reclamation) :
    ∃ turns ≤ state.weight, (turn mode)^[turns] state = state.finish mode := by
  fun_induction finish mode state with
  | case1 state hw => exact ⟨0, Nat.zero_le _, rfl⟩
  | case2 state hw ih =>
    obtain ⟨turns, hle, hturns⟩ := ih
    have hlt := weight_turn_lt mode hw
    exact ⟨turns + 1, by omega, hturns⟩

end Reclamation

namespace TaskTable

/-- In either mode a removal leaves the same table. -/
theorem table_reclaimAs (mode : Reclaim) (table : TaskTable) (root : Nat) :
    (table.reclaimAs mode root).table = (table.reclaim root).2 :=
  (Reclamation.completes_finish mode (.start table root)).table

/-- A removal ends after few turns. It takes away the live tasks that can be reached from the root through
operands of live tasks, counts each of them once, and leaves the others, the next id and the mark alone.
The other mode takes away the same tasks. -/
theorem reclaim_exactly_reachable (table : TaskTable) (root : Nat) (mode : Reclaim) :
    (∃ turns ≤ 2 * table.size + 1,
      (Reclamation.turn mode)^[turns] (.start table root) = table.reclaimAs mode root) ∧
    (table.reclaimAs mode root).worklist = [] ∧
    (∀ id task, (table.reclaimAs mode root).table.get? id = some task ↔
      table.get? id = some task ∧ ¬ ReflTransGen table.arena.Refers root id) ∧
    (table.reclaimAs mode root).removed =
      {id | (∃ task, table.get? id = some task) ∧ ReflTransGen table.arena.Refers root id}.ncard ∧
    (table.reclaimAs mode root).table.nextId = table.nextId ∧
    (table.reclaimAs mode root).table.lowWater = table.lowWater ∧
    (∀ other, (table.reclaimAs other root).table = (table.reclaimAs mode root).table ∧
      (table.reclaimAs other root).removed = (table.reclaimAs mode root).removed) ∧
    table.reclaim root = ((table.reclaimAs mode root).removed, (table.reclaimAs mode root).table) := by
  classical
  have hcount (mode) : (table.reclaimAs mode root).removed = (table.arena.reclaim [root]).2 :=
    (Reclamation.completes_finish mode (.start table root)).removed.trans (Nat.zero_add _)
  have htable (mode) :
      (table.reclaimAs mode root).table = { table with arena := (table.arena.reclaim [root]).1 } :=
    (Reclamation.completes_finish mode (.start table root)).table
  refine ⟨Reclamation.exists_turns mode (.start table root),
    (Reclamation.completes_finish mode _).worklist, ?_, ?_, ?_, ?_, ?_, ?_⟩
  · intro id task
    have hleft := table.arena.get?_reclaim [root] id
    simp only [List.mem_singleton, exists_eq_left] at hleft
    have hget : (table.reclaimAs mode root).table.get? id = (table.arena.reclaim [root]).1.get? id := by
      rw [htable mode]
      rfl
    rw [hget, hleft]
    by_cases hr : ReflTransGen table.arena.Refers root id
    · simp [hr]
    · simp only [hr, if_false, not_false_eq_true, and_true]
      rfl
  · rw [hcount]
    exact table.arena.count_reclaim root
  · rw [htable]
  · rw [htable]
  · intro other
    exact ⟨(htable other).trans (htable mode).symm, (hcount other).trans (hcount mode).symm⟩
  · rw [hcount, htable]
    rfl

/-- Two tasks that read from each other go together, and each counts once; task 9 is gone already. -/
example :
    let first : Task :=
      { id := 1, left := .reference 2, operator := .add, right := .reference 9, duration := 10, owner := "a" }
    let second : Task :=
      { id := 2, left := .reference 1, operator := .mul, right := .reference 1, duration := 10, owner := "a" }
    let table : TaskTable := { arena := (Arena.empty.insert first).insert second, nextId := 3 }
    (table.reclaimAs .cancel 1).removed = 2 := by
  decide +kernel

end TaskTable

end ArithDispatch
