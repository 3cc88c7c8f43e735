import ArithDispatch.Proofs.Task.Table
import Mathlib.Data.Finset.Card
import Mathlib.Order.Interval.Finset.Nat

/-! How many tasks are live. What a removal counts is what it takes away, and a commit adds one task for each
node. -/
namespace ArithDispatch

namespace Arena

/-- The ids of the live tasks with a property. -/
def ids (arena : Arena) (p : Task → Bool) : Finset Nat :=
  ((arena.tasks.filter p).map Task.id).toFinset

variable {arena : Arena} {p : Task → Bool} {id : Nat}

theorem mem_ids : id ∈ arena.ids p ↔ ∃ task, arena.get? id = some task ∧ p task = true := by
  simp only [ids, List.mem_toFinset, List.mem_map, List.mem_filter, mem_tasks_iff]
  constructor
  · rintro ⟨task, ⟨hg, hp⟩, rfl⟩
    exact ⟨task, hg, hp⟩
  · rintro ⟨task, hg, hp⟩
    have hid := id_of_get? hg
    exact ⟨task, ⟨hid.symm ▸ hg, hp⟩, hid⟩

theorem card_ids (arena : Arena) (p : Task → Bool) : (arena.ids p).card = arena.tasks.countP p := by
  have hnodup : ((arena.tasks.filter p).map Task.id).Nodup :=
    List.pairwise_map.mpr ((arena.ascending.filter p).imp Nat.ne_of_lt)
  rw [ids, List.toFinset_card_of_nodup hnodup, List.length_map, List.countP_eq_length_filter]

theorem card_live (arena : Arena) : (arena.ids fun _ => true).card = arena.size := by
  rw [card_ids, List.countP_true]
  rfl

theorem size_erase {task : Task} (h : arena.get? id = some task) :
    (arena.erase id).size + 1 = arena.size := by
  have hids : (arena.erase id).ids (fun _ => true) = (arena.ids fun _ => true).erase id := by
    ext other
    rw [mem_ids, Finset.mem_erase, mem_ids, get?_erase]
    by_cases he : other = id <;> simp [he]
  rw [← card_live, ← card_live, hids]
  exact Finset.card_erase_add_one (mem_ids.mpr ⟨task, h, rfl⟩)

/-- A removal counts every task that it takes away, and counts it once. -/
theorem size_reclaim (arena : Arena) (ids : List Nat) :
    (arena.reclaim ids).2 + (arena.reclaim ids).1.size = arena.size := by
  fun_induction reclaim arena ids with
  | case1 arena => exact Nat.zero_add _
  | case2 arena id rest absent ih => exact ih
  | case3 arena id rest task live remaining count result ih =>
    rw [result] at ih
    have herase := size_erase live
    simp only at ih ⊢
    omega

end Arena

namespace TaskTable
variable {table : TaskTable} {graph : Formula.Graph} {owner : String} {durations : OperationDurations}

/-- The ids of the live tasks. -/
def liveIds (table : TaskTable) : Finset Nat := table.arena.ids fun _ => true

theorem mem_liveIds {id : Nat} : id ∈ table.liveIds ↔ ∃ task, table.get? id = some task := by
  simp only [liveIds, Arena.mem_ids, and_true]
  rfl

theorem card_liveIds (table : TaskTable) : table.liveIds.card = table.size :=
  table.arena.card_live

theorem card_inProgress (table : TaskTable) :
    (table.arena.ids Task.isInProgress).card = table.inProgress :=
  table.arena.card_ids Task.isInProgress

theorem size_reclaim (table : TaskTable) (id : Nat) :
    (table.reclaim id).1 + (table.reclaim id).2.size = table.size :=
  table.arena.size_reclaim [id]

theorem size_advance (table : TaskTable) : table.advance.size = table.size := by
  unfold advance
  split <;> rfl

theorem size_modify (table : TaskTable) (id : Nat) (change : Task → Task) :
    (table.modify id change).size = table.size :=
  table.arena.size_modify id change

/-- A commit adds one task for each node. -/
theorem size_commit (h : ∀ id task, table.get? id = some task → id < table.nextId) :
    (table.commit graph owner durations).2.size = table.size + graph.size := by
  have hlive : (table.commit graph owner durations).2.liveIds =
      table.liveIds ∪ Finset.Ico table.nextId (table.nextId + graph.size) := by
    ext id
    rw [Finset.mem_union, mem_liveIds, mem_liveIds, Finset.mem_Ico]
    rcases Nat.lt_or_ge id table.nextId with hlt | hge
    · rw [get?_commit_of_lt hlt]
      simp [Nat.not_le.mpr hlt]
    · obtain ⟨i, rfl⟩ := Nat.exists_eq_add_of_le hge
      rw [get?_commit_add h]
      have hnone : ¬ ∃ task, table.get? (table.nextId + i) = some task := by
        rintro ⟨task, hg⟩
        have := h _ task hg
        omega
      rw [or_iff_right hnone, ← Option.isSome_iff_exists, Option.isSome_map]
      simp [Formula.Graph.size]
  have hdisjoint : Disjoint table.liveIds (Finset.Ico table.nextId (table.nextId + graph.size)) := by
    refine Finset.disjoint_left.mpr fun id hm hnew => ?_
    obtain ⟨task, hg⟩ := mem_liveIds.mp hm
    exact absurd (h id task hg) (Nat.not_lt.mpr (Finset.mem_Ico.mp hnew).1)
  rw [← card_liveIds, hlive, Finset.card_union_of_disjoint hdisjoint, card_liveIds, Nat.card_Ico,
    Nat.add_sub_cancel_left]

end TaskTable

end ArithDispatch
