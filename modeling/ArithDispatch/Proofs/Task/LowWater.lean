import ArithDispatch.Proofs.Task.Reclamation
import Mathlib.Data.Finset.Max

/-! The low-water mark under operations on the table in any order. The mark is looked for upwards from its old
place only. What is found there is right for the whole table, since nothing below a mark is ever unfinished
again. -/
namespace ArithDispatch

/-- What a task table can go through. -/
inductive TableOperation where
  | commit (graph : Formula.Graph) (owner : String) (durations : OperationDurations)
  | advance
  | reclaim (mode : Reclaim) (root : Nat)
  /-- Changes a live task where it is. -/
  | change (id : Nat) (update : Task → Task)

namespace TaskTable
variable {table : TaskTable} {id : Nat} {operations front back : List TableOperation}

def perform (table : TaskTable) : TableOperation → TaskTable
  | .commit graph owner durations => (table.commit graph owner durations).2
  | .advance => table.advance
  | .reclaim mode root => (table.reclaimAs mode root).table
  | .change id update => table.modify id update

def run (table : TaskTable) (operations : List TableOperation) : TaskTable :=
  operations.foldl perform table

/-- A committed graph has nodes, and a change leaves a completed task completed. -/
def Admits (table : TaskTable) : TableOperation → Prop
  | .commit graph _ _ => graph.nodes ≠ []
  | .change id update => ∀ task ∈ table.get? id, task.isDone = true → (update task).isDone = true
  | .advance | .reclaim _ _ => True

instance (table : TaskTable) : (operation : TableOperation) → Decidable (table.Admits operation)
  | .commit graph _ _ => inferInstanceAs (Decidable (graph.nodes ≠ []))
  | .change id update => inferInstanceAs
      (Decidable (∀ task ∈ table.get? id, task.isDone = true → (update task).isDone = true))
  | .advance | .reclaim _ _ => inferInstanceAs (Decidable True)

/-- Every operation is admitted by the table that it comes to. -/
def AdmitsAll (table : TaskTable) : List TableOperation → Prop
  | [] => True
  | operation :: rest => table.Admits operation ∧ (table.perform operation).AdmitsAll rest

instance decidableAdmitsAll : (table : TaskTable) → (operations : List TableOperation) →
    Decidable (table.AdmitsAll operations)
  | _, [] => inferInstanceAs (Decidable True)
  | table, operation :: rest =>
    have := decidableAdmitsAll (table.perform operation) rest
    inferInstanceAs (Decidable (_ ∧ _))

theorem perform_reclaim (table : TaskTable) (mode : Reclaim) (root : Nat) :
    table.perform (.reclaim mode root) = (table.reclaim root).2 :=
  table_reclaimAs mode table root

theorem run_append (table : TaskTable) (front back : List TableOperation) :
    table.run (front ++ back) = (table.run front).run back :=
  List.foldl_append

theorem admitsAll_append :
    table.AdmitsAll (front ++ back) ↔ table.AdmitsAll front ∧ (table.run front).AdmitsAll back := by
  induction front generalizing table with
  | nil => exact (and_iff_right trivial).symm
  | cons operation rest ih =>
    rw [List.cons_append, AdmitsAll, ih, AdmitsAll, and_assoc]
    rfl

/-- The ids of the live tasks that are not completed. -/
def unfinished (table : TaskTable) : Finset Nat := table.arena.ids fun task => !task.isDone

theorem mem_unfinished : id ∈ table.unfinished ↔ ∃ task, table.get? id = some task ∧ task.isDone = false := by
  simp only [unfinished, Arena.mem_ids, Bool.not_eq_true', get?]

@[simp] theorem unfinished_advance (table : TaskTable) : table.advance.unfinished = table.unfinished := by
  ext id
  simp only [mem_unfinished, get?_advance]

/-- The mark and all live ids lie between one and the next id, and below the mark all is completed or gone. -/
structure Marked (table : TaskTable) : Prop where
  one_le_mark : 1 ≤ table.lowWater
  mark_le : table.lowWater ≤ table.nextId
  one_le : ∀ id task, table.get? id = some task → 1 ≤ id
  bounded : ∀ id task, table.get? id = some task → id < table.nextId
  done : ∀ id task, table.get? id = some task → id < table.lowWater → task.isDone = true

namespace Marked

theorem fresh : Marked {} where
  one_le_mark := Nat.le_refl 1
  mark_le := Nat.le_refl 1
  one_le id task hg := by cases hg
  bounded id task hg := by cases hg
  done id task hg := by cases hg

theorem commit (h : table.Marked) (graph : Formula.Graph) (owner : String) (durations : OperationDurations) :
    (table.commit graph owner durations).2.Marked where
  one_le_mark := h.one_le_mark
  mark_le := Nat.le_add_right_of_le h.mark_le
  one_le id task hg := by
    rcases get?_commit_cases h.bounded hg with ⟨_, hg⟩ | ⟨i, _, rfl, _, _⟩
    · exact h.one_le id task hg
    · exact Nat.le_add_right_of_le (h.one_le_mark.trans h.mark_le)
  bounded _ _ hg := lt_nextId_commit h.bounded hg
  done _ _ hg hlt := isDone_of_lt_commit h.bounded h.mark_le h.done hg hlt

theorem le_advance (h : table.Marked) : table.lowWater ≤ table.advance.lowWater := by
  rcases table.lowWater_advance with ⟨task, hg, hd⟩ | he
  · by_contra hlt
    rw [h.done _ task hg (Nat.lt_of_not_le hlt)] at hd
    cases hd
  · exact he ▸ h.mark_le

theorem advance (h : table.Marked) : table.advance.Marked where
  one_le_mark := h.one_le_mark.trans h.le_advance
  mark_le := by
    rw [nextId_advance]
    exact lowWater_advance_le h.bounded
  one_le id task hg := h.one_le id task (by rwa [get?_advance] at hg)
  bounded id task hg := by
    rw [get?_advance] at hg
    rw [nextId_advance]
    exact h.bounded id task hg
  done id task hg hlt := isDone_of_lt_advance h.done (by rwa [get?_advance] at hg) hlt

/-- What is live afterwards was live before, and is completed if it was completed then. -/
theorem of_live {after : TaskTable} (h : table.Marked) (hn : after.nextId = table.nextId)
    (hl : after.lowWater = table.lowWater)
    (hlive : ∀ id task, after.get? id = some task →
      ∃ before, table.get? id = some before ∧ (before.isDone = true → task.isDone = true)) :
    after.Marked where
  one_le_mark := hl ▸ h.one_le_mark
  mark_le := hl ▸ hn ▸ h.mark_le
  one_le id task hg := by
    obtain ⟨before, hbefore, _⟩ := hlive id task hg
    exact h.one_le id before hbefore
  bounded id task hg := by
    obtain ⟨before, hbefore, _⟩ := hlive id task hg
    exact hn ▸ h.bounded id before hbefore
  done id task hg hlt := by
    obtain ⟨before, hbefore, hdone⟩ := hlive id task hg
    exact hdone (h.done id before hbefore (hl ▸ hlt))

/-- Tasks may go on either side of the mark. -/
theorem reclaim (h : table.Marked) (root : Nat) : (table.reclaim root).2.Marked :=
  h.of_live rfl rfl fun _ task hg => ⟨task, Arena.get?_of_reclaim hg, fun hd => hd⟩

theorem change (h : table.Marked) {update : Task → Task}
    (hu : ∀ task ∈ table.get? id, task.isDone = true → (update task).isDone = true) :
    (table.modify id update).Marked := by
  refine h.of_live rfl rfl fun other changed hg => ?_
  rw [get?_modify, Option.map_eq_some_iff] at hg
  obtain ⟨before, hbefore, rfl⟩ := hg
  refine ⟨before, hbefore, fun hd => ?_⟩
  split
  · next he => exact hu before (he ▸ hbefore) hd
  · exact hd

theorem perform (h : table.Marked) {operation : TableOperation} (ha : table.Admits operation) :
    (table.perform operation).Marked := by
  cases operation with
  | commit graph owner durations => exact h.commit graph owner durations
  | advance => exact h.advance
  | reclaim mode root => exact perform_reclaim table mode root ▸ h.reclaim root
  | change id update => exact h.change ha

/-- No operation moves the mark back. -/
theorem le_perform (h : table.Marked) (operation : TableOperation) :
    table.lowWater ≤ (table.perform operation).lowWater := by
  cases operation with
  | commit graph owner durations => exact Nat.le_refl _
  | advance => exact h.le_advance
  | reclaim mode root => exact Nat.le_of_eq (congrArg lowWater (perform_reclaim table mode root)).symm
  | change id update => exact Nat.le_refl _

theorem run (h : table.Marked) (ha : table.AdmitsAll operations) :
    (table.run operations).Marked ∧ table.lowWater ≤ (table.run operations).lowWater := by
  induction operations generalizing table with
  | nil => exact ⟨h, Nat.le_refl _⟩
  | cons operation rest ih =>
    obtain ⟨hmarked, hle⟩ := ih (h.perform ha.1) ha.2
    exact ⟨hmarked, (h.le_perform operation).trans hle⟩

/-- The old mark leaves no trace in the new one, which is the first unfinished task or, without one, the next
id. -/
theorem lowWater_advance_eq (h : table.Marked) :
    table.advance.lowWater = table.unfinished.min.untopD table.nextId := by
  -- nothing unfinished lies below the old mark, so the search from there passes over nothing
  have hfirst : ∀ id ∈ table.unfinished, table.advance.lowWater ≤ id := by
    intro id hm
    obtain ⟨task, hg, hd⟩ := mem_unfinished.mp hm
    by_contra hlt
    rw [isDone_of_lt_advance h.done hg (Nat.lt_of_not_le hlt)] at hd
    cases hd
  rcases table.lowWater_advance with hunfinished | he
  · have hleast : table.unfinished.min = WithTop.some table.advance.lowWater :=
      le_antisymm (Finset.min_le (mem_unfinished.mpr hunfinished))
        (Finset.le_min fun id hm => WithTop.coe_le_coe.mpr (hfirst id hm))
    rw [hleast, WithTop.untopD_coe]
  · have hnone : table.unfinished = ∅ := by
      refine Finset.eq_empty_of_forall_notMem fun id hm => ?_
      obtain ⟨task, hg, _⟩ := mem_unfinished.mp hm
      exact absurd (h.bounded id task hg) (Nat.not_lt.mpr (he ▸ hfirst id hm))
    rw [hnone, Finset.min_empty, WithTop.untopD_top, he]

theorem advance_eq (h : table.Marked) :
    table.advance = { table with lowWater := table.unfinished.min.untopD table.nextId } := by
  rw [← h.lowWater_advance_eq]
  exact table.advance_eq

theorem advance_advance (h : table.Marked) : table.advance.advance = table.advance := by
  have hmark : table.advance.advance.lowWater = table.advance.lowWater := by
    rw [h.advance.lowWater_advance_eq, unfinished_advance, nextId_advance, ← h.lowWater_advance_eq]
  rw [table.advance.advance_eq, hmark]

end Marked

/-- The low-water mark is sound for ever. Whatever is done to the table from its beginning on, the mark has not
moved back since any earlier moment, and it lies between one and the next id, as every live id does. What lives
below the mark of any moment is completed, then and from then on. To advance the mark is to put it at the first
task of the whole table that is not completed, or at the next id if there is none, and to do nothing else; to do
so twice is to do so once. -/
theorem low_water_sound_for_ever (h : AdmitsAll {} (front ++ back)) :
    let earlier := run {} front
    let table := run {} (front ++ back)
    earlier.lowWater ≤ table.lowWater ∧
    1 ≤ table.lowWater ∧ table.lowWater ≤ table.nextId ∧
    (∀ id task, table.get? id = some task → 1 ≤ id ∧ id < table.nextId) ∧
    (∀ id task, table.get? id = some task → id < table.lowWater → task.isDone = true) ∧
    (∀ id task, table.get? id = some task → id < earlier.lowWater → task.isDone = true) ∧
    table.advance = { table with lowWater := table.unfinished.min.untopD table.nextId } ∧
    table.advance.advance = table.advance := by
  intro earlier table
  obtain ⟨hfront, hback⟩ := admitsAll_append.mp h
  have hearlier : earlier.Marked := (Marked.fresh.run hfront).1
  obtain ⟨hmarked, hle⟩ := hearlier.run hback
  rw [← run_append] at hmarked hle
  refine ⟨hle, hmarked.one_le_mark, hmarked.mark_le, fun id task hg => ?_, hmarked.done,
    fun id task hg hlt => ?_, hmarked.advance_eq, hmarked.advance_advance⟩
  · exact ⟨hmarked.one_le id task hg, hmarked.bounded id task hg⟩
  · exact hmarked.done id task hg (Nat.lt_of_lt_of_le hlt hle)

/-- A product is completed after its sum, and the mark goes past it to the next id. A difference comes there
before the product is freed together with the sum, and so the mark stays at the difference. -/
theorem mark_past_freed_product :
    let one : Operand := .literal .one
    let three : Operand := .literal .three
    let product : Formula.Graph := ⟨[⟨one, .add, one⟩, ⟨.reference 0, .mul, three⟩]⟩
    let difference : Formula.Graph := ⟨[⟨three, .sub, one⟩]⟩
    let complete (task : Task) : Task := { task with status := .completed }
    let front : List TableOperation := [.commit product "a" {}, .change 1 complete, .advance]
    let back : List TableOperation :=
      [.change 2 complete, .advance, .commit difference "b" {}, .reclaim .free 2]
    let table := run {} (front ++ back)
    AdmitsAll {} (front ++ back) ∧ (run {} front).lowWater = 2 ∧ table.nextId = 4 ∧ table.size = 1 ∧
      2 ≤ table.lowWater ∧ table.advance.lowWater = 3 ∧ table.advance.advance = table.advance := by
  intro one three product difference complete front back table
  have hadmitted : AdmitsAll {} (front ++ back) := by decide +kernel
  have hmark : (run {} front).lowWater = 2 := by decide +kernel
  obtain ⟨hle, _, _, _, _, _, hadvance, htwice⟩ := low_water_sound_for_ever hadmitted
  have hleast : table.unfinished.min.untopD table.nextId = 3 := by decide +kernel
  exact ⟨hadmitted, hmark, by decide +kernel, by decide +kernel, hmark ▸ hle,
    (congrArg lowWater hadvance).trans hleast, htwice⟩

end TaskTable

end ArithDispatch
