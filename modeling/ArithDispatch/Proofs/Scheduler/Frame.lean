import ArithDispatch.Proofs.Expression.Status
import ArithDispatch.Proofs.Scheduler.History
import ArithDispatch.Proofs.Scheduler.Progress

/-! What an operation leaves alone: the settings, the ids that were given out and the records that exist,
and all that belongs to expressions other than the one it works on. -/
namespace ArithDispatch.Scheduler
variable {s t u : Scheduler} {task : Task} {now : Nat} {owner : String}

structure Extends (s t : Scheduler) : Prop where
  durations : t.durations = s.durations
  lease : t.lease = s.lease
  next : s.table.nextId ≤ t.table.nextId
  records : ∀ owner, t.registry.find? owner = none → s.registry.find? owner = none

namespace Extends

theorem refl (s : Scheduler) : Extends s s := ⟨rfl, rfl, Nat.le_refl _, fun _ h => h⟩

theorem trans (h : Extends s t) (h' : Extends t u) : Extends s u :=
  ⟨h'.durations.trans h.durations, h'.lease.trans h.lease, Nat.le_trans h.next h'.next,
    fun owner hn => h.records owner (h'.records owner hn)⟩

theorem advance (s : Scheduler) : Extends s { s with table := s.table.advance } :=
  ⟨rfl, rfl, Nat.le_of_eq s.table.nextId_advance.symm, fun _ h => h⟩

theorem invalidate (s : Scheduler) (task : Task) (obstacle : Obstacle) :
    Extends s (s.invalidate task obstacle) := by
  refine ⟨rfl, rfl, ?_, fun _ => Registry.find?_eq_none_of_moveTo⟩
  simp only [Scheduler.invalidate]
  split <;> exact Nat.le_refl _

theorem dispatch (s : Scheduler) (now : Nat) (task : Task) (left right : Binary64) (redispatch : Bool) :
    Extends s (s.dispatch now task left right redispatch).2 := by
  have hn : (s.dispatch now task left right redispatch).2.table.nextId = s.table.nextId :=
    nextId_freeAll ..
  refine ⟨rfl, rfl, Nat.le_of_eq hn.symm, fun other ho => ?_⟩
  refine @Registry.find?_eq_none_of_moveTo s.registry task.owner other .calculating ?_
  rwa [← Registry.markCalculating_eq_moveTo]

theorem accept (s : Scheduler) (owner source : String) (compiled : Formula.Compiled) :
    Extends s (s.accept owner source compiled).2 := by
  have records : ∀ {after : Registry} {record : ExpressionRecord},
      (∀ other, after.find? other = if other = owner then some record else s.registry.find? other) →
      ∀ other, after.find? other = none → s.registry.find? other = none := by
    intro after record hf other hn
    rw [hf] at hn
    split at hn
    · cases hn
    · exact hn
  cases compiled with
  | literal value =>
    simp only [Scheduler.accept]
    split
    · exact .refl s
    · next hr => exact ⟨rfl, rfl, Nat.le_refl _, records (Registry.find?_register hr)⟩
  | graph graph =>
    simp only [Scheduler.accept]
    split
    · exact .refl s
    · split
      · exact .refl s
      · next hr =>
        refine ⟨rfl, rfl, ?_, records (Registry.find?_register hr)⟩
        rw [(Registry.register_eq_some hr).2.1]
        exact Nat.le_add_right _ _

theorem record (s : Scheduler) (id : Nat) (value : Binary64) : Extends s (s.record id value) :=
  ⟨rfl, rfl, Nat.le_refl _, fun _ h => h⟩

theorem finishRoot (s : Scheduler) (task : Task) (value : Binary64) :
    Extends s (s.finishRoot task value) := by
  unfold Scheduler.finishRoot
  split
  · exact ⟨rfl, rfl, Nat.le_refl _, fun _ => Registry.find?_eq_none_of_moveTo⟩
  · exact .refl s

theorem report (s : Scheduler) (id : Nat) (value : Binary64) : Extends s (s.report id value).2 := by
  have refused : Extends s s.refuse := ⟨rfl, rfl, Nat.le_refl _, fun _ h => h⟩
  unfold Scheduler.report
  split
  · exact .refl s
  · split
    · exact refused
    · split
      · exact refused
      · next task _ _ _ => exact (Extends.record s id value).trans (.finishRoot _ task value)

theorem scanning (h : Coherent s) {cursor : Nat} (hs : Scanning now s t cursor) : Extends s t := by
  induction hs with
  | start => exact .advance s
  | sweep hs ha => exact absurd ha (h.scanning hs).nextAttention_ne_sweep
  | invalidate _ _ ih => exact ih.trans (.invalidate ..)

theorem poison (h : Extends s t) : Extends s t.poison := ⟨h.durations, h.lease, h.next, h.records⟩

theorem pull (h : Coherent s) (now : Nat) : Extends s (s.pull now).2 := by
  rcases h.pull_cases now with
    ⟨outcome, t, hf, he⟩ | ⟨t, cursor, task, left, right, hs, _, _, _, _, _, he⟩
  · rw [he]
    exact hf.elim (.refl s) (fun hs => .scanning h hs) fun h => h.poison
  · rw [he]
    exact (Extends.scanning h hs).trans (.dispatch ..)

theorem perform (h : Coherent s) (action : Action) : Extends s (s.perform action) := by
  cases action with
  | accept owner source compiled => exact .accept ..
  | pull now => exact .pull h now
  | report id value => exact .report ..

theorem run (h : Coherent s) {actions : List Action} (ha : ∀ action ∈ actions, action.Admissible) :
    Extends s (s.run actions) :=
  h.run_induction (motive := fun _ t => Extends s t) ha [] (.refl s) fun hc _ hext => hext.trans (.perform hc _)

end Extends

/-- `t` comes from `s` by work on tasks of other expressions than the given one. -/
structure Frame (owner : String) (s t : Scheduler) : Prop where
  durations : t.durations = s.durations
  lease : t.lease = s.lease
  lock : t.poisoned = s.poisoned
  next : t.table.nextId = s.table.nextId
  record : t.registry.find? owner = s.registry.find? owner
  tasks : ∀ id, (t.table.get? id).filter (·.owner == owner) = (s.table.get? id).filter (·.owner == owner)
  live : ∀ id task, t.table.get? id = some task → ∃ old, s.table.get? id = some old ∧ old.owner = task.owner

namespace Frame

theorem status? (f : Frame owner s t) : t.registry.status? owner = s.registry.status? owner := by
  rw [Registry.status?, f.record, Registry.status?]

theorem refl (owner : String) (s : Scheduler) : Frame owner s s :=
  ⟨rfl, rfl, rfl, rfl, rfl, fun _ => rfl, fun _ task hg => ⟨task, hg, rfl⟩⟩

theorem refuse (owner : String) (s : Scheduler) : Frame owner s s.refuse :=
  ⟨rfl, rfl, rfl, rfl, rfl, fun _ => rfl, fun _ task hg => ⟨task, hg, rfl⟩⟩

/-- The tasks under some ids may change or go when none of them is the expression's. -/
theorem of_get? (hdurations : t.durations = s.durations) (hlease : t.lease = s.lease)
    (hlock : t.poisoned = s.poisoned) (hnext : t.table.nextId = s.table.nextId)
    (hrecord : t.registry.find? owner = s.registry.find? owner)
    (hget : ∀ id, t.table.get? id = s.table.get? id ∨ ∃ old, s.table.get? id = some old ∧
      old.owner ≠ owner ∧ ∀ task, t.table.get? id = some task → task.owner = old.owner) :
    Frame owner s t := by
  refine ⟨hdurations, hlease, hlock, hnext, hrecord, fun id => ?_, fun id task hg => ?_⟩
  · rcases hget id with he | ⟨old, hold, hne, hnew⟩
    · rw [he]
    · rw [hold, Option.filter_some_neg (by simpa using hne)]
      cases hg : t.table.get? id with
      | none => rfl
      | some task => rw [Option.filter_some_neg (by simpa [hnew task hg] using hne)]
  · rcases hget id with he | ⟨old, hold, _, hnew⟩
    · exact ⟨task, he ▸ hg, rfl⟩
    · exact ⟨old, hold, (hnew task hg).symm⟩

/-- Another expression is closed, and its tasks go. -/
theorem of_closed (hdurations : t.durations = s.durations) (hlease : t.lease = s.lease)
    (hlock : t.poisoned = s.poisoned) (hnext : t.table.nextId = s.table.nextId)
    (hrecord : t.registry.find? owner = s.registry.find? owner) {other : String} (hne : other ≠ owner)
    (hget : ∀ id, t.table.get? id = (s.table.get? id).filter (·.owner != other)) : Frame owner s t := by
  refine .of_get? hdurations hlease hlock hnext hrecord fun id => ?_
  rw [hget]
  cases hg : s.table.get? id with
  | none => exact .inl rfl
  | some old =>
    by_cases he : old.owner = other
    · refine .inr ⟨old, rfl, he ▸ hne, fun task ht => ?_⟩
      rw [Option.filter_some_neg (by simp [he])] at ht
      cases ht
    · exact .inl (Option.filter_some_pos (by simpa using he))

theorem invalidate (h : Coherent s) (hg : s.table.get? task.id = some task) (hne : task.owner ≠ owner)
    (obstacle : Obstacle) : Frame owner s (s.invalidate task obstacle) := by
  refine .of_closed rfl rfl rfl ?_ (s.registry.find?_moveTo_of_ne hne.symm _) hne (get?_invalidate h hg obstacle)
  simp only [Scheduler.invalidate]
  split <;> rfl

theorem dispatch (h : Coherent s) (hg : s.table.get? task.id = some task) {left right : Binary64}
    (hl : s.table.readiness task.left = .ready left) (hr : s.table.readiness task.right = .ready right)
    (hne : task.owner ≠ owner) (now : Nat) (redispatch : Bool) :
    Frame owner s (s.dispatch now task left right redispatch).2 := by
  have hrecord : (s.registry.markCalculating task.owner).2.find? owner = s.registry.find? owner := by
    rw [Registry.markCalculating_eq_moveTo, Registry.find?_moveTo_of_ne _ hne.symm]
  refine .of_get? rfl rfl rfl (nextId_freeAll ..) hrecord fun id => ?_
  rw [get?_dispatch hg (fun dep hm => (h.reads task.id task dep hg hm).1) (h.leaf_of_ready hl hr)]
  split
  · next hid =>
    refine .inr ⟨task, hid ▸ hg, hne, fun other ho => ?_⟩
    exact (Option.some.inj ho) ▸ rfl
  · split
    · next hdep =>
      obtain ⟨_, old, hold, hsame⟩ := h.reads task.id task id hg hdep
      exact .inr ⟨old, hold, hsame ▸ hne, fun _ ht => by cases ht⟩
    · exact .inl rfl

theorem report (h : Coherent s) {id : Nat} (hne : ∀ task, s.table.get? id = some task → task.owner ≠ owner)
    (value : Binary64) : Frame owner s (s.report id value).2 := by
  have hext := Extends.report s id value
  have hlock := s.poisoned_report id value
  rcases h.report_cases id value with
    ⟨failure, t, hf, he⟩ | ⟨task, rfl, hg, hp, ⟨_, he⟩ | ⟨t, ho, he, hreg, hget, hn, _⟩⟩
  · rw [he]
    exact hf.elim (.refl owner s) (.refuse owner s)
  · rw [he]
    refine .of_get? rfl rfl rfl rfl rfl fun id => ?_
    rw [get?_record hg]
    split
    · next hid =>
      refine .inr ⟨task, hid ▸ hg, hne task hg, fun other ho => ?_⟩
      exact (Option.some.inj ho) ▸ rfl
    · exact .inl rfl
  · rw [he] at hext hlock ⊢
    refine .of_closed hext.durations hext.lease hlock hn ?_ (hne task hg) hget
    rw [hreg]
    exact s.registry.find?_moveTo_of_ne (hne task hg).symm _

end Frame

end ArithDispatch.Scheduler
