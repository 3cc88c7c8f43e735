import ArithDispatch.Proofs.Expression.Registry
import ArithDispatch.Proofs.Formula.Shape
import ArithDispatch.Proofs.Scheduler.Scan

/-! The invariant of the scheduler: the live tasks of an open expression form one tree, in which what
is read lies below what reads it, and nothing else is live. -/
namespace ArithDispatch.Scheduler

structure Coherent (s : Scheduler) : Prop where
  regular : s.registry.Regular
  /-- A live task belongs to an open expression and does not come behind its root. -/
  owned : ∀ id task, s.table.get? id = some task →
    ∃ root, s.registry.openRoot? task.owner = some root ∧ id ≤ root
  /-- The root of an open expression is live and not completed. -/
  rooted : ∀ owner root, s.registry.openRoot? owner = some root →
    ∃ task, s.table.get? root = some task ∧ task.owner = owner ∧ task.isDone = false
  /-- An operand that is still to be read is a live task further down in the same expression. -/
  reads : ∀ id task dep, s.table.get? id = some task → dep ∈ task.dependencies →
    dep < id ∧ ∃ other, s.table.get? dep = some other ∧ other.owner = task.owner
  /-- A live task that is no root is still to be read. -/
  used : ∀ id task, s.table.get? id = some task → s.registry.openRoot? task.owner ≠ some id →
    ∃ user, s.table.arena.Refers user id
  used_once : ∀ id user other, s.table.arena.Refers user id → s.table.arena.Refers other id →
    user = other
  distinct : ∀ id task, s.table.get? id = some task → task.dependencies.Nodup
  /-- A task that was handed out has all its operands. -/
  settled : ∀ id task, s.table.get? id = some task → task.status ≠ .pending → task.dependencies = []
  untried : ∀ id task, s.table.get? id = some task → task.status = .pending → task.attempts = 0
  bounded : ∀ id task, s.table.get? id = some task → id < s.table.nextId
  marked : ∀ id task, s.table.get? id = some task → id < s.table.lowWater → task.isDone = true
  mark_le : s.table.lowWater ≤ s.table.nextId

namespace Coherent
variable {s t : Scheduler}

theorem fresh (durations : OperationDurations) (lease : Option Duration) :
    Coherent { durations, lease } where
  regular := .empty
  owned id task hg := by cases hg
  rooted owner root ho := by cases ho
  reads id task dep hg := by cases hg
  used id task hg := by cases hg
  used_once id user other hr := by
    obtain ⟨task, hg, _⟩ := hr
    cases hg
  distinct id task hg := by cases hg
  settled id task hg := by cases hg
  untried id task hg := by cases hg
  bounded id task hg := by cases hg
  marked id task hg := by cases hg
  mark_le := Nat.le_refl 1

theorem not_refers_of_settled (h : Coherent s) {id : Nat} {task : Task}
    (hg : s.table.get? id = some task) (hs : task.status ≠ .pending) (dep : Nat) :
    ¬ s.table.arena.Refers id dep := by
  rintro ⟨other, ho, hd⟩
  obtain rfl : task = other := Option.some.inj (hg.symm.trans ho)
  rw [h.settled id task hg hs] at hd
  cases hd

/-- Every live task is reached from the root of its expression. -/
theorem reaches (h : Coherent s) {id root : Nat} {task : Task} (hg : s.table.get? id = some task)
    (ho : s.registry.openRoot? task.owner = some root) :
    Relation.ReflTransGen s.table.arena.Refers root id := by
  -- from the root downwards: what reads the task lies above it, and not above the root
  induction hk : root - id using Nat.strongRecOn generalizing id task with
  | ind k ih =>
    by_cases he : root = id
    · exact he ▸ .refl
    · obtain ⟨user, reader, hu, hd⟩ := h.used id task hg (by rw [ho]; simpa using he)
      obtain ⟨hlt, other, hother, howner⟩ := h.reads user reader id hu hd
      obtain rfl : task = other := Option.some.inj (hg.symm.trans hother)
      obtain ⟨root', ho', hle⟩ := h.owned user reader hu
      rw [← howner, ho] at ho'
      cases ho'
      exact (ih (root - user) (by omega) hu (howner ▸ ho) rfl).tail ⟨reader, hu, hd⟩

theorem owner_of_reaches (h : Coherent s) {id root : Nat} {task last : Task}
    (hr : Relation.ReflTransGen s.table.arena.Refers root id) (hg : s.table.get? root = some task)
    (hl : s.table.get? id = some last) : last.owner = task.owner := by
  induction hr generalizing last with
  | refl =>
    obtain rfl : task = last := Option.some.inj (hg.symm.trans hl)
    rfl
  | tail _ step ih =>
    obtain ⟨reader, hm, hd⟩ := step
    obtain ⟨_, other, ho, howner⟩ := h.reads _ reader _ hm hd
    obtain rfl : last = other := Option.some.inj (hl.symm.trans ho)
    exact howner.trans (ih hm)

/-- To remove the root of an open expression is to remove its live tasks and no others. -/
theorem get?_reclaim_root (h : Coherent s) {owner : String} {root : Nat}
    (ho : s.registry.openRoot? owner = some root) (id : Nat) :
    (s.table.reclaim root).2.get? id = (s.table.get? id).filter (·.owner != owner) := by
  classical
  obtain ⟨top, hroot, htop, _⟩ := h.rooted owner root ho
  refine (s.table.arena.get?_reclaim [root] id).trans ?_
  simp only [List.mem_singleton, exists_eq_left]
  cases hg : s.table.get? id with
  | none =>
    rw [show s.table.arena.get? id = none from hg, ite_self]
    rfl
  | some task =>
    by_cases hsame : task.owner = owner
    · rw [if_pos (h.reaches hg (hsame ▸ ho))]
      rw [Option.filter_some_neg (by simp [hsame])]
    · rw [if_neg fun hr => hsame ((h.owner_of_reaches hr hroot hg).trans htop)]
      rw [show s.table.arena.get? id = some task from hg]
      rw [Option.filter_some_pos (by simp [hsame])]

/-- An expression is closed together with all its live tasks. -/
theorem close (h : Coherent s) (owner : String)
    (hg : ∀ id, t.table.get? id = (s.table.get? id).filter (·.owner != owner))
    (ho : ∀ other, t.registry.openRoot? other =
      if other = owner then none else s.registry.openRoot? other)
    (hr : t.registry.Regular) (hn : t.table.nextId = s.table.nextId)
    (hl : t.table.lowWater = s.table.lowWater) : Coherent t := by
  have live : ∀ {id task}, t.table.get? id = some task →
      s.table.get? id = some task ∧ task.owner ≠ owner := by
    intro id task hgt
    rw [hg, Option.filter_eq_some_iff] at hgt
    exact ⟨hgt.1, by simpa using hgt.2⟩
  have kept : ∀ {id task}, s.table.get? id = some task → task.owner ≠ owner →
      t.table.get? id = some task := by
    intro id task hgs hne
    rw [hg, hgs, Option.filter_some_pos (by simpa using hne)]
  have refers : ∀ {user id}, t.table.arena.Refers user id → s.table.arena.Refers user id := by
    rintro user id ⟨reader, hu, hd⟩
    exact ⟨reader, (live hu).1, hd⟩
  refine ⟨hr, ?owned, ?rooted, ?reads, ?used, ?used_once, ?distinct, ?settled,
    ?untried, ?bounded, ?marked, ?mark_le⟩
  case owned =>
    intro id task hgt
    obtain ⟨hgs, hne⟩ := live hgt
    obtain ⟨root, hroot, hle⟩ := h.owned id task hgs
    exact ⟨root, by rw [ho, if_neg hne, hroot], hle⟩
  case rooted =>
    intro other root hroot
    rw [ho] at hroot
    split at hroot
    · cases hroot
    · next hne =>
      obtain ⟨task, hgs, rfl, hd⟩ := h.rooted other root hroot
      exact ⟨task, kept hgs hne, rfl, hd⟩
  case reads =>
    intro id task dep hgt hd
    obtain ⟨hgs, hne⟩ := live hgt
    obtain ⟨hlt, other, hother, howner⟩ := h.reads id task dep hgs hd
    exact ⟨hlt, other, kept hother (howner ▸ hne), howner⟩
  case used =>
    intro id task hgt hroot
    obtain ⟨hgs, hne⟩ := live hgt
    rw [ho, if_neg hne] at hroot
    obtain ⟨user, reader, hu, hd⟩ := h.used id task hgs hroot
    obtain ⟨_, other, hother, howner⟩ := h.reads user reader id hu hd
    obtain rfl : task = other := Option.some.inj (hgs.symm.trans hother)
    exact ⟨user, reader, kept hu (howner ▸ hne), hd⟩
  case used_once =>
    exact fun id user other hu hv => h.used_once id user other (refers hu) (refers hv)
  case distinct =>
    exact fun id task hgt => h.distinct id task (live hgt).1
  case settled =>
    exact fun id task hgt => h.settled id task (live hgt).1
  case untried =>
    exact fun id task hgt => h.untried id task (live hgt).1
  case bounded =>
    exact fun id task hgt => hn ▸ h.bounded id task (live hgt).1
  case marked =>
    exact fun id task hgt hlt => h.marked id task (live hgt).1 (hl ▸ hlt)
  case mark_le =>
    exact hn ▸ hl ▸ h.mark_le

/-- A task gets all its operands, now or before, and the tasks that it read from are removed. -/
theorem settle (h : Coherent s) {task : Task} (next : Task)
    (hg : s.table.get? task.id = some task)
    (leaf : ∀ dep ∈ task.dependencies, ∀ id, ¬ s.table.arena.Refers dep id)
    (howner : next.owner = task.owner) (hdeps : next.dependencies = [])
    (hsent : next.status ≠ .pending)
    (hroot : next.isDone = true → s.registry.openRoot? task.owner ≠ some task.id)
    (hdone : task.isDone = true → next.isDone = true)
    (hget : ∀ id, t.table.get? id = if id = task.id then some next
      else if id ∈ task.dependencies then none else s.table.get? id)
    (ho : ∀ other, t.registry.openRoot? other = s.registry.openRoot? other)
    (hr : t.registry.Regular) (hn : t.table.nextId = s.table.nextId)
    (hl : t.table.lowWater = s.table.lowWater) : Coherent t := by
  have live : ∀ {id other}, t.table.get? id = some other →
      (id = task.id ∧ other = next) ∨
        (id ≠ task.id ∧ id ∉ task.dependencies ∧ s.table.get? id = some other) := by
    intro id other hgt
    rw [hget] at hgt
    split at hgt
    · next he => exact .inl ⟨he, (Option.some.inj hgt).symm⟩
    · next he =>
      split at hgt
      · cases hgt
      · next hd => exact .inr ⟨he, hd, hgt⟩
  have kept : ∀ {id other}, s.table.get? id = some other → id ≠ task.id →
      id ∉ task.dependencies → t.table.get? id = some other := by
    intro id other hgs he hd
    rw [hget, if_neg he, if_neg hd, hgs]
  have refers : ∀ {user id}, t.table.arena.Refers user id →
      user ≠ task.id ∧ s.table.arena.Refers user id := by
    rintro user id ⟨reader, hu, hd⟩
    rcases live hu with ⟨_, rfl⟩ | ⟨he, _, hu⟩
    · rw [hdeps] at hd
      cases hd
    · exact ⟨he, reader, hu, hd⟩
  refine ⟨hr, ?owned, ?rooted, ?reads, ?used, ?used_once, ?distinct, ?settled,
    ?untried, ?bounded, ?marked, ?mark_le⟩
  case owned =>
    intro id other hgt
    rw [ho]
    rcases live hgt with ⟨rfl, rfl⟩ | ⟨_, _, hgs⟩
    · exact howner ▸ h.owned _ task hg
    · exact h.owned id other hgs
  case rooted =>
    intro owner root hopen
    rw [ho] at hopen
    obtain ⟨top, htop, howns, hnd⟩ := h.rooted owner root hopen
    by_cases he : root = task.id
    · subst he
      obtain rfl : task = top := Option.some.inj (hg.symm.trans htop)
      refine ⟨next, by rw [hget, if_pos rfl], howner.trans howns, ?_⟩
      cases hd : next.isDone with
      | false => rfl
      | true => exact absurd (howns ▸ hopen) (hroot hd)
    · refine ⟨top, kept htop he fun hd => ?_, howns, hnd⟩
      -- what the task reads lies below the task, and so below the root
      obtain ⟨hlt, other, hother, hsame⟩ := h.reads task.id task root hg hd
      obtain rfl : top = other := Option.some.inj (htop.symm.trans hother)
      obtain ⟨root', hroot', hle⟩ := h.owned task.id task hg
      rw [← hsame, howns, hopen] at hroot'
      cases hroot'
      omega
  case reads =>
    intro id other dep hgt hd
    obtain ⟨he, _⟩ := refers ⟨other, hgt, hd⟩
    rcases live hgt with ⟨rfl, _⟩ | ⟨_, _, hgs⟩
    · exact absurd rfl he
    · obtain ⟨hlt, below, hbelow, hsame⟩ := h.reads id other dep hgs hd
      refine ⟨hlt, ?_⟩
      by_cases hdep : dep = task.id
      · subst hdep
        obtain rfl : task = below := Option.some.inj (hg.symm.trans hbelow)
        exact ⟨next, by rw [hget, if_pos rfl], howner.trans hsame⟩
      · refine ⟨below, kept hbelow hdep fun hm => he ?_, hsame⟩
        exact h.used_once dep id task.id ⟨other, hgs, hd⟩ ⟨task, hg, hm⟩
  case used =>
    intro id other hgt hopen
    rw [ho] at hopen
    have hused : ∃ user, s.table.arena.Refers user id ∧ user ≠ task.id := by
      rcases live hgt with ⟨rfl, rfl⟩ | ⟨_, hd, hgs⟩
      · obtain ⟨user, reader, hu, hm⟩ := h.used _ task hg (howner ▸ hopen)
        exact ⟨user, ⟨reader, hu, hm⟩, by have := (h.reads user reader _ hu hm).1; omega⟩
      · obtain ⟨user, reader, hu, hm⟩ := h.used id other hgs hopen
        refine ⟨user, ⟨reader, hu, hm⟩, ?_⟩
        rintro rfl
        obtain rfl : task = reader := Option.some.inj (hg.symm.trans hu)
        exact hd hm
    obtain ⟨user, ⟨reader, hu, hm⟩, he⟩ := hused
    exact ⟨user, reader, kept hu he fun hd => leaf user hd id ⟨reader, hu, hm⟩, hm⟩
  case used_once =>
    exact fun id user other hu hv => h.used_once id user other (refers hu).2 (refers hv).2
  case distinct =>
    intro id other hgt
    rcases live hgt with ⟨_, rfl⟩ | ⟨_, _, hgs⟩
    · rw [hdeps]
      exact .nil
    · exact h.distinct id other hgs
  case settled =>
    intro id other hgt hs
    rcases live hgt with ⟨_, rfl⟩ | ⟨_, _, hgs⟩
    · exact hdeps
    · exact h.settled id other hgs hs
  case untried =>
    intro id other hgt hs
    rcases live hgt with ⟨_, rfl⟩ | ⟨_, _, hgs⟩
    · exact absurd hs hsent
    · exact h.untried id other hgs hs
  case bounded =>
    intro id other hgt
    rw [hn]
    rcases live hgt with ⟨rfl, _⟩ | ⟨_, _, hgs⟩
    · exact h.bounded _ task hg
    · exact h.bounded id other hgs
  case marked =>
    intro id other hgt hlt
    rw [hl] at hlt
    rcases live hgt with ⟨rfl, rfl⟩ | ⟨_, _, hgs⟩
    · exact hdone (h.marked _ task hg hlt)
    · exact h.marked id other hgs hlt
  case mark_le =>
    exact hn ▸ hl ▸ h.mark_le

end Coherent

end ArithDispatch.Scheduler
