import ArithDispatch.Proofs.Scheduler.Effects
import ArithDispatch.Scheduler.Worker

/-! What a single worker will make of a state in which nobody else works, foreseen from that state alone: the
values that the operands take, the divisions that cannot be carried out, and the tasks to be handed out. The
forecast stays right while the tasks are computed and expressions become invalid. -/
namespace ArithDispatch.Scheduler

/-- The task is live and has no result yet. -/
def Undone (s : Scheduler) (id : Nat) (task : Task) : Prop :=
  s.table.get? id = some task ∧ task.isDone = false

/-- No task is out at a worker. -/
def Idle (s : Scheduler) : Prop :=
  ∀ id task, s.table.get? id = some task → task.status ≠ .inProgress

/-- The value that an operand has, or will have when the tasks that it is read from are computed. A division
by zero counts with what `work` would make of it, but such a value is never asked for: nothing that reads it
stands before the division. -/
inductive Yields (work : Work) (s : Scheduler) : Operand → Binary64 → Prop
  | literal (value : Binary64) : Yields work s (.literal value) value
  | known {id : Nat} {task : Task} : s.table.get? id = some task → task.isDone = true →
      Yields work s (.reference id) task.result
  | computed {id : Nat} {task : Task} {left right : Binary64} : s.Undone id task →
      Yields work s task.left left → Yields work s task.right right →
      Yields work s (.reference id) (work task.operator left right)

/-- The task is a division of the expression, not computed yet, whose right operand takes the value zero. -/
def BreaksAt (work : Work) (s : Scheduler) (owner : String) (id : Nat) : Prop :=
  ∃ task right, s.Undone id task ∧ task.owner = owner ∧ task.operator = .div ∧
    s.Yields work task.right right ∧ right.isZero = true

/-- The task has no result yet and stands before every division by zero of its expression. -/
def Due (work : Work) (s : Scheduler) (id : Nat) : Prop :=
  ∃ task, s.Undone id task ∧ ∀ other, s.BreaksAt work task.owner other → id < other

/-- The expression is invalid, or comes to a division by zero. -/
def Lost (work : Work) (s : Scheduler) (owner : String) : Prop :=
  s.registry.status? owner = some .invalid ∨ ∃ id, s.BreaksAt work owner id

variable {work : Work} {s t u : Scheduler} {task : Task} {id now cursor : Nat} {owner : String}

theorem Undone.unique {other : Task} (h : s.Undone id task) (h' : s.Undone id other) : task = other :=
  Option.some.inj (h.1.symm.trans h'.1)

theorem Yields.unique {operand : Operand} {value other : Binary64} (h : s.Yields work operand value)
    (h' : s.Yields work operand other) : value = other := by
  induction h generalizing other with
  | literal value =>
    cases h'
    rfl
  | known hg hd =>
    cases h' with
    | known hg' _ => exact congrArg Task.result (Option.some.inj (hg.symm.trans hg'))
    | computed hu _ _ =>
      obtain rfl := Option.some.inj (hg.symm.trans hu.1)
      cases hd.symm.trans hu.2
  | computed hu _ _ ihl ihr =>
    cases h' with
    | known hg hd =>
      obtain rfl := Option.some.inj (hg.symm.trans hu.1)
      cases hd.symm.trans hu.2
    | computed hu' hl hr =>
      obtain rfl := hu.unique hu'
      rw [ihl hl, ihr hr]

/-- What is known already is what will be found. -/
theorem yields_of_ready {operand : Operand} {value : Binary64} (h : s.table.readiness operand = .ready value) :
    s.Yields work operand value := by
  cases operand with
  | literal known =>
    cases h
    exact .literal value
  | reference id =>
    obtain ⟨task, hg, hd, rfl⟩ := TaskTable.readiness_reference_ready h
    exact .known hg hd

namespace Coherent

theorem exists_yields_of_live (h : Coherent s) (work : Work) (hg : s.table.get? id = some task) :
    ∃ value, s.Yields work (.reference id) value := by
  -- what a task reads has a smaller id
  induction id using Nat.strongRecOn generalizing task with
  | ind id ih =>
    cases hd : task.isDone with
    | true => exact ⟨_, .known hg hd⟩
    | false =>
      have operand : ∀ side, task.left = side ∨ task.right = side → ∃ value, s.Yields work side value := by
        intro side hm
        cases side with
        | literal value => exact ⟨value, .literal value⟩
        | reference dep =>
          obtain ⟨hlt, other, hother, _⟩ := h.reads id task dep hg (Task.mem_dependencies.mpr hm)
          exact ih dep hlt hother
      obtain ⟨left, hl⟩ := operand task.left (.inl rfl)
      obtain ⟨right, hr⟩ := operand task.right (.inr rfl)
      exact ⟨_, .computed ⟨hg, hd⟩ hl hr⟩

theorem exists_yields_right (h : Coherent s) (work : Work) (hg : s.table.get? id = some task) :
    ∃ value, s.Yields work task.right value := by
  cases hr : task.right with
  | literal value => exact ⟨value, .literal value⟩
  | reference dep =>
    obtain ⟨_, other, hother, _⟩ := h.reads id task dep hg (Task.mem_dependencies.mpr (.inr hr))
    exact h.exists_yields_of_live work hother

end Coherent

/-- Every task of `t` is as it was in `s`, or was computed since. -/
def Computes (work : Work) (s t : Scheduler) : Prop :=
  ∀ id task, t.table.get? id = some task →
    s.table.get? id = some task ∨ (task.isDone = true ∧ s.Yields work (.reference id) task.result)

theorem Computes.undone (h : Computes work s t) (hu : t.Undone id task) : s.Undone id task := by
  rcases h id task hu.1 with hg | ⟨hd, _⟩
  · exact ⟨hg, hu.2⟩
  · cases hd.symm.trans hu.2

theorem Computes.yields (h : Computes work s t) {operand : Operand} {value : Binary64}
    (hy : t.Yields work operand value) : s.Yields work operand value := by
  induction hy with
  | literal value => exact .literal value
  | @known id task hg hd =>
    rcases h id task hg with hg | ⟨_, hy⟩
    · exact .known hg hd
    · exact hy
  | computed hu _ _ ihl ihr => exact .computed (h.undone hu) ihl ihr

/-- The divisions by zero stay the same ones as long as they are not removed. -/
theorem Computes.breaksAt_iff (h : Computes work s t) (ht : Coherent t) :
    t.BreaksAt work owner id ↔ s.BreaksAt work owner id ∧ ∃ task, t.Undone id task := by
  constructor
  · rintro ⟨task, right, hu, howner, hop, hy, hz⟩
    exact ⟨⟨task, right, h.undone hu, howner, hop, h.yields hy, hz⟩, task, hu⟩
  · rintro ⟨⟨task, right, hu, howner, hop, hy, hz⟩, other, hother⟩
    obtain rfl := hu.unique (h.undone hother)
    obtain ⟨value, hv⟩ := ht.exists_yields_right work hother.1
    obtain rfl := hy.unique (h.yields hv)
    exact ⟨task, right, hother, howner, hop, hv, hz⟩

/-- From `s` to `t` the given tasks were handed out, and the rest of what was foreseen still stands. -/
structure Foresees (work : Work) (s : Scheduler) (sent : List Nat) (t : Scheduler) : Prop where
  due : ∀ id, s.Due work id ↔ id ∈ sent ∨ t.Due work id
  lost : ∀ owner, t.Lost work owner ↔ s.Lost work owner
  undone : ∀ id task, t.Undone id task → s.Undone id task
  ordered : sent.Pairwise (· < ·)
  behind : ∀ id ∈ sent, ∀ other task, t.Undone other task → id < other

namespace Foresees
variable {first second : List Nat}

theorem trans (h : Foresees work s first t) (h' : Foresees work t second u) :
    Foresees work s (first ++ second) u where
  due id := by rw [h.due, h'.due, List.mem_append, or_assoc]
  lost owner := (h'.lost owner).trans (h.lost owner)
  undone id task hu := h.undone id task (h'.undone id task hu)
  ordered := by
    refine List.pairwise_append.mpr ⟨h.ordered, h'.ordered, fun id hm other hother => ?_⟩
    obtain ⟨task, hu, _⟩ := (h'.due other).mpr (.inl hother)
    exact h.behind id hm other task hu
  behind id hm other task hu := by
    rcases List.mem_append.mp hm with hm | hm
    · exact h.behind id hm other task (h'.undone other task hu)
    · exact h'.behind id hm other task hu

theorem advance (h : Coherent s) (work : Work) :
    Foresees work s [] { s with table := s.table.advance } := by
  have hcomputes : Computes work s { s with table := s.table.advance } := fun id task hg =>
    .inl ((s.table.get?_advance id).symm.trans hg)
  have hundone : ∀ id task, Undone { s with table := s.table.advance } id task ↔ s.Undone id task := by
    simp [Undone]
  have hbreaks : ∀ owner id,
      BreaksAt work { s with table := s.table.advance } owner id ↔ s.BreaksAt work owner id := by
    intro owner id
    rw [hcomputes.breaksAt_iff h.advance, and_iff_left_of_imp]
    rintro ⟨task, _, hu, _⟩
    exact ⟨task, (hundone id task).mpr hu⟩
  refine ⟨fun id => ?_, fun owner => ?_, fun id task => (hundone id task).mp, .nil, by simp⟩
  · simp only [List.not_mem_nil, false_or, Due, hundone, hbreaks]
  · simp only [Lost, hbreaks]

/-- The first task without a result is a division by zero: its expression becomes invalid. -/
theorem invalidate (h : Coherent s) (hg : s.table.get? task.id = some task)
    (hbreaks : s.BreaksAt work task.owner task.id)
    (hleast : ∀ id other, s.Undone id other → task.id ≤ id) :
    Foresees work s [] (s.invalidate task .divisionByZero) := by
  have hget := get?_invalidate h hg .divisionByZero
  have hundone : ∀ id other, (s.invalidate task .divisionByZero).Undone id other ↔
      s.Undone id other ∧ other.owner ≠ task.owner := by
    intro id other
    simp only [Undone, hget, Option.filter_eq_some_iff, bne_iff_ne]
    tauto
  have hcomputes : Computes work s (s.invalidate task .divisionByZero) := by
    intro id other hother
    rw [hget, Option.filter_eq_some_iff] at hother
    exact .inl hother.1
  have hiff : ∀ owner id, (s.invalidate task .divisionByZero).BreaksAt work owner id ↔
      s.BreaksAt work owner id ∧ owner ≠ task.owner := by
    intro owner id
    rw [hcomputes.breaksAt_iff (h.invalidate hg)]
    refine and_congr_right fun ⟨other, _, hu, howner, _⟩ => ⟨?_, fun hne => ?_⟩
    · rintro ⟨still, hs⟩
      obtain ⟨hu', hne⟩ := (hundone id still).mp hs
      obtain rfl := hu.unique hu'
      exact howner ▸ hne
    · exact ⟨other, (hundone id other).mpr ⟨hu, howner ▸ hne⟩⟩
  refine ⟨fun id => ?_, fun owner => ?_, fun id other hu => ((hundone id other).mp hu).1, .nil, by simp⟩
  · rw [List.mem_nil_iff, false_or]
    constructor
    · rintro ⟨other, hu, hbefore⟩
      have hne : other.owner ≠ task.owner := fun he => by
        have := hbefore task.id (he ▸ hbreaks)
        have := hleast id other hu
        omega
      exact ⟨other, (hundone id other).mpr ⟨hu, hne⟩, fun broken hb => hbefore broken ((hiff _ _).mp hb).1⟩
    · rintro ⟨other, hu, hbefore⟩
      obtain ⟨hu, hne⟩ := (hundone id other).mp hu
      exact ⟨other, hu, fun broken hb => hbefore broken ((hiff _ _).mpr ⟨hb, hne⟩)⟩
  · obtain ⟨root, ho, _⟩ := h.owned task.id task hg
    by_cases he : owner = task.owner
    · subst he
      exact iff_of_true (.inl (Registry.status?_invalidate ho _)) (.inr ⟨task.id, hbreaks⟩)
    · have hstatus : (s.invalidate task .divisionByZero).registry.status? owner = s.registry.status? owner :=
        s.registry.status?_moveTo_of_ne he _
      simp only [Lost, hstatus, hiff, he, ne_eq, not_false_eq_true, and_true]

/-- The first task without a result is computed, and it is not a division by zero. -/
theorem compute (ht : Coherent t) (hcomputes : Computes work s t) (hu : s.Undone id task)
    (hsound : ∀ owner, ¬ s.BreaksAt work owner id)
    (hundone : ∀ other next, t.Undone other next ↔ s.Undone other next ∧ other ≠ id)
    (hstatus : ∀ owner, t.registry.status? owner = some .invalid ↔ s.registry.status? owner = some .invalid)
    (hleast : ∀ other next, s.Undone other next → id ≤ other) : Foresees work s [id] t := by
  have hiff : ∀ owner other, t.BreaksAt work owner other ↔ s.BreaksAt work owner other := by
    intro owner other
    rw [hcomputes.breaksAt_iff ht, and_iff_left_of_imp]
    intro hb
    have hne : other ≠ id := fun he => hsound owner (he ▸ hb)
    obtain ⟨next, _, hnext, _⟩ := hb
    exact ⟨next, (hundone other next).mpr ⟨hnext, hne⟩⟩
  have hbefore : ∀ other next, s.Undone other next → other ≠ id → id < other := fun other next hnext hne =>
    Nat.lt_of_le_of_ne (hleast other next hnext) hne.symm
  refine ⟨fun other => ?_, fun owner => ?_, fun other next hn => ((hundone other next).mp hn).1,
    List.pairwise_singleton _ id, ?_⟩
  · rw [List.mem_singleton]
    constructor
    · rintro ⟨next, hnext, hb⟩
      by_cases he : other = id
      · exact .inl he
      · exact .inr ⟨next, (hundone other next).mpr ⟨hnext, he⟩, fun broken h => hb broken ((hiff _ _).mp h)⟩
    · rintro (rfl | ⟨next, hnext, hb⟩)
      · refine ⟨task, hu, fun broken h => ?_⟩
        have hne : broken ≠ other := fun he => hsound task.owner (he ▸ h)
        obtain ⟨next, _, hnext, _⟩ := h
        exact hbefore broken next hnext hne
      · exact ⟨next, ((hundone other next).mp hnext).1, fun broken h => hb broken ((hiff _ _).mpr h)⟩
  · simp only [Lost, hstatus, hiff]
  · intro other hm later next hnext
    obtain rfl := List.mem_singleton.mp hm
    obtain ⟨hnext, hne⟩ := (hundone later next).mp hnext
    exact hbefore later next hnext hne

end Foresees

namespace Coherent

/-- The first task without a result has both its operands, and so needs attention. -/
theorem exists_attention (h : Coherent s) (hidle : s.Idle) (hu : s.Undone id task) (now : Nat) :
    ∃ first other, first ≤ id ∧ s.Undone first other ∧
      s.table.attention s.registry now other ≠ none := by
  classical
  have hex : ∃ first other, s.Undone first other := ⟨id, task, hu⟩
  obtain ⟨other, hother⟩ := Nat.find_spec hex
  refine ⟨Nat.find hex, other, Nat.find_min' hex ⟨task, hu⟩, hother, ?_⟩
  obtain ⟨root, ho, _⟩ := h.owned _ other hother.1
  have hready : ∀ dep ∈ other.dependencies,
      ∃ below, s.table.get? dep = some below ∧ below.isDone = true := by
    intro dep hm
    obtain ⟨hlt, below, hbelow, _⟩ := h.reads _ other dep hother.1 hm
    refine ⟨below, hbelow, by_contra fun hd => ?_⟩
    exact Nat.find_min hex hlt ⟨below, hbelow, Bool.eq_false_iff.mpr hd⟩
  obtain ⟨left, right, hl, hr⟩ := TaskTable.ready_of_dependencies_done hready
  have hout : other.isInProgress = false :=
    Bool.eq_false_iff.mpr fun hp => hidle _ other hother.1 (Task.isInProgress_iff.mp hp)
  obtain ⟨status, hs, hi⟩ : ∃ status, s.registry.status? other.owner = some status ∧ status ≠ .invalid := by
    rcases Registry.status?_of_open ho with ho | ho <;> exact ⟨_, ho, by simp⟩
  rw [TaskTable.attention_of_open hother.2 hs hi, hout, Bool.false_and, if_neg Bool.false_ne_true,
    TaskTable.attentionForOperands_ready hl hr]
  split <;> simp

/-- The scan stops at the first task without a result. -/
theorem least_of_nextAttention (h : Coherent s) (hidle : s.Idle) {found : Attention}
    (hbehind : ∀ id task, s.Undone id task → cursor ≤ id)
    (ha : s.table.nextAttention s.registry now cursor = some (task, found)) {other : Task}
    (hu : s.Undone id other) : task.id ≤ id := by
  obtain ⟨_, _, _, hbefore⟩ := TaskTable.nextAttention_eq_some ha
  obtain ⟨first, next, hle, hnext, hneeds⟩ := h.exists_attention hidle hu now
  by_contra hlt
  exact hneeds (hbefore first next hnext.1 (hbehind first next hnext) (by omega))

theorem not_undone_of_nextAttention (h : Coherent s) (hidle : s.Idle)
    (hbehind : ∀ id task, s.Undone id task → cursor ≤ id)
    (ha : s.table.nextAttention s.registry now cursor = none) : ¬ s.Undone id task := by
  intro hu
  obtain ⟨first, next, _, hnext, hneeds⟩ := h.exists_attention hidle hu now
  exact hneeds (TaskTable.nextAttention_eq_none ha hnext.1 (hbehind first next hnext))

/-- What a scan removes was foreseen. -/
theorem foresees_scanning (h : Coherent s) (hidle : s.Idle) (work : Work) (hs : Scanning now s t cursor) :
    t.Idle ∧ (∀ id task, t.Undone id task → cursor ≤ id) ∧ Foresees work s [] t := by
  refine ⟨fun id task hg => hidle id task (h.get?_of_scanning hs hg), ?_⟩
  induction hs with
  | start =>
    refine ⟨fun id task hu => ?_, .advance h work⟩
    by_contra hlt
    have hg := (s.table.get?_advance id).symm.trans hu.1
    exact Bool.false_ne_true (hu.2.symm.trans
      (TaskTable.isDone_of_lt_advance h.marked hg (Nat.lt_of_not_le hlt)))
  | sweep hs ha => exact absurd ha (h.scanning hs).nextAttention_ne_sweep
  | @invalidate t cursor task obstacle hs ha ih =>
    obtain ⟨hbehind, hforesees⟩ := ih
    have ht := h.scanning hs
    have hidle' : t.Idle := fun id task hg => hidle id task (h.get?_of_scanning hs hg)
    obtain ⟨hg, hd, left, right, _, hr, ⟨hop, hz, hf⟩ | ⟨_, hf⟩⟩ := ht.nextAttention_cases ha <;> cases hf
    have hleast : ∀ id other, t.Undone id other → task.id ≤ id := fun id other hu =>
      ht.least_of_nextAttention hidle' hbehind ha hu
    have hstep : Foresees work t [] (t.invalidate task .divisionByZero) :=
      .invalidate ht hg ⟨task, right, ⟨hg, hd⟩, rfl, hop, yields_of_ready hr, hz⟩ hleast
    refine ⟨fun id other hu => ?_, hforesees.trans hstep⟩
    have hle := hleast id other (hstep.undone id other hu)
    refine Nat.lt_of_le_of_ne hle fun he => ?_
    have hother := hu.1
    rw [get?_invalidate ht hg, ← he, hg, Option.filter_some_neg (by simp)] at hother
    cases hother

end Coherent

end ArithDispatch.Scheduler
