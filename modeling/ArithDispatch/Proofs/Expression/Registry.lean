import ArithDispatch.Expression.Registry
import ArithDispatch.Scheduler.Readiness

/-! Open expressions: those that are still to be computed. A move to a last stage closes an
expression, and no other move opens or closes one. -/
namespace ArithDispatch

theorem ExpressionStatus.canBecome_of_terminal {status next : ExpressionStatus}
    (hs : status.isTerminal = false) (hn : next.isTerminal = true) : status.canBecome next = true := by
  cases next with
  | pending => cases hn
  | calculating => cases hn
  | done => cases status <;> first | rfl | cases hs
  | invalid => cases status <;> first | rfl | cases hs

namespace Stage
variable {stage : Stage}

theorem exists_done (h : stage.status = .done) : ∃ value, stage = .done value := by
  cases stage with
  | done value => exact ⟨value, rfl⟩
  | pending => cases h
  | calculating => cases h
  | invalid reason => cases h

theorem result?_eq_some {value : Binary64} : stage.result? = some value ↔ stage = .done value := by
  cases stage <;> simp [result?]

theorem exists_invalid (h : stage.status = .invalid) : ∃ reason, stage = .invalid reason := by
  cases stage with
  | invalid reason => exact ⟨reason, rfl⟩
  | pending => cases h
  | calculating => cases h
  | done value => cases h

theorem terminal_cases (h : stage.status.isTerminal = true) :
    (∃ value, stage = .done value) ∨ ∃ reason, stage = .invalid reason := by
  cases hs : stage.status with
  | done => exact .inl (exists_done hs)
  | invalid => exact .inr (exists_invalid hs)
  | pending => rw [hs] at h; cases h
  | calculating => rw [hs] at h; cases h

end Stage

/-- The root task of an expression that is still to be computed. -/
def ExpressionRecord.openRoot? (record : ExpressionRecord) : Option Nat :=
  if record.stage.status.isTerminal then none else record.rootTask

namespace Registry
variable {registry : Registry} {id other : String} {record : ExpressionRecord} {stage : Stage}

def openRoot? (registry : Registry) (id : String) : Option Nat :=
  (registry.find? id).bind ExpressionRecord.openRoot?

theorem openRoot?_eq_some {root : Nat} : registry.openRoot? id = some root ↔
    ∃ record, registry.find? id = some record ∧ record.stage.status.isTerminal = false ∧
      record.rootTask = some root := by
  simp [openRoot?, ExpressionRecord.openRoot?, Option.bind_eq_some_iff]

def IsOpen (registry : Registry) (id : String) : Prop :=
  registry.status? id = some .pending ∨ registry.status? id = some .calculating

theorem isOpen_iff : registry.IsOpen id ↔
    ∃ record, registry.find? id = some record ∧ record.stage.status.isTerminal = false := by
  simp only [IsOpen, status?, Option.map_eq_some_iff]
  constructor
  · rintro (⟨record, hf, hs⟩ | ⟨record, hf, hs⟩) <;> exact ⟨record, hf, by rw [hs]; rfl⟩
  · rintro ⟨record, hf, ho⟩
    cases hs : record.stage.status with
    | pending => exact .inl ⟨record, hf, hs⟩
    | calculating => exact .inr ⟨record, hf, hs⟩
    | done => rw [hs] at ho; cases ho
    | invalid => rw [hs] at ho; cases ho

theorem isOpen_of_openRoot? {root : Nat} (h : registry.openRoot? id = some root) : registry.IsOpen id := by
  obtain ⟨record, hf, ho, _⟩ := openRoot?_eq_some.mp h
  exact isOpen_iff.mpr ⟨record, hf, ho⟩

theorem rootTask?_of_openRoot? {root : Nat} (h : registry.openRoot? id = some root) :
    registry.rootTask? id = some root := by
  obtain ⟨record, hf, _, hr⟩ := openRoot?_eq_some.mp h
  rw [rootTask?, hf]
  exact hr

/-- What is recorded when every open expression has a root task and only divisions by zero have made
expressions invalid. -/
structure Regular (registry : Registry) : Prop where
  rooted : ∀ id record, registry.find? id = some record → record.stage.status.isTerminal = false →
    record.rootTask.isSome = true
  cause : ∀ id record reason, registry.find? id = some record → record.stage = .invalid reason →
    reason = Obstacle.divisionByZero.reason

theorem Regular.openRoot? (h : registry.Regular) (ho : registry.IsOpen id) :
    ∃ root, registry.openRoot? id = some root := by
  obtain ⟨record, hf, ho⟩ := isOpen_iff.mp ho
  obtain ⟨root, hr⟩ := Option.isSome_iff_exists.mp (h.rooted id record hf ho)
  exact ⟨root, openRoot?_eq_some.mpr ⟨record, hf, ho, hr⟩⟩

theorem moveTo_eq_true (h : (registry.moveTo id stage).1 = true) :
    ∃ record, registry.find? id = some record ∧
      record.stage.status.canBecome stage.status = true := by
  unfold moveTo at h
  split at h
  · cases h
  · next record hf =>
    split at h
    · next hc => exact ⟨record, hf, hc⟩
    · cases h

theorem moveTo_of_open {root : Nat} (h : registry.openRoot? id = some root)
    (hs : stage.status.isTerminal = true) : (registry.moveTo id stage).1 = true := by
  obtain ⟨record, hf, ho, _⟩ := openRoot?_eq_some.mp h
  unfold moveTo
  rw [hf]
  simp only [ExpressionStatus.canBecome_of_terminal ho hs, if_true]

theorem rootTask?_moveTo (registry : Registry) (id other : String) (stage : Stage) :
    (registry.moveTo id stage).2.rootTask? other = registry.rootTask? other := by
  rw [rootTask?, find?_moveTo, rootTask?]
  split
  · cases registry.find? other <;> rfl
  · rfl

theorem openRoot?_moveTo_terminal (registry : Registry) (id other : String)
    (hs : stage.status.isTerminal = true) : (registry.moveTo id stage).2.openRoot? other =
      if other = id then none else registry.openRoot? other := by
  rw [openRoot?, find?_moveTo]
  by_cases he : other = id
  · subst he
    rw [if_pos rfl]
    split
    · cases registry.find? other with
      | none => rfl
      | some record => simp [ExpressionRecord.openRoot?, hs]
    · next hm =>
      rw [← openRoot?]
      cases ho : registry.openRoot? other with
      | none => rfl
      | some root => exact absurd ⟨moveTo_of_open ho hs, rfl⟩ hm
  · rw [if_neg (fun h => he h.2), if_neg he, openRoot?]

theorem openRoot?_moveTo_open (registry : Registry) (id other : String)
    (hs : stage.status.isTerminal = false) :
    (registry.moveTo id stage).2.openRoot? other = registry.openRoot? other := by
  rw [openRoot?, find?_moveTo, openRoot?]
  split
  · next hm =>
    obtain ⟨hm, rfl⟩ := hm
    obtain ⟨record, hf, hc⟩ := moveTo_eq_true hm
    have ho := ExpressionStatus.isTerminal_eq_false_of_canBecome hc
    simp [hf, ExpressionRecord.openRoot?, hs, ho]
  · rfl

theorem openRoot?_markCalculating (registry : Registry) (id other : String) :
    (registry.markCalculating id).2.openRoot? other = registry.openRoot? other := by
  unfold markCalculating
  split
  · rfl
  · exact registry.openRoot?_moveTo_open id other rfl

theorem openRoot?_insert {after : Registry}
    (hf : ∀ other, after.find? other = if other = id then some record else registry.find? other)
    (other : String) :
    after.openRoot? other = if other = id then record.openRoot? else registry.openRoot? other := by
  rw [openRoot?, hf]
  split
  · rfl
  · rfl

theorem contains_moveTo (registry : Registry) (id other : String) (stage : Stage) :
    (registry.moveTo id stage).2.contains other = registry.contains other := by
  rw [contains, find?_moveTo, contains]
  split
  · exact Option.isSome_map
  · rfl

theorem contains_insert {after : Registry}
    (hf : ∀ other, after.find? other = if other = id then some record else registry.find? other)
    (other : String) : after.contains other = true ↔ other = id ∨ registry.contains other = true := by
  rw [contains, hf]
  split
  · next he => simp [he]
  · next he => simp [he, contains]

theorem Regular.empty : Regular {} where
  rooted id record hf := by cases hf
  cause id record reason hf := by cases hf

theorem Regular.insert (h : registry.Regular) {after : Registry}
    (hf : ∀ other, after.find? other = if other = id then some record else registry.find? other)
    (hroot : record.stage.status.isTerminal = false → record.rootTask.isSome = true)
    (hstage : ∀ reason, record.stage ≠ .invalid reason) : after.Regular where
  rooted other found ho hs := by
    rw [hf] at ho
    split at ho
    · cases ho
      exact hroot hs
    · exact h.rooted other found ho hs
  cause other found reason ho hi := by
    rw [hf] at ho
    split at ho
    · cases ho
      exact absurd hi (hstage reason)
    · exact h.cause other found reason ho hi

theorem Regular.moveTo (h : registry.Regular) (id : String)
    (hs : ∀ reason, stage = .invalid reason → reason = Obstacle.divisionByZero.reason) :
    (registry.moveTo id stage).2.Regular where
  rooted other record hf ho := by
    rw [find?_moveTo] at hf
    split at hf
    · next hm =>
      obtain ⟨hm, rfl⟩ := hm
      obtain ⟨before, hb, hc⟩ := moveTo_eq_true hm
      rw [hb] at hf
      cases hf
      exact h.rooted other before hb (ExpressionStatus.isTerminal_eq_false_of_canBecome hc)
    · exact h.rooted other record hf ho
  cause other record reason hf hi := by
    rw [find?_moveTo] at hf
    split at hf
    · obtain ⟨before, _, rfl⟩ := Option.map_eq_some_iff.mp hf
      exact hs reason hi
    · exact h.cause other record reason hf hi

theorem Regular.markCalculating (h : registry.Regular) (id : String) :
    (registry.markCalculating id).2.Regular := by
  unfold Registry.markCalculating
  split
  · exact h
  · exact h.moveTo id (by simp)

theorem find?_of_mem (hm : (id, record) ∈ registry.entries) : registry.find? id = some record := by
  obtain ⟨front, rest, he⟩ := List.append_of_mem hm
  refine List.lookup_eq_some_iff.mpr ⟨front, rest, he, fun entry hentry => ?_⟩
  have hdistinct := registry.distinct
  rw [he, List.map_append, List.map_cons, List.nodup_append] at hdistinct
  have hne := hdistinct.2.2 entry.1 (List.mem_map.mpr ⟨entry, hentry, rfl⟩) id List.mem_cons_self
  simpa using hne.symm

/-- What is listed can be looked up. -/
theorem summary?_of_mem_summaries {summary : ExpressionSummary} (hm : summary ∈ registry.summaries) :
    registry.summary? summary.id = some summary := by
  obtain ⟨entry, he, rfl⟩ := List.mem_map.mp hm
  exact congrArg _ (find?_of_mem he)

end Registry

end ArithDispatch
