import ArithDispatch.Expression.Stage
import ArithDispatch.Task

/-! Every expression ever accepted, by id. A record stays for good, its id is never given twice, and
its stage only moves forward; what `find?` sees after an operation describes the operation. -/
namespace ArithDispatch

structure ExpressionRecord where
  source : String
  /-- The task whose result is the expression's value; a plain number has none. -/
  rootTask : Option Nat
  stage : Stage
  deriving DecidableEq, Repr

namespace ExpressionRecord

/-- An expression whose tasks wait for workers. -/
def pending (source : String) (root : Nat) : ExpressionRecord := ⟨source, some root, .pending⟩

/-- An expression that is a single number, and so is done at once. -/
def literal (source : String) (value : Binary64) : ExpressionRecord := ⟨source, none, .done value⟩

end ExpressionRecord

/-- What a client sees of an expression. -/
structure ExpressionSummary where
  id : String
  expression : String
  status : ExpressionStatus
  result : Option Binary64
  error : Option String
  deriving DecidableEq, Repr

def ExpressionRecord.summary (id : String) (record : ExpressionRecord) : ExpressionSummary :=
  ⟨id, record.source, record.stage.status, record.stage.result?, record.stage.error?⟩

structure ExpressionCounts where
  pending : Nat
  calculating : Nat
  done : Nat
  invalid : Nat
  deriving DecidableEq, Repr

def ExpressionCounts.total (counts : ExpressionCounts) : Nat :=
  counts.pending + counts.calculating + counts.done + counts.invalid

/-- Records with their ids, in the order of registration. -/
structure Registry where
  entries : List (String × ExpressionRecord) := []
  distinct : (entries.map Prod.fst).Nodup := by simp

namespace Registry

def find? (registry : Registry) (id : String) : Option ExpressionRecord :=
  registry.entries.lookup id

def contains (registry : Registry) (id : String) : Bool := (registry.find? id).isSome

def size (registry : Registry) : Nat := registry.entries.length

private theorem not_mem_of_lookup_eq_none {id : String}
    {entries : List (String × ExpressionRecord)} (h : entries.lookup id = none) :
    id ∉ entries.map Prod.fst := by
  intro member
  obtain ⟨entry, listed, rfl⟩ := List.mem_map.mp member
  exact absurd (List.lookup_eq_none_iff.mp h entry listed) (by simp)

/-- Adds the record that `build` makes from `state`, unless the id is taken; then nothing happens
and `build` is not run. -/
def register {σ : Type} (registry : Registry) (id : String) (build : σ → ExpressionRecord × σ)
    (state : σ) : Option (Registry × σ) :=
  match absent : registry.find? id with
  | some _ => none
  | none =>
    let (record, state) := build state
    some (⟨registry.entries ++ [(id, record)], by
      have fresh := not_mem_of_lookup_eq_none absent
      simp only [List.map_append, List.map_cons, List.map_nil]
      exact List.nodup_append.mpr ⟨registry.distinct, by simp, by grind⟩⟩, state)

def modify (registry : Registry) (id : String) (change : ExpressionRecord → ExpressionRecord) :
    Registry where
  entries := registry.entries.map fun entry =>
    if entry.1 = id then (entry.1, change entry.2) else entry
  distinct := by
    have same : (Prod.fst ∘ fun entry : String × ExpressionRecord =>
        if entry.1 = id then (entry.1, change entry.2) else entry) = Prod.fst := by
      funext entry
      simp only [Function.comp_apply]
      split <;> rfl
    rw [List.map_map, same]
    exact registry.distinct

@[simp] theorem find?_empty (id : String) : find? {} id = none := rfl

theorem find?_modify (registry : Registry) (id other : String)
    (change : ExpressionRecord → ExpressionRecord) :
    (registry.modify id change).find? other =
      (registry.find? other).map fun record => if other = id then change record else record := by
  obtain ⟨entries, distinct⟩ := registry
  simp only [find?, modify]
  clear distinct
  induction entries with
  | nil => rfl
  | cons entry rest ih =>
    obtain ⟨key, record⟩ := entry
    rw [List.map_cons, List.lookup_cons, ih]
    by_cases here : other = key
    · subst here
      by_cases same : other = id <;> simp [same]
    · have apart : (other == key) = false := beq_eq_false_iff_ne.mpr here
      by_cases same : key = id
      · subst same
        simp [List.lookup_cons, apart, here]
      · simp [List.lookup_cons, apart, same]

theorem register_eq_none_iff {σ : Type} {registry : Registry} {id : String}
    {build : σ → ExpressionRecord × σ} {state : σ} :
    registry.register id build state = none ↔ registry.contains id = true := by
  simp only [register, contains]
  split <;> simp [*]

theorem register_eq_some {σ : Type} {registry after : Registry} {id : String}
    {build : σ → ExpressionRecord × σ} {state final : σ}
    (h : registry.register id build state = some (after, final)) :
    registry.find? id = none ∧ final = (build state).2 ∧
      after.entries = registry.entries ++ [(id, (build state).1)] := by
  simp only [register] at h
  split at h
  · cases h
  · cases h
    exact ⟨‹_›, rfl, rfl⟩

theorem find?_register {σ : Type} {registry after : Registry} {id : String}
    {build : σ → ExpressionRecord × σ} {state final : σ}
    (h : registry.register id build state = some (after, final)) (other : String) :
    after.find? other = if other = id then some (build state).1 else registry.find? other := by
  obtain ⟨absent, _, entries⟩ := register_eq_some h
  simp only [find?] at absent ⊢
  rw [entries, List.lookup_append]
  by_cases same : other = id
  · subst same
    simp [absent]
  · simp [same, List.lookup_cons, beq_eq_false_iff_ne.mpr same]

def status? (registry : Registry) (id : String) : Option ExpressionStatus :=
  (registry.find? id).map (·.stage.status)

def rootTask? (registry : Registry) (id : String) : Option Nat :=
  (registry.find? id).bind (·.rootTask)

def summary? (registry : Registry) (id : String) : Option ExpressionSummary :=
  (registry.find? id).map (·.summary id)

/-- Every expression. A client meets them in any order, not in this one. -/
def summaries (registry : Registry) : List ExpressionSummary :=
  registry.entries.map fun entry => entry.2.summary entry.1

def countOf (registry : Registry) (status : ExpressionStatus) : Nat :=
  registry.entries.countP (·.2.stage.status == status)

def counts (registry : Registry) : ExpressionCounts :=
  ⟨registry.countOf .pending, registry.countOf .calculating, registry.countOf .done,
    registry.countOf .invalid⟩

/-- Moves an expression to a stage that is open to it, and tells whether it did. -/
def moveTo (registry : Registry) (id : String) (stage : Stage) : Bool × Registry :=
  match registry.find? id with
  | none => (false, registry)
  | some record =>
    if record.stage.status.canBecome stage.status then
      (true, registry.modify id ({ · with stage }))
    else (false, registry)

theorem find?_moveTo (registry : Registry) (id other : String) (stage : Stage) :
    (registry.moveTo id stage).2.find? other =
      if (registry.moveTo id stage).1 = true ∧ other = id then
        (registry.find? other).map ({ · with stage })
      else registry.find? other := by
  unfold moveTo
  cases registry.find? id with
  | none => simp
  | some record =>
    by_cases allowed : record.stage.status.canBecome stage.status = true
    · by_cases same : other = id <;> simp [allowed, same, find?_modify]
    · simp [allowed]

/-- Records that work on the expression has begun; it may have begun before. -/
def markCalculating (registry : Registry) (id : String) : Bool × Registry :=
  if registry.status? id = some .calculating then (true, registry)
  else registry.moveTo id .calculating

def complete (registry : Registry) (id : String) (result : Binary64) : Bool × Registry :=
  registry.moveTo id (.done result)

def invalidate (registry : Registry) (id : String) (reason : String) : Bool × Registry :=
  registry.moveTo id (.invalid reason)

end Registry

end ArithDispatch
