import ArithDispatch.Proofs.Expression.Status
import ArithDispatch.Expression.Store

/-! Operations on the records of expressions, in any order and on any ids. Whatever an operation does, it does
by registering one record or by moving one record to a stage that is open to it. -/
namespace ArithDispatch

/-- What is registered: an expression whose tasks wait for workers, or a single number. -/
inductive Draft where
  | pending (source : String) (root : Nat)
  | literal (source : String) (value : Binary64)
  deriving DecidableEq, Repr

namespace Draft

def record : Draft → ExpressionRecord
  | pending source root => .pending source root
  | literal source value => .literal source value

/-- The same record with its parts kept apart. -/
def stored : Draft → StoredExpression
  | pending source root => .pending source root
  | literal source value => .literal source value

end Draft

/-- Builders of records work on a state of their own, of type `σ`. -/
inductive RecordOperation (σ : Type) where
  | register (id : String) (build : σ → Draft × σ)
  | markCalculating (id : String)
  | complete (id : String) (value : Binary64)
  | invalidate (id reason : String)

namespace RecordOperation
variable {σ : Type}

/-- The id that is to be registered. -/
def registers? : RecordOperation σ → Option String
  | register id _ => some id
  | _ => none

/-- The expression that is to be moved, and the stage that it is to come to. -/
def target? : RecordOperation σ → Option (String × Stage)
  | register _ _ => none
  | markCalculating id => some (id, .calculating)
  | complete id value => some (id, .done value)
  | invalidate id reason => some (id, .invalid reason)

end RecordOperation

/-- An operation that took effect. -/
inductive Deed where
  | registered (id : String) (draft : Draft)
  | moved (id : String) (stage : Stage)
  deriving DecidableEq, Repr

/-- The last stage that the deed brings the expression to, if it is one of `id`. -/
def Deed.closing? (id : String) : Deed → Option Stage
  | registered other (.literal _ value) => if other = id then some (.done value) else none
  | registered _ (.pending _ _) => none
  | moved other stage => if other = id ∧ stage.status.isTerminal = true then some stage else none

/-- A later place on the way from pending over calculating to done or to invalid. -/
def ExpressionStatus.Precedes (status later : ExpressionStatus) : Prop :=
  [status, later].Sublist [.pending, .calculating, .done] ∨
    [status, later].Sublist [.pending, .calculating, .invalid]

namespace ExpressionStatus
variable {first second third : ExpressionStatus}

instance : Decidable (first.Precedes second) := inferInstanceAs (Decidable (_ ∨ _))

theorem canBecome_iff_precedes : first.canBecome second = true ↔ first.Precedes second := by
  cases first <;> cases second <;> decide

theorem Precedes.trans (h : first.Precedes second) (h' : second.Precedes third) :
    first.Precedes third := by
  cases first <;> cases second <;> revert h <;> cases third <;> revert h' <;> decide

end ExpressionStatus

/-- The later record continues the earlier one: it has the same origin, and its stage is the same or one further
on. -/
structure ExpressionRecord.Leads (record later : ExpressionRecord) : Prop where
  source : later.source = record.source
  rootTask : later.rootTask = record.rootTask
  stage : later.stage = record.stage ∨ record.stage.status.Precedes later.stage.status

namespace ExpressionRecord.Leads
variable {record later last : ExpressionRecord}

theorem refl (record : ExpressionRecord) : record.Leads record := ⟨rfl, rfl, .inl rfl⟩

theorem trans (h : record.Leads later) (h' : later.Leads last) : record.Leads last where
  source := h'.source.trans h.source
  rootTask := h'.rootTask.trans h.rootTask
  stage := by
    rcases h.stage with he | hc <;> rcases h'.stage with he' | hc'
    · exact .inl (he'.trans he)
    · exact .inr (he ▸ hc')
    · exact .inr (he' ▸ hc)
    · exact .inr (hc.trans hc')

/-- Nothing follows a last stage. -/
theorem eq_of_terminal (h : record.Leads later) (ht : record.stage.status.isTerminal = true) :
    later = record := by
  have hstage : later.stage = record.stage := by
    refine h.stage.resolve_right fun hc => ?_
    have hopen := ExpressionStatus.isTerminal_eq_false_of_canBecome
      (ExpressionStatus.canBecome_iff_precedes.mpr hc)
    rw [hopen] at ht
    cases ht
  cases record
  cases later
  obtain ⟨rfl, rfl, _⟩ := h
  cases hstage
  rfl

end ExpressionRecord.Leads

namespace Registry
variable {σ : Type} {state : Registry × σ} {operation : RecordOperation σ}
  {operations : List (RecordOperation σ)} {registry : Registry} {id other : String} {stage : Stage}
  {record : ExpressionRecord}

/-- Performs an operation beside the state of the builders, and tells its caller whether it is in effect. -/
def perform (state : Registry × σ) : RecordOperation σ → Bool × Registry × σ
  | .register id build =>
    match state.1.register id (fun made => ((build made).1.record, (build made).2)) state.2 with
    | some next => (true, next)
    | none => (false, state)
  | .markCalculating id => ((state.1.markCalculating id).1, (state.1.markCalculating id).2, state.2)
  | .complete id value => ((state.1.complete id value).1, (state.1.complete id value).2, state.2)
  | .invalidate id reason =>
    ((state.1.invalidate id reason).1, (state.1.invalidate id reason).2, state.2)

def run (state : Registry × σ) (operations : List (RecordOperation σ)) : Registry × σ :=
  operations.foldl (fun state operation => (perform state operation).2) state

/-- What the operation did, from the answer that its caller gets. -/
def observe (state : Registry × σ) (operation : RecordOperation σ) : List Deed :=
  if (perform state operation).1 then
    match operation with
    | .register id build => [.registered id (build state.2).1]
    | .markCalculating id => [.moved id .calculating]
    | .complete id value => [.moved id (.done value)]
    | .invalidate id reason => [.moved id (.invalid reason)]
  else []

def deeds (state : Registry × σ) : List (RecordOperation σ) → List Deed
  | [] => []
  | operation :: rest => observe state operation ++ deeds (perform state operation).2 rest

theorem run_concat (state : Registry × σ) (operations : List (RecordOperation σ))
    (operation : RecordOperation σ) :
    run state (operations ++ [operation]) = (perform (run state operations) operation).2 := by
  rw [run, List.foldl_append]
  rfl

theorem run_append (state : Registry × σ) (first second : List (RecordOperation σ)) :
    run state (first ++ second) = run (run state first) second :=
  List.foldl_append

theorem deeds_concat (state : Registry × σ) (operations : List (RecordOperation σ))
    (operation : RecordOperation σ) :
    deeds state (operations ++ [operation]) =
      deeds state operations ++ observe (run state operations) operation := by
  induction operations generalizing state with
  | nil => simp [deeds, run]
  | cons first rest ih =>
    rw [List.cons_append, deeds, deeds, ih, List.append_assoc]
    rfl

/-- An id that is taken is not registered again: no record is built, and nothing changes. -/
theorem perform_register_taken (h : state.1.contains id = true) (build : σ → Draft × σ) :
    perform state (.register id build) = (false, state) := by
  simp only [perform, register_eq_none_iff.mpr h]

theorem perform_register_free (h : state.1.contains id = false) (build : σ → Draft × σ) :
    ∃ registry, perform state (.register id build) = (true, registry, (build state.2).2) ∧
      registry.entries = state.1.entries ++ [(id, (build state.2).1.record)] ∧
      ∀ other, registry.find? other =
        if other = id then some (build state.2).1.record else state.1.find? other := by
  simp only [perform]
  cases hr : state.1.register id (fun made => ((build made).1.record, (build made).2)) state.2 with
  | none =>
    rw [register_eq_none_iff.mp hr] at h
    cases h
  | some next =>
    obtain ⟨_, hstate, hentries⟩ := register_eq_some hr
    exact ⟨next.1, congrArg (Prod.mk true) (Prod.ext rfl hstate), hentries, find?_register hr⟩

/-- The three moves differ in their stage, and in that the one to calculating may be made twice. -/
theorem perform_of_target (h : operation.target? = some (id, stage)) (state : Registry × σ) :
    (perform state operation).2 = ((state.1.moveTo id stage).2, state.2) ∧
      ((perform state operation).1 = true ↔ (state.1.moveTo id stage).1 = true ∨
        (stage = .calculating ∧ state.1.status? id = some .calculating)) := by
  cases operation with
  | register => cases h
  | markCalculating =>
    cases h
    refine ⟨Prod.ext (markCalculating_eq_moveTo ..) rfl, ?_⟩
    simp only [perform, Registry.markCalculating]
    split <;> simp [*]
  | complete =>
    cases h
    exact ⟨rfl, by simp [perform, complete]⟩
  | invalidate =>
    cases h
    exact ⟨rfl, by simp [perform, invalidate]⟩

theorem observe_of_target (h : operation.target? = some (id, stage)) (state : Registry × σ) :
    observe state operation = if (perform state operation).1 then [.moved id stage] else [] := by
  cases operation <;> cases h <;> rfl

/-- Every operation registers a record or moves one. -/
theorem register_or_target (operation : RecordOperation σ) :
    (∃ id build, operation = .register id build) ∨
      ∃ id stage, operation.target? = some (id, stage) := by
  cases operation with
  | register id build => exact .inl ⟨id, build, rfl⟩
  | markCalculating id => exact .inr ⟨id, _, rfl⟩
  | complete id value => exact .inr ⟨id, _, rfl⟩
  | invalidate id reason => exact .inr ⟨id, _, rfl⟩

/-- One operation leaves a record as it is or leads it on. -/
theorem leads_perform (h : state.1.find? id = some record) (operation : RecordOperation σ) :
    ∃ later, (perform state operation).2.1.find? id = some later ∧ record.Leads later := by
  rcases register_or_target operation with ⟨other, build, rfl⟩ | ⟨other, stage, ht⟩
  · cases hc : state.1.contains other with
    | true =>
      rw [perform_register_taken hc]
      exact ⟨record, h, .refl record⟩
    | false =>
      obtain ⟨registry, hp, _, hf⟩ := perform_register_free hc build
      have hne : id ≠ other := by
        rintro rfl
        rw [contains, h] at hc
        cases hc
      rw [hp, hf, if_neg hne]
      exact ⟨record, h, .refl record⟩
  · rw [(perform_of_target ht state).1, find?_moveTo]
    split
    · next hm =>
      obtain ⟨hm, rfl⟩ := hm
      obtain ⟨found, hf, hc⟩ := moveTo_eq_true hm
      obtain rfl := Option.some.inj (h.symm.trans hf)
      exact ⟨{ record with stage }, by rw [h, Option.map_some], rfl, rfl,
        .inr (ExpressionStatus.canBecome_iff_precedes.mp hc)⟩
    · exact ⟨record, h, .refl record⟩

theorem leads_run (h : state.1.find? id = some record) (operations : List (RecordOperation σ)) :
    ∃ later, (run state operations).1.find? id = some later ∧ record.Leads later := by
  induction operations generalizing state record with
  | nil => exact ⟨record, h, .refl record⟩
  | cons operation rest ih =>
    obtain ⟨next, hnext, hfirst⟩ := leads_perform h operation
    obtain ⟨later, hlater, hrest⟩ := ih hnext
    exact ⟨later, hlater, hfirst.trans hrest⟩

/-- A move of an expression at its last stage is refused and changes nothing. -/
theorem perform_of_terminal (hf : state.1.find? id = some record)
    (ht : record.stage.status.isTerminal = true) (h : operation.target? = some (id, stage)) :
    perform state operation = (false, state) := by
  have hstays : (state.1.moveTo id stage) = (false, state.1) := by
    have hc : record.stage.status.canBecome stage.status = false := by
      apply Bool.eq_false_iff.mpr
      intro hc
      rw [ExpressionStatus.isTerminal_eq_false_of_canBecome hc] at ht
      cases ht
    simp [moveTo, hf, hc]
  obtain ⟨hafter, hanswer⟩ := perform_of_target h state
  rw [hstays] at hafter hanswer
  refine Prod.ext (Bool.eq_false_iff.mpr fun htrue => ?_) hafter
  obtain ⟨_, hs⟩ := (hanswer.mp htrue).resolve_left (by simp)
  have hs : record.stage.status = .calculating := by simpa [status?, hf] using hs
  rw [hs] at ht
  cases ht

end Registry

end ArithDispatch
