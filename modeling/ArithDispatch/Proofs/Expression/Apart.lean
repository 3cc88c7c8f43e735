import ArithDispatch.Proofs.Expression.Operations

/-! A store that keeps status, result and error of a record apart is the image of a registry, which keeps one
stage: every operation gives the same answer on both, and what it leaves behind is the image again. -/
namespace ArithDispatch

/-- The record with the parts of its stage kept apart. -/
def ExpressionRecord.apart (record : ExpressionRecord) : StoredExpression :=
  ⟨record.source, record.stage.status, record.stage.result?.getD .zero, record.rootTask,
    record.stage.error?⟩

theorem ExpressionRecord.summary_apart (id : String) (record : ExpressionRecord) :
    record.apart.summary id = record.summary id := by
  obtain ⟨source, root, stage⟩ := record
  cases stage <;> rfl

theorem Draft.apart_record (draft : Draft) : draft.record.apart = draft.stored := by
  cases draft <;> rfl

def Registry.apart (registry : Registry) : ExpressionStore :=
  ⟨registry.entries.map fun entry => (entry.1, entry.2.apart)⟩

namespace ExpressionStore
variable {σ : Type}

/-- Performs an operation beside the state of the builders, and tells its caller whether it is in effect. -/
def perform (state : ExpressionStore × σ) : RecordOperation σ → Bool × ExpressionStore × σ
  | .register id build =>
    match state.1.register id (fun made => ((build made).1.stored, (build made).2)) state.2 with
    | some next => (true, next)
    | none => (false, state)
  | .markCalculating id => ((state.1.markCalculating id).1, (state.1.markCalculating id).2, state.2)
  | .complete id value => ((state.1.complete id value).1, (state.1.complete id value).2, state.2)
  | .invalidate id reason =>
    ((state.1.invalidate id reason).1, (state.1.invalidate id reason).2, state.2)

def run (state : ExpressionStore × σ) (operations : List (RecordOperation σ)) : ExpressionStore × σ :=
  operations.foldl (fun state operation => (perform state operation).2) state

theorem counts_foldl (entries : List (String × ExpressionRecord)) (counts : ExpressionCounts) :
    (entries.map fun entry => (entry.1, entry.2.apart)).foldl
        (fun counts entry => tally counts entry.2.status) counts =
      ⟨counts.pending + entries.countP (·.2.stage.status == .pending),
        counts.calculating + entries.countP (·.2.stage.status == .calculating),
        counts.done + entries.countP (·.2.stage.status == .done),
        counts.invalid + entries.countP (·.2.stage.status == .invalid)⟩ := by
  induction entries generalizing counts with
  | nil => rfl
  | cons entry rest ih =>
    rw [List.map_cons, List.foldl_cons, ih]
    simp only [ExpressionRecord.apart, List.countP_cons]
    cases entry.2.stage.status <;> simp [tally] <;> omega

end ExpressionStore

namespace Registry
variable {σ : Type} {registry : Registry} {id : String} {stage : Stage} {record : ExpressionRecord}

theorem find?_apart (registry : Registry) (id : String) :
    registry.apart.find? id = (registry.find? id).map ExpressionRecord.apart := by
  simp only [ExpressionStore.find?, apart, find?]
  induction registry.entries with
  | nil => rfl
  | cons entry rest ih =>
    rw [List.map_cons, List.lookup_cons, List.lookup_cons]
    cases id == entry.1 with
    | true => rfl
    | false => exact ih

theorem status?_apart (registry : Registry) (id : String) :
    registry.apart.status? id = registry.status? id := by
  rw [ExpressionStore.status?, find?_apart, Option.map_map, status?]
  rfl

theorem rootTask?_apart (registry : Registry) (id : String) :
    registry.apart.rootTask? id = registry.rootTask? id := by
  rw [ExpressionStore.rootTask?, find?_apart, Option.bind_map, rootTask?]
  rfl

theorem summary?_apart (registry : Registry) (id : String) :
    registry.apart.summary? id = registry.summary? id := by
  rw [ExpressionStore.summary?, find?_apart, Option.map_map, summary?]
  congr 1
  funext record
  exact record.summary_apart id

theorem counts_apart (registry : Registry) : registry.apart.counts = registry.counts := by
  rw [ExpressionStore.counts, apart, ExpressionStore.counts_foldl]
  simp [counts, countOf]

/-- What is found under the id is all that a change of it sees. -/
theorem modify_apart {change : ExpressionRecord → ExpressionRecord}
    {write : StoredExpression → StoredExpression} (hf : registry.find? id = some record)
    (hw : write record.apart = (change record).apart) :
    registry.apart.modify id write = (registry.modify id change).apart := by
  simp only [ExpressionStore.modify, apart, modify, List.map_map]
  congr 1
  apply List.map_congr_left
  intro entry hm
  simp only [Function.comp_apply]
  split
  · next he =>
    obtain rfl : entry.2 = record := by
      have hfound : registry.find? entry.1 = some entry.2 := find?_of_mem hm
      rw [he, hf] at hfound
      exact (Option.some.inj hfound).symm
    rw [hw]
  · rfl

/-- A move is one transition, if it writes what the stage says. -/
theorem transition_apart (stage : Stage) {write : StoredExpression → StoredExpression}
    (hw : ∀ record : ExpressionRecord, record.stage.status.canBecome stage.status = true →
      { write record.apart with status := stage.status } = ({ record with stage } : ExpressionRecord).apart) :
    registry.apart.transition id stage.status write =
      ((registry.moveTo id stage).1, (registry.moveTo id stage).2.apart) := by
  unfold ExpressionStore.transition moveTo
  rw [find?_apart]
  cases hf : registry.find? id with
  | none => rfl
  | some record =>
    simp only [Option.map_some]
    rw [show record.apart.status = record.stage.status from rfl]
    split
    · next hc =>
      have hmodify : registry.apart.modify id (fun expression => { write expression with status := stage.status }) =
          (registry.modify id ({ · with stage })).apart := modify_apart hf (hw record hc)
      rw [hmodify]
    · rfl

theorem markCalculating_apart (registry : Registry) (id : String) : registry.apart.markCalculating id =
    ((registry.markCalculating id).1, (registry.markCalculating id).2.apart) := by
  unfold ExpressionStore.markCalculating markCalculating
  rw [status?_apart]
  split
  · rfl
  · apply transition_apart .calculating
    rintro ⟨source, root, stage⟩ hc
    cases stage <;> first | rfl | cases hc

theorem complete_apart (registry : Registry) (id : String) (value : Binary64) :
    registry.apart.complete id value =
      ((registry.complete id value).1, (registry.complete id value).2.apart) := by
  apply transition_apart (.done value)
  rintro ⟨source, root, stage⟩ hc
  cases stage <;> first | rfl | cases hc

theorem invalidate_apart (registry : Registry) (id reason : String) :
    registry.apart.invalidate id reason =
      ((registry.invalidate id reason).1, (registry.invalidate id reason).2.apart) := by
  apply transition_apart (.invalid reason)
  rintro ⟨source, root, stage⟩ hc
  cases stage <;> first | rfl | cases hc

theorem contains_apart (registry : Registry) (id : String) :
    (registry.apart.find? id).isSome = registry.contains id := by
  rw [find?_apart, Option.isSome_map, contains]

/-- One operation on the image answers the same and leaves the image. -/
theorem perform_apart (state : Registry × σ) (operation : RecordOperation σ) :
    ExpressionStore.perform (state.1.apart, state.2) operation =
      ((perform state operation).1, (perform state operation).2.1.apart,
        (perform state operation).2.2) := by
  cases operation with
  | register id build =>
    cases hc : state.1.contains id with
    | true =>
      obtain ⟨stored, hf⟩ := Option.isSome_iff_exists.mp ((contains_apart ..).trans hc)
      rw [perform_register_taken hc]
      simp only [ExpressionStore.perform, ExpressionStore.register, hf]
    | false =>
      have hf : state.1.apart.find? id = none :=
        Option.isSome_eq_false_iff.mp ((contains_apart ..).trans hc) |> Option.isNone_iff_eq_none.mp
      obtain ⟨registry, hp, hentries, _⟩ := perform_register_free hc build
      rw [hp]
      simp only [ExpressionStore.perform, ExpressionStore.register, hf]
      simp [apart, hentries, Draft.apart_record]
  | markCalculating id => simp only [ExpressionStore.perform, perform, markCalculating_apart]
  | complete id value => simp only [ExpressionStore.perform, perform, complete_apart]
  | invalidate id reason => simp only [ExpressionStore.perform, perform, invalidate_apart]

theorem run_apart (state : Registry × σ) (operations : List (RecordOperation σ)) :
    ExpressionStore.run (state.1.apart, state.2) operations =
      ((run state operations).1.apart, (run state operations).2) := by
  induction operations generalizing state with
  | nil => rfl
  | cons operation rest ih =>
    have hfirst := congrArg Prod.snd (perform_apart state operation)
    simp only [ExpressionStore.run, List.foldl_cons] at ih ⊢
    rw [hfirst, ih]
    rfl

end Registry

end ArithDispatch
