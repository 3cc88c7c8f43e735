import ArithDispatch.Proofs.Expression.Apart
import ArithDispatch.Proofs.Expression.Count
import Mathlib.Data.List.Dedup
import Mathlib.Data.List.Induction
import Mathlib.Data.List.Perm.Basic

/-! The records of expressions stay consistent under any sequence of operations. What has ended an expression is
one deed at most, and it is the stage that the record shows. -/
namespace ArithDispatch.Registry
variable {σ : Type} {state : Registry × σ} {operation : RecordOperation σ}
  {operations : List (RecordOperation σ)} {events : List Deed} {registry : Registry} {id : String}
  {stage : Stage} {record : ExpressionRecord}

/-- The last stages that the deeds brought the expression to, in turn. -/
def closings (events : List Deed) (id : String) : List Stage := events.filterMap (Deed.closing? id)

/-- The stage of an expression that has come to its end. -/
def lastStage? (registry : Registry) (id : String) : Option Stage :=
  (registry.find? id).bind fun record =>
    if record.stage.status.isTerminal then some record.stage else none

/-- The registry shows of every expression what the deeds have brought it to. -/
def Accounts (events : List Deed) (registry : Registry) : Prop :=
  ∀ id, closings events id = (registry.lastStage? id).toList

theorem closings_append (events more : List Deed) (id : String) :
    closings (events ++ more) id = closings events id ++ closings more id :=
  List.filterMap_append

theorem lastStage?_of_find? (h : registry.find? id = some record) : registry.lastStage? id =
    if record.stage.status.isTerminal then some record.stage else none := by
  rw [lastStage?, h, Option.bind_some]

theorem lastStage?_congr {after : Registry} (h : after.find? id = registry.find? id) :
    after.lastStage? id = registry.lastStage? id := by
  rw [lastStage?, h, lastStage?]

theorem Accounts.register_free {build : σ → Draft × σ} {other : String}
    (h : Accounts events state.1) (hc : state.1.contains other = false) :
    Accounts (events ++ observe state (.register other build))
      (perform state (.register other build)).2.1 := by
  obtain ⟨registry, hp, _, hf⟩ := perform_register_free hc build
  intro id
  rw [closings_append, h id]
  simp only [observe, hp, if_true]
  by_cases he : other = id
  · subst he
    have hbefore : state.1.lastStage? other = none := by
      rw [lastStage?, Option.not_isSome_iff_eq_none.mp (Bool.eq_false_iff.mp hc), Option.bind_none]
    rw [hbefore, lastStage?_of_find? ((hf other).trans (if_pos rfl))]
    cases (build state.2).1 <;> simp [closings, Deed.closing?, Draft.record, ExpressionRecord.pending,
      ExpressionRecord.literal, Stage.status, ExpressionStatus.isTerminal]
  · rw [lastStage?_congr ((hf id).trans (if_neg (Ne.symm he)))]
    cases (build state.2).1 <;> simp [closings, Deed.closing?, he]

theorem Accounts.move {other : String} (h : Accounts events state.1)
    (ht : operation.target? = some (other, stage)) :
    Accounts (events ++ observe state operation) (perform state operation).2.1 := by
  obtain ⟨hafter, hanswer⟩ := perform_of_target ht state
  intro id
  rw [closings_append, h id, hafter, observe_of_target ht]
  cases hm : (state.1.moveTo other stage).1 with
  | true =>
    obtain ⟨record, hf, hc⟩ := moveTo_eq_true hm
    rw [if_pos (hanswer.mpr (.inl hm))]
    by_cases he : other = id
    · subst he
      have hfound : (state.1.moveTo other stage).2.find? other = some { record with stage } := by
        rw [find?_moveTo, if_pos ⟨hm, rfl⟩, hf, Option.map_some]
      have hopen := ExpressionStatus.isTerminal_eq_false_of_canBecome hc
      rw [lastStage?_of_find? hf, lastStage?_of_find? hfound, hopen]
      cases hs : stage.status.isTerminal <;> simp [closings, Deed.closing?, hs]
    · rw [lastStage?_congr (find?_moveTo_of_ne _ (Ne.symm he) _)]
      simp [closings, Deed.closing?, he]
  | false =>
    have hsame : (state.1.moveTo other stage).2.find? id = state.1.find? id := by
      rw [find?_moveTo, hm, if_neg (by simp)]
    rw [lastStage?_congr hsame]
    split
    · next htrue =>
      -- only the move to calculating is in effect without taking place
      obtain ⟨rfl, _⟩ := (hanswer.mp htrue).resolve_left (by simp [hm])
      simp [closings, Deed.closing?, Stage.status, ExpressionStatus.isTerminal]
    · simp [closings]

theorem Accounts.perform (h : Accounts events state.1) (operation : RecordOperation σ) :
    Accounts (events ++ observe state operation) (perform state operation).2.1 := by
  rcases register_or_target operation with ⟨id, build, rfl⟩ | ⟨id, stage, ht⟩
  · cases hc : state.1.contains id with
    | true =>
      simp only [observe, perform_register_taken hc]
      simpa using h
    | false => exact h.register_free hc
  · exact h.move ht

theorem accounts_run (made : σ) (operations : List (RecordOperation σ)) :
    Accounts (deeds ({}, made) operations) (run ({}, made) operations).1 := by
  induction operations using List.reverseRecOn with
  | nil => exact fun id => rfl
  | append_singleton operations operation ih =>
    rw [deeds_concat, run_concat]
    exact ih.perform operation

theorem contains_iff_mem : registry.contains id = true ↔ id ∈ registry.entries.map Prod.fst := by
  rw [contains, find?, List.mem_map]
  constructor
  · intro h
    by_contra hn
    rw [List.lookup_eq_none_iff.mpr fun entry hm => ?_] at h
    · cases h
    · exact bne_iff_ne.mpr fun he => hn ⟨entry, hm, he.symm⟩
  · rintro ⟨entry, hm, rfl⟩
    rw [← find?, find?_of_mem hm]
    rfl

theorem contains_perform (state : Registry × σ) (operation : RecordOperation σ) (id : String) :
    (perform state operation).2.1.contains id = true ↔
      state.1.contains id = true ∨ operation.registers? = some id := by
  rcases register_or_target operation with ⟨other, build, rfl⟩ | ⟨other, stage, ht⟩
  · cases hc : state.1.contains other with
    | true =>
      rw [perform_register_taken hc, or_iff_left_of_imp]
      rintro ⟨⟩
      exact hc
    | false =>
      obtain ⟨registry, hp, _, hf⟩ := perform_register_free hc build
      rw [hp, contains_insert hf, or_comm, RecordOperation.registers?, Option.some.injEq]
      exact or_congr_right eq_comm
  · have hnone : operation.registers? = none := by cases operation <;> first | rfl | cases ht
    rw [(perform_of_target ht state).1, contains_moveTo, hnone]
    simp

theorem contains_run (made : σ) (operations : List (RecordOperation σ)) (id : String) :
    (run ({}, made) operations).1.contains id = true ↔
      id ∈ operations.filterMap RecordOperation.registers? := by
  induction operations using List.reverseRecOn with
  | nil => simp [run, contains]
  | append_singleton operations operation ih =>
    rw [run_concat, contains_perform, ih, List.filterMap_append, List.mem_append]
    simp [List.mem_filterMap]

/-- Every id that was to be registered is registered once. -/
theorem size_run (made : σ) (operations : List (RecordOperation σ)) :
    (run ({}, made) operations).1.size =
      (operations.filterMap RecordOperation.registers?).dedup.length := by
  have hperm : ((run ({}, made) operations).1.entries.map Prod.fst).Perm
      (operations.filterMap RecordOperation.registers?).dedup := by
    refine (List.perm_ext_iff_of_nodup (distinct _) (List.nodup_dedup _)).mpr fun id => ?_
    rw [List.mem_dedup, ← contains_run made, contains_iff_mem]
  rw [size, ← hperm.length_eq, List.length_map]

/-- An answer says whether the move is in effect: by this very call or, for the move to calculating, also by an
earlier one. -/
theorem perform_eq_true_iff (ht : operation.target? = some (id, stage)) :
    (perform state operation).1 = true ↔ ∃ record, state.1.find? id = some record ∧
      (perform state operation).2.1.find? id = some { record with stage } ∧
      (record.stage.status = stage.status → stage = .calculating) := by
  obtain ⟨hafter, hanswer⟩ := perform_of_target ht state
  rw [hanswer, hafter]
  constructor
  · rintro (hm | ⟨rfl, hs⟩)
    · obtain ⟨record, hf, hc⟩ := moveTo_eq_true hm
      refine ⟨record, hf, by rw [find?_moveTo, if_pos ⟨hm, rfl⟩, hf, Option.map_some], fun he => ?_⟩
      rw [he] at hc
      cases hst : stage.status <;> rw [hst] at hc <;> cases hc
    · obtain ⟨record, hf, hs⟩ := Option.map_eq_some_iff.mp hs
      have hfound := find?_markCalculating_of_open hf (by rw [hs]; rfl)
      rw [markCalculating_eq_moveTo] at hfound
      exact ⟨record, hf, hfound, fun _ => rfl⟩
  · rintro ⟨record, hf, hfound, honce⟩
    by_cases hm : (state.1.moveTo id stage).1 = true
    · exact .inl hm
    · rw [find?_moveTo, if_neg fun h => hm h.1, hf] at hfound
      have hstage : record.stage.status = stage.status :=
        congrArg (·.stage.status) (Option.some.inj hfound)
      refine .inr ⟨honce hstage, ?_⟩
      rw [status?, hf, Option.map_some, hstage, honce hstage]
      rfl

theorem moveTo_of_refused (h : (registry.moveTo id stage).1 = false) :
    (registry.moveTo id stage).2 = registry := by
  unfold moveTo at h ⊢
  split
  · rfl
  · next hf =>
    rw [hf] at h
    split
    · next hc => simp [hc] at h
    · rfl

theorem perform_eq_false (ht : operation.target? = some (id, stage))
    (h : (perform state operation).1 = false) : (perform state operation).2 = state := by
  obtain ⟨hafter, hanswer⟩ := perform_of_target ht state
  have hm : (state.1.moveTo id stage).1 = false := by
    apply Bool.eq_false_iff.mpr
    intro hm
    rw [hanswer.mpr (.inl hm)] at h
    cases h
  rw [hafter]
  exact Prod.ext (moveTo_of_refused hm) rfl

/-- A summary shows how its expression came to its end. -/
theorem Accounts.of_summary {summary : ExpressionSummary} (h : Accounts events registry)
    (hs : registry.summary? id = some summary) :
    (summary.error.isSome = true ↔ summary.status = .invalid) ∧
    (summary.result.isSome = true ↔ summary.status = .done) ∧
    (∀ value, summary.result = some value ↔ closings events id = [.done value]) ∧
    ∀ reason, summary.error = some reason ↔ closings events id = [.invalid reason] := by
  obtain ⟨record, hf, rfl⟩ := Option.map_eq_some_iff.mp hs
  rw [h id, lastStage?_of_find? hf]
  obtain ⟨source, root, stage⟩ := record
  cases stage <;> simp [ExpressionRecord.summary, Stage.status, Stage.error?, Stage.result?,
    ExpressionStatus.isTerminal]

/-- The records of expressions are consistent whatever is done in whatever order. An id is registered by its
first registration; a later one builds nothing and changes nothing. A record keeps its origin and moves only
forward, and at its last stage it stays as it is. A move is answered by true exactly when it is in effect by this
call, or was in effect already when work begins; else it changes nothing. A result is shown exactly when the
status is done, an error exactly when it is invalid, and it is the one that the single deed has brought which
ended the expression. The counts add up to the number of registered ids. All this is the same when status,
result and error are kept apart. -/
theorem records_stay_consistent (made : σ) (operations : List (RecordOperation σ)) :
    let start : Registry × σ := ({}, made)
    let s := run start operations
    let ids := operations.filterMap RecordOperation.registers?
    let store := ExpressionStore.run ({}, made) operations
    (∀ id, (s.1.contains id = true ↔ id ∈ ids) ∧ ∀ build,
      (id ∈ ids → perform s (.register id build) = (false, s)) ∧
      (id ∉ ids → ∃ registry, perform s (.register id build) = (true, registry, (build s.2).2) ∧
        ∀ other, registry.find? other =
          if other = id then some (build s.2).1.record else s.1.find? other)) ∧
    (∀ front back id record, operations = front ++ back → (run start front).1.find? id = some record →
      ∃ later, s.1.find? id = some later ∧ record.Leads later ∧
        (record.stage.status.isTerminal = true → later = record)) ∧
    (∀ operation id stage, operation.target? = some (id, stage) →
      ((perform s operation).1 = true ↔ ∃ record, s.1.find? id = some record ∧
        (perform s operation).2.1.find? id = some { record with stage } ∧
        (record.stage.status = stage.status → stage = .calculating)) ∧
      ((perform s operation).1 = false → (perform s operation).2 = s) ∧
      ∀ record, s.1.find? id = some record → record.stage.status.isTerminal = true →
        (perform s operation).1 = false) ∧
    (∀ id summary, s.1.summary? id = some summary →
      (summary.error.isSome = true ↔ summary.status = .invalid) ∧
      (summary.result.isSome = true ↔ summary.status = .done) ∧
      (∀ value, summary.result = some value ↔ closings (deeds start operations) id = [.done value]) ∧
      ∀ reason, summary.error = some reason ↔ closings (deeds start operations) id = [.invalid reason]) ∧
    s.1.counts.total = ids.dedup.length ∧
    (∀ operation, (ExpressionStore.perform store operation).1 = (perform s operation).1) ∧
    (∀ id, store.1.summary? id = s.1.summary? id ∧ store.1.rootTask? id = s.1.rootTask? id) ∧
    store.1.counts = s.1.counts ∧ store.2 = s.2 := by
  intro start s ids store
  have hcontains : ∀ id, s.1.contains id = true ↔ id ∈ ids := contains_run made operations
  have hstore : store = (s.1.apart, s.2) := run_apart start operations
  refine ⟨?registers, ?leads, ?answers, fun id summary => (accounts_run made operations).of_summary, ?counts,
    ?same⟩
  case registers =>
    intro id
    refine ⟨hcontains id, fun build => ⟨fun hm => ?_, fun hm => ?_⟩⟩
    · exact perform_register_taken ((hcontains id).mpr hm) build
    · have hfree : s.1.contains id = false := Bool.eq_false_iff.mpr fun hc => hm ((hcontains id).mp hc)
      obtain ⟨registry, hp, _, hf⟩ := perform_register_free hfree build
      exact ⟨registry, hp, hf⟩
  case leads =>
    intro front back id record he hf
    subst he
    obtain ⟨later, hlater, hleads⟩ := leads_run hf back
    rw [← run_append] at hlater
    exact ⟨later, hlater, hleads, hleads.eq_of_terminal⟩
  case answers =>
    intro operation id stage ht
    refine ⟨perform_eq_true_iff ht, perform_eq_false ht, fun record hf hterminal => ?_⟩
    rw [perform_of_terminal hf hterminal ht]
  case counts => rw [total_counts, size_run]
  case same =>
    rw [hstore]
    exact ⟨fun operation => congrArg Prod.fst (perform_apart s operation),
      fun id => ⟨summary?_apart .., rootTask?_apart ..⟩, counts_apart .., rfl⟩

/-- A sum is completed without ever being handed out. Its id is not given again, for which no record is built,
and it cannot be made invalid any more. -/
theorem sum_completed_unseen :
    let three : Binary64 := .three
    let build (made : Nat) : Draft × Nat := (.pending "1+2" 1, made + 1)
    let operations : List (RecordOperation Nat) :=
      [.register "a" build, .complete "b" .zero, .complete "a" three]
    let s := run ({}, 0) operations
    perform s (.register "a" build) = (false, s) ∧ s.2 = 1 ∧
      (perform s (.invalidate "a" "division by zero")).1 = false ∧
      s.1.summary? "a" = some ⟨"a", "1+2", .done, some three, none⟩ ∧ s.1.counts.total = 1 := by
  intro three build operations s
  obtain ⟨hregisters, _, hanswers, _, hcounts, _⟩ := records_stay_consistent 0 operations
  have hf : s.1.find? "a" = some ⟨"1+2", some 1, .done three⟩ := by decide +kernel
  refine ⟨((hregisters "a").2 build).1 (by decide +kernel), by decide +kernel,
    (hanswers _ "a" _ rfl).2.2 _ hf rfl, by decide +kernel, ?_⟩
  exact hcounts.trans (by decide +kernel)

end ArithDispatch.Registry
