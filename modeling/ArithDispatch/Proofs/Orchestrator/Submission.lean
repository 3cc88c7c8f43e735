import ArithDispatch.Orchestrator
import ArithDispatch.Proofs.Scheduler.Poisoning
import Mathlib.Data.List.TakeWhile

/-! What clients and workers are told, and that an operation which fails leaves no trace: a submission may use
up an id that it generated, and a report that is refused is counted. Behind a poisoned lock more fails than
else. -/
namespace ArithDispatch

theorem Text.isBlank_iff {text : String} : Text.isBlank text = true ↔ Text.trim text = "" := by
  rw [isBlank, List.all_eq_true, trim, String.ofList_eq_empty_iff, trimChars, List.reverse_eq_nil_iff,
    trimStart, List.dropWhile_eq_nil_iff, trimStart]
  constructor
  · intro h c hc
    exact h c ((List.dropWhile_sublist _).mem (List.mem_reverse.mp hc))
  · intro h
    -- the first character that is left after trimming the beginning is no white space
    cases hd : text.toList.dropWhile isWhiteSpace with
    | nil => exact List.dropWhile_eq_nil_iff.mp hd
    | cons c rest =>
      have hc := List.head?_dropWhile_not isWhiteSpace text.toList
      rw [hd] at hc h
      have := h c (by simp)
      simp [this] at hc

namespace Formula.Fault

theorem failure_ne_emptyExpression (fault : Fault) : fault.failure ≠ .emptyExpression := by
  cases fault <;> simp [failure]

theorem failure_ne_duplicateId (fault : Fault) (id : String) : fault.failure ≠ .duplicateId id := by
  cases fault <;> simp [failure]

theorem failure_ne_tableLockPoisoned (fault : Fault) : fault.failure ≠ .tableLockPoisoned := by
  cases fault <;> simp [failure, Failure.tableLockPoisoned]

end Formula.Fault

namespace Orchestrator
variable {σ : Type} [IdGenerator σ] {o : Orchestrator σ} {given : Option String} {text id : String} {failure : Failure}

/-- The id that a submission asks for: what the client gave without the white space around it, or a new id when
that is nothing. -/
def effectiveId (o : Orchestrator σ) : Option String → String
  | some given => if Text.isBlank given then (IdGenerator.next o.ids).1 else Text.trim given
  | none => (IdGenerator.next o.ids).1

/-- `t` differs from `o` in its supply of ids at most, by one id. -/
def MayIssue (o t : Orchestrator σ) : Prop := t = o ∨ t = { o with ids := (IdGenerator.next o.ids).2 }

theorem MayIssue.scheduler {t : Orchestrator σ} (h : o.MayIssue t) : t.scheduler = o.scheduler := by
  rcases h with rfl | rfl <;> rfl

theorem chooseId_of_blank (o : Orchestrator σ) (h : ∀ name, given = some name → Text.isBlank name = true) :
    o.chooseId given = ((IdGenerator.next o.ids).1, { o with ids := (IdGenerator.next o.ids).2 }) := by
  cases given with
  | none => rfl
  | some name =>
    simp only [chooseId, Option.map_some, Text.isBlank_iff.mp (h name rfl)]
    rfl

theorem chooseId_of_named (o : Orchestrator σ) {name : String} (h : Text.isBlank name = false) :
    o.chooseId (some name) = (Text.trim name, o) := by
  have hne : Text.trim name ≠ "" := fun he => Bool.false_ne_true (h.symm.trans (Text.isBlank_iff.mpr he))
  simp [chooseId, Option.filter, hne]

theorem chooseId_eq (o : Orchestrator σ) (given : Option String) :
    ∃ t, o.MayIssue t ∧ o.chooseId given = (o.effectiveId given, t) := by
  cases given with
  | none => exact ⟨_, .inr rfl, rfl⟩
  | some name =>
    cases hb : Text.isBlank name with
    | true =>
      rw [o.chooseId_of_blank (by simp [hb]), effectiveId, if_pos hb]
      exact ⟨_, .inr rfl, rfl⟩
    | false =>
      rw [o.chooseId_of_named hb, effectiveId, if_neg (by simp [hb])]
      exact ⟨o, .inl rfl, rfl⟩

/-- The ends of a submission: only the last one touches the scheduler. -/
theorem submit_cases (o : Orchestrator σ) (given : Option String) (text : String) :
    (Text.isBlank text = true ∧ o.submit given text = (.error .emptyExpression, o)) ∨
    Text.isBlank text = false ∧ ∃ t, o.MayIssue t ∧
      ((o.scheduler.registry.contains (o.effectiveId given) = true ∧
        o.submit given text = (.error (.duplicateId (o.effectiveId given)), t)) ∨
      o.scheduler.registry.contains (o.effectiveId given) = false ∧
        ((∃ fault, Formula.compile text = .error fault ∧ o.submit given text = (.error fault.failure, t)) ∨
        ∃ compiled, Formula.compile text = .ok compiled ∧
          ((o.scheduler.bars compiled = true ∧ o.submit given text = (.error .tableLockPoisoned, t)) ∨
          o.scheduler.bars compiled = false ∧ ∃ s,
            o.scheduler.accept (o.effectiveId given) text compiled = (.ok (), s) ∧
            o.submit given text = (.ok (o.effectiveId given), { t with scheduler := s })))) := by
  obtain ⟨t, ht, hchoose⟩ := o.chooseId_eq given
  simp only [submit, hchoose, ht.scheduler]
  cases hblank : Text.isBlank text with
  | true => exact .inl ⟨rfl, rfl⟩
  | false =>
    refine .inr ⟨rfl, t, ht, ?_⟩
    cases htaken : o.scheduler.registry.contains (o.effectiveId given) with
    | true => exact .inl ⟨rfl, rfl⟩
    | false =>
      refine .inr ⟨rfl, ?_⟩
      cases hcompile : Formula.compile text with
      | error fault => exact .inl ⟨fault, rfl, rfl⟩
      | ok compiled =>
        refine .inr ⟨compiled, rfl, ?_⟩
        dsimp only
        cases hb : o.scheduler.bars compiled with
        | true =>
          rw [Scheduler.accept_barred hb, ← ht.scheduler]
          exact .inl ⟨rfl, rfl⟩
        | false =>
          have hok : (o.scheduler.accept (o.effectiveId given) text compiled).1 = .ok () :=
            Scheduler.accept_free hb (by simp [htaken])
          refine .inr ⟨rfl, _, Prod.ext hok rfl, ?_⟩
          simp [hok, Except.map]

/-- A submission leaves the scheduler as it is, or has it accept the compiled text. -/
theorem scheduler_submit (o : Orchestrator σ) (given : Option String) (text : String) :
    (o.submit given text).2.scheduler = o.scheduler ∨
      ∃ id compiled, Formula.compile text = .ok compiled ∧
        (o.submit given text).2.scheduler = (o.scheduler.accept id text compiled).2 := by
  rcases o.submit_cases given text with
    ⟨_, he⟩ | ⟨_, t, ht, ⟨_, he⟩ | ⟨_, ⟨_, _, he⟩ | ⟨compiled, hcompile, ⟨_, he⟩ | ⟨_, s, hs, he⟩⟩⟩⟩ <;>
    rw [he]
  · exact .inl rfl
  · exact .inl ht.scheduler
  · exact .inl ht.scheduler
  · exact .inl ht.scheduler
  · exact .inr ⟨o.effectiveId given, compiled, hcompile, by rw [hs]⟩

theorem coherent_submit (h : Scheduler.Coherent o.scheduler) (given : Option String) (text : String) :
    Scheduler.Coherent (o.submit given text).2.scheduler := by
  rcases o.scheduler_submit given text with he | ⟨id, compiled, hcompile, he⟩
  · rw [he]
    exact h
  · rw [he]
    exact h.accept (fun graph hg => Formula.isTree_of_compile (hg ▸ hcompile)) id text

theorem submit_emptyExpression_iff :
    (o.submit given text).1 = .error .emptyExpression ↔ Text.isBlank text = true := by
  rcases o.submit_cases given text with
    ⟨hb, he⟩ | ⟨hb, _, _, ⟨_, he⟩ | ⟨_, ⟨fault, _, he⟩ | ⟨_, _, ⟨_, he⟩ | ⟨_, _, _, he⟩⟩⟩⟩
  · simp [he, hb]
  · simp [he, hb]
  · simp [he, hb, fault.failure_ne_emptyExpression]
  · simp [he, hb, Failure.tableLockPoisoned]
  · simp [he, hb]

theorem submit_duplicateId_iff : (o.submit given text).1 = .error (.duplicateId id) ↔
    id = o.effectiveId given ∧ ¬ Text.isBlank text = true ∧
      o.scheduler.registry.contains (o.effectiveId given) = true := by
  rcases o.submit_cases given text with
    ⟨hb, he⟩ | ⟨hb, _, _, ⟨ht, he⟩ | ⟨ht, ⟨fault, _, he⟩ | ⟨_, _, ⟨_, he⟩ | ⟨_, _, _, he⟩⟩⟩⟩
  · simp [he, hb]
  · simp [he, hb, ht, eq_comm]
  · simp [he, ht, fault.failure_ne_duplicateId]
  · simp [he, ht, Failure.tableLockPoisoned]
  · simp [he, ht]

theorem submit_fault_iff {fault : Formula.Fault} (h : Formula.compile text = .error fault) :
    (o.submit given text).1 = .error fault.failure ↔
      ¬ Text.isBlank text = true ∧ ¬ o.scheduler.registry.contains (o.effectiveId given) = true := by
  rcases o.submit_cases given text with
    ⟨hb, he⟩ | ⟨hb, _, _, ⟨ht, he⟩ | ⟨ht, ⟨other, hc, he⟩ | ⟨_, hc, _⟩⟩⟩
  · simp [he, hb, fault.failure_ne_emptyExpression.symm]
  · simp [he, ht, (fault.failure_ne_duplicateId _).symm]
  · cases h.symm.trans hc
    simp [he, hb, ht]
  · cases h.symm.trans hc

theorem submit_tableLockPoisoned_iff : (o.submit given text).1 = .error .tableLockPoisoned ↔
    ¬ Text.isBlank text = true ∧ ¬ o.scheduler.registry.contains (o.effectiveId given) = true ∧
      ∃ compiled, Formula.compile text = .ok compiled ∧ o.scheduler.bars compiled = true := by
  rcases o.submit_cases given text with
    ⟨hb, he⟩ | ⟨hb, _, _, ⟨ht, he⟩ | ⟨ht, ⟨fault, hc, he⟩ | ⟨_, hc, ⟨hbars, he⟩ | ⟨hbars, _, _, he⟩⟩⟩⟩
  · simp [he, hb, Failure.tableLockPoisoned]
  · simp [he, ht, Failure.tableLockPoisoned]
  · simp [he, hc, fault.failure_ne_tableLockPoisoned]
  · simp [he, hb, ht, hc, hbars]
  · simp [he, hc, hbars]

theorem submit_ok_iff : (o.submit given text).1 = .ok id ↔
    id = o.effectiveId given ∧ ¬ Text.isBlank text = true ∧
      ¬ o.scheduler.registry.contains (o.effectiveId given) = true ∧
      ∃ compiled, Formula.compile text = .ok compiled ∧ o.scheduler.bars compiled = false := by
  rcases o.submit_cases given text with
    ⟨hb, he⟩ | ⟨hb, _, _, ⟨ht, he⟩ | ⟨ht, ⟨_, hc, he⟩ | ⟨_, hc, ⟨hbars, he⟩ | ⟨hbars, _, _, he⟩⟩⟩⟩
  · simp [he, hb]
  · simp [he, ht]
  · simp [he, hc]
  · simp [he, hc, hbars]
  · rw [he, Except.ok.injEq, eq_comm]
    simp [hb, ht, hc, hbars]

theorem mayIssue_of_submit (h : (o.submit given text).1 = .error failure) :
    o.MayIssue (o.submit given text).2 := by
  rcases o.submit_cases given text with
    ⟨_, he⟩ | ⟨_, t, ht, ⟨_, he⟩ | ⟨_, ⟨_, _, he⟩ | ⟨_, _, ⟨_, he⟩ | ⟨_, _, _, he⟩⟩⟩⟩
  · rw [he]
    exact .inl rfl
  · rwa [he]
  · rwa [he]
  · rwa [he]
  · rw [he] at h
    cases h

/-- What is accepted can be looked up under the id that the client is told. -/
theorem expression_of_submit (h : (o.submit given text).1 = .ok id) :
    ∃ summary, (o.submit given text).2.expression id = .ok summary ∧ summary.expression = text := by
  rcases o.submit_cases given text with
    ⟨_, he⟩ | ⟨_, t, _, ⟨_, he⟩ | ⟨_, ⟨_, _, he⟩ | ⟨compiled, _, ⟨_, he⟩ | ⟨_, s, hs, he⟩⟩⟩⟩ <;>
    rw [he] at h <;> cases h
  obtain ⟨record, hsource, hf⟩ := Scheduler.find?_accept (congrArg Prod.fst hs)
  rw [hs] at hf
  rw [he]
  refine ⟨record.summary (o.effectiveId given), ?_, hsource⟩
  simp only [expression, Scheduler.expression, Registry.summary?, hf, if_true, Option.map_some]

omit [IdGenerator σ] in
/-- A report that is refused is counted, and that is all; behind a poisoned lock it is not even that. -/
theorem report_refused {task : Nat} {value : Binary64} (h : (o.report task value).1 = .error failure) :
    (o.report task value).2 =
      if o.scheduler.poisoned then o else { o with scheduler := o.scheduler.refuse } := by
  have hrefused : o.scheduler.poisoned = false → ∀ live, o.scheduler.table.get? task = some live →
      Scheduler.refusal? live ≠ none := by
    intro hp live hg hr
    simp only [report, Scheduler.report_of_awaited hp hg hr] at h
    cases h
  obtain ⟨_, s, hf, he⟩ := Scheduler.report_of_refused hrefused value
  simp only [report, he]
  cases hf with
  | locked hp => rw [if_pos hp]
  | unknown hp => rw [if_neg (Bool.eq_false_iff.mp hp)]
  | unawaited hp => rw [if_neg (Bool.eq_false_iff.mp hp)]

omit [IdGenerator σ] in
theorem pull_error_iff {now : Nat} : (o.pull now).1 = .error failure ↔
    failure = .tableLockPoisoned ∧ o.scheduler.poisoned = true := by
  constructor
  · intro h
    have he : o.scheduler.pull now = (.error failure, (o.scheduler.pull now).2) := Prod.ext h rfl
    generalize (o.scheduler.pull now).2 = s at he
    cases Scheduler.fruitless_of_pull he rfl with
    | locked hp => exact ⟨rfl, hp⟩
  · rintro ⟨rfl, hp⟩
    exact congrArg Prod.fst (Scheduler.pull_of_poisoned hp now)

/-- A submission is refused for the first of these reasons: its text is blank, its id is taken, its text does not
compile, it compiles to a graph and the lock is poisoned. Then nothing but the supply of ids can have changed;
else the expression is there under the id that the client is told. A report that is refused changes one
counter, or nothing behind a poisoned lock. A pull fails if the lock is poisoned and only then, and it can
panic only over a lease that would run out behind the last moment. -/
theorem failures_leave_no_trace (o : Orchestrator σ) (given : Option String) (text : String) :
    let answer := (o.submit given text).1
    let after := (o.submit given text).2
    let effective := o.effectiveId given
    let blank := Text.isBlank text = true
    let taken := o.scheduler.registry.contains effective = true
    (answer = .error .emptyExpression ↔ blank) ∧
    (∀ id, answer = .error (.duplicateId id) ↔ id = effective ∧ ¬ blank ∧ taken) ∧
    (∀ fault, Formula.compile text = .error fault → (answer = .error fault.failure ↔ ¬ blank ∧ ¬ taken)) ∧
    (answer = .error .tableLockPoisoned ↔ ¬ blank ∧ ¬ taken ∧
      ∃ compiled, Formula.compile text = .ok compiled ∧ o.scheduler.bars compiled = true) ∧
    (∀ id, answer = .ok id ↔ id = effective ∧ ¬ blank ∧ ¬ taken ∧
      ∃ compiled, Formula.compile text = .ok compiled ∧ o.scheduler.bars compiled = false) ∧
    (∀ id, answer = .ok id → ∃ summary, after.expression id = .ok summary ∧ summary.expression = text) ∧
    (∀ failure, answer = .error failure → o.MayIssue after) ∧
    (∀ task value failure, (o.report task value).1 = .error failure → (o.report task value).2 =
      if o.scheduler.poisoned then o
      else { o with scheduler := { o.scheduler with metrics := { o.scheduler.metrics with
          resultsRejected := o.scheduler.metrics.resultsRejected + 1 } } }) ∧
    (∀ now failure, (o.pull now).1 = .error failure ↔
      failure = .tableLockPoisoned ∧ o.scheduler.poisoned = true) ∧
    ∀ now, (o.pull now).1 = .panic → o.scheduler.poisoned = false ∧ o.scheduler.leaseFits now = false := by
  refine ⟨submit_emptyExpression_iff, fun _ => submit_duplicateId_iff, fun _ => submit_fault_iff,
    submit_tableLockPoisoned_iff, fun _ => submit_ok_iff, fun _ => expression_of_submit,
    fun _ => mayIssue_of_submit, fun _ _ _ => report_refused, fun _ _ => pull_error_iff, fun now h => ?_⟩
  obtain ⟨hp, hfits, _⟩ := Scheduler.pull_eq_panic (s := o.scheduler) h
  exact ⟨hp, hfits⟩

/-- While a sum waits, a division by zero is refused and a number accepted, each under a new id, and a report
for the sum comes too early. -/
theorem no_trace_beside_waiting_sum :
    let o := ((create {} (⟨"expr", 0⟩ : SequentialIds)).submit (some "a") "1+2").2
    (o.submit (some " ") "1/0").1 = .error (.semanticError "division by zero") ∧
      o.MayIssue (o.submit (some " ") "1/0").2 ∧
      (o.submit none " 3 ").1 = .ok "expr-1" ∧
      (∃ summary, (o.submit none " 3 ").2.expression "expr-1" = .ok summary ∧ summary.expression = " 3 ") ∧
      (o.report 1 .zero).1 = .error (.taskNotAwaitingResult 1 "not dispatched") ∧
      (o.report 1 .zero).2 = { o with scheduler := { o.scheduler with metrics := { o.scheduler.metrics with
        resultsRejected := o.scheduler.metrics.resultsRejected + 1 } } } := by
  intro o
  obtain ⟨_, _, hfault, _, _, _, htrace, hreport, _⟩ := failures_leave_no_trace o (some " ") "1/0"
  obtain ⟨_, _, _, _, _, hexpression, _⟩ := failures_leave_no_trace o none " 3 "
  have hcompile : Formula.compile "1/0" = .error .divisionByZero := by decide +kernel
  have hdivision : (o.submit (some " ") "1/0").1 = .error (.semanticError "division by zero") :=
    (hfault _ hcompile).mpr ⟨by decide +kernel, by decide +kernel⟩
  have haccepted : (o.submit none " 3 ").1 = .ok "expr-1" := by decide +kernel
  have hearly : (o.report 1 .zero).1 = .error (.taskNotAwaitingResult 1 "not dispatched") := by
    decide +kernel
  have hlock : o.scheduler.poisoned = false := by decide +kernel
  have hcounted := hreport _ _ _ hearly
  rw [hlock, if_neg Bool.false_ne_true] at hcounted
  exact ⟨hdivision, htrace _ hdivision, haccepted, hexpression _ haccepted, hearly, hcounted⟩

/-- Under the longest lease the first pull panics. Then the next one fails, and so does the submission of a sum
under a free id; and a report that fails is not counted. -/
theorem trace_of_panic_under_longest_lease :
    let o := ((create { taskLease := some .longest } (⟨"expr", 0⟩ : SequentialIds)).submit (some "a") "1+2").2
    let after := (o.pull 0).2
    (o.pull 0).1 = .panic ∧ (after.pull 0).1 = .error .tableLockPoisoned ∧
      after.effectiveId (some "b") = "b" ∧ after.scheduler.registry.contains "b" = false ∧
      Formula.compile "1+2" = .ok (.graph Formula.sumGraph) ∧
      (after.submit (some "b") "1+2").1 = .error .tableLockPoisoned ∧
      (after.report 1 .three).1 = .error .tableLockPoisoned ∧
      (after.report 1 .three).2.scheduler.metrics.resultsRejected = after.scheduler.metrics.resultsRejected := by
  intro o after
  exact ⟨by decide +kernel, by decide +kernel, by decide +kernel, by decide +kernel, by decide +kernel,
    by decide +kernel, by decide +kernel, by decide +kernel⟩

end Orchestrator

end ArithDispatch
