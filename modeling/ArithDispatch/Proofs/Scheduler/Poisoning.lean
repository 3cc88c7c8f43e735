import ArithDispatch.Proofs.Scheduler.History

/-! What comes of a call that panics. Only a pull does so, when the lease of the task that it has found would
run out behind the last moment. From then on no task is handed out, no report is taken and no graph is
accepted, and every record stays as it is. -/
namespace ArithDispatch.Scheduler
variable {s t : Scheduler} {action : Action} {now : Nat} {owner : String} {record : ExpressionRecord}

/-- Pulls, reports and graphs need the table, and so the lock; plain numbers do not. -/
theorem perform_of_poisoned (h : s.poisoned = true) (action : Action) :
    s.perform action = s ∨ ∃ owner source value, action = .accept owner source (.literal value) := by
  cases action with
  | accept owner source compiled =>
    cases compiled with
    | literal value => exact .inr ⟨owner, source, value, rfl⟩
    | graph graph =>
      have hb : s.bars (.graph graph) = true := h
      exact .inl (congrArg Prod.snd (accept_barred hb))
  | pull now => exact .inl (congrArg Prod.snd (pull_of_poisoned h now))
  | report id value => exact .inl (congrArg Prod.snd (report_of_poisoned h id value))

theorem poisoned_accept (s : Scheduler) (owner source : String) (compiled : Formula.Compiled) :
    (s.accept owner source compiled).2.poisoned = s.poisoned := by
  simp only [accept]
  repeat' split
  all_goals rfl

theorem poisoned_finishRoot (s : Scheduler) (task : Task) (value : Binary64) :
    (s.finishRoot task value).poisoned = s.poisoned := by
  unfold finishRoot
  split <;> rfl

theorem poisoned_report (s : Scheduler) (id : Nat) (value : Binary64) :
    (s.report id value).2.poisoned = s.poisoned := by
  unfold report
  repeat' split
  all_goals first | rfl | exact poisoned_finishRoot ..

theorem lease_perform (s : Scheduler) (action : Action) : (s.perform action).lease = s.lease := by
  cases action with
  | accept owner source compiled =>
    simp only [perform, accept]
    repeat' split
    all_goals rfl
  | report id value =>
    simp only [perform, report, finishRoot]
    repeat' split
    all_goals rfl
  | pull now =>
    rcases s.pull_cases now with ⟨_, _, hf, he⟩ | ⟨_, _, _, _, _, _, hs, _, _, _, he⟩
    · rw [perform, he]
      cases hf with
      | locked => rfl
      | idle _ hs => exact hs.lease
      | panicked _ hs => exact hs.lease
    · rw [perform, he]
      exact hs.lease

/-- The table behind a poisoned lock is not read: whatever it holds, the same happens to all the rest. -/
theorem perform_with_table (h : s.poisoned = true) (table : TaskTable) (action : Action) :
    ({ s with table } : Scheduler).perform action = { s.perform action with table } := by
  have hother : ({ s with table } : Scheduler).poisoned = true := h
  cases action with
  | accept owner source compiled =>
    cases compiled with
    | literal value =>
      simp only [perform, accept]
      cases s.registry.register owner (fun _ => (ExpressionRecord.literal source value, ())) () <;> rfl
    | graph graph =>
      have hb : s.bars (.graph graph) = true := h
      have hb' : ({ s with table } : Scheduler).bars (.graph graph) = true := h
      rw [perform, accept_barred hb', perform, accept_barred hb]
  | pull now => rw [perform, pull_of_poisoned hother, perform, pull_of_poisoned h]
  | report id value => rw [perform, report_of_poisoned hother, perform, report_of_poisoned h]

theorem poisoned_perform (h : s.poisoned = true) (action : Action) : (s.perform action).poisoned = true := by
  rcases perform_of_poisoned h action with he | ⟨owner, source, value, rfl⟩
  · rw [he, h]
  · exact (s.poisoned_accept owner source (.literal value)).trans h

theorem poisoned_run (h : s.poisoned = true) (actions : List Action) : (s.run actions).poisoned = true := by
  induction actions generalizing s with
  | nil => exact h
  | cons action rest ih => exact ih (poisoned_perform h action)

/-- A run that ends with a sound lock has had one all along. -/
theorem sound_of_run {first second : List Action} (h : (s.run (first ++ second)).poisoned = false) :
    (s.run first).poisoned = false := by
  rw [run_append] at h
  cases hp : (s.run first).poisoned with
  | false => rfl
  | true => exact absurd (poisoned_run hp second) (Bool.eq_false_iff.mp h)

/-- Behind a poisoned lock no record changes any more. -/
theorem find?_run_of_poisoned (h : s.poisoned = true) (hf : s.registry.find? owner = some record)
    (actions : List Action) : (s.run actions).registry.find? owner = some record := by
  induction actions generalizing s with
  | nil => exact hf
  | cons action rest ih =>
    refine ih (poisoned_perform h action) ?_
    rcases perform_of_poisoned h action with he | ⟨other, source, value, rfl⟩
    · rwa [he]
    · rcases s.accept_cases other source (.literal value) with
        ⟨_, he⟩ | ⟨hnew, ⟨_, t, _, he, _, hfind⟩ | ⟨_, _, heq, _⟩⟩
      · rwa [perform, he]
      · rw [perform, he, hfind, if_neg, hf]
        rintro rfl
        rw [find?_eq_none_of_not_contains hnew] at hf
        cases hf
      · cases heq

theorem isOpen_run_of_poisoned (h : s.poisoned = true) (ho : s.registry.IsOpen owner)
    (actions : List Action) : (s.run actions).registry.IsOpen owner := by
  obtain ⟨record, hf, hopen⟩ := Registry.isOpen_iff.mp ho
  exact Registry.isOpen_iff.mpr ⟨record, find?_run_of_poisoned h hf actions, hopen⟩

theorem poisoned_dispatch (s : Scheduler) (now : Nat) (task : Task) (left right : Binary64)
    (redispatch : Bool) : (s.dispatch now task left right redispatch).2.poisoned = s.poisoned := rfl

theorem pull_eq_panic (h : (s.pull now).1 = .panic) :
    s.poisoned = false ∧ s.leaseFits now = false ∧ ∃ t : Scheduler, s.pull now = (.panic, t.poison) := by
  have he : s.pull now = (.panic, (s.pull now).2) := Prod.ext h rfl
  generalize (s.pull now).2 = t at he
  cases fruitless_of_pull he rfl with
  | panicked hp hs _ hfit => exact ⟨hp, hfit, _, he⟩

/-- The lock is poisoned by the pull that panics, and by nothing else. -/
theorem poisoned_perform_iff : (s.perform action).poisoned = true ↔
    s.poisoned = true ∨ ∃ now, action = .pull now ∧ (s.pull now).1 = .panic := by
  constructor
  · intro h
    cases hp : s.poisoned with
    | true => exact .inl rfl
    | false =>
      refine .inr ?_
      have notKept : (s.perform action).poisoned ≠ s.poisoned := by simp [h, hp]
      cases action with
      | accept owner source compiled => exact absurd (s.poisoned_accept owner source compiled) notKept
      | report id value => exact absurd (s.poisoned_report id value) notKept
      | pull now =>
        refine ⟨now, rfl, ?_⟩
        rcases s.pull_cases now with ⟨outcome, t, hf, he⟩ | ⟨t, _, task, left, right, again, hs, _, _, _, he⟩
        · rw [perform, he] at notKept
          rw [he]
          cases hf with
          | locked => exact absurd rfl notKept
          | idle _ hs => exact absurd hs.poisoned notKept
          | panicked => rfl
        · rw [perform, he] at notKept
          exact absurd ((t.poisoned_dispatch now task left right again).trans hs.poisoned) notKept
  · rintro (h | ⟨now, rfl, h⟩)
    · exact poisoned_perform h action
    · obtain ⟨_, _, t, he⟩ := pull_eq_panic h
      rw [perform, he]
      rfl

theorem poisoned_run_iff {actions : List Action} : (s.run actions).poisoned = true ↔
    s.poisoned = true ∨ ∃ before now after, actions = before ++ .pull now :: after ∧
      ((s.run before).pull now).1 = .panic := by
  induction actions generalizing s with
  | nil => simp [run]
  | cons action rest ih =>
    refine ih.trans ?_
    rw [poisoned_perform_iff]
    constructor
    · rintro ((h | ⟨now, rfl, h⟩) | ⟨before, now, after, rfl, h⟩)
      · exact .inl h
      · exact .inr ⟨[], now, rest, rfl, h⟩
      · exact .inr ⟨action :: before, now, after, rfl, h⟩
    · rintro (h | ⟨before, now, after, he, h⟩)
      · exact .inl (.inl h)
      · cases before with
        | nil =>
          obtain ⟨rfl, rfl⟩ := List.cons.inj he
          exact .inl (.inr ⟨now, rfl, h⟩)
        | cons first before =>
          obtain ⟨rfl, rfl⟩ := List.cons.inj he
          exact .inr ⟨before, now, after, rfl, h⟩

end ArithDispatch.Scheduler
