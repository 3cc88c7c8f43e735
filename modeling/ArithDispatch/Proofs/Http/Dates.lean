import ArithDispatch.Proofs.Http.Delivery

/-! What clients are shown of an expression as time goes by. It keeps the date of its creation, and once it is
done or invalid nothing about it changes any more. -/
namespace ArithDispatch.Http
open Scheduler (Coherent)

variable {σ : Type} [IdGenerator σ] {service : Service σ} {id : String} {record : ExpressionRecord}

/-- A call dates the expressions whose status it changes, and no other. -/
theorem dates_run (service : Service σ) (occasion : Occasion) (call : Call) (id : String) :
    (call.run service occasion).2.dates id =
      (service.dates id).after (service.orchestrator.scheduler.registry.status? id)
        ((call.run service occasion).2.orchestrator.scheduler.registry.status? id) (occasion.date id) := by
  cases call with
  | submit submission => rfl
  | list => exact (Dates.after_self ..).symm
  | get other => exact (Dates.after_self ..).symm
  | pull => rfl
  | report sent => rfl
  | stats => exact (Dates.after_self ..).symm

/-- One state later an expression is still there, created when it was; if it had come to a last stage it is the same
in everything. -/
theorem kept_by_run (h : Coherent service.orchestrator.scheduler)
    (hf : service.orchestrator.scheduler.registry.find? id = some record) (occasion : Occasion) (call : Call) :
    ∃ after, (call.run service occasion).2.orchestrator.scheduler.registry.find? id = some after ∧
      ((call.run service occasion).2.dates id).created = (service.dates id).created ∧
      (record.stage.status.isTerminal = true →
        after = record ∧ (call.run service occasion).2.dates id = service.dates id) := by
  have hstatus : service.orchestrator.scheduler.registry.status? id = some record.stage.status := by
    rw [Registry.status?, hf]
    rfl
  rcases service.scheduler_run occasion call with he | ⟨action, _, he⟩
  · have hsame : (call.run service occasion).2.dates id = service.dates id := by
      rw [dates_run, he, Dates.after_self]
    exact ⟨record, he ▸ hf, congrArg _ hsame, fun _ => ⟨rfl, hsame⟩⟩
  · obtain ⟨after, hafter, _⟩ := h.turns hf action
    refine ⟨after, he ▸ hafter, ?_, fun hclosed => ?_⟩
    · rw [dates_run, Dates.created_after (by simp [hstatus])]
    · have hfinal := h.find?_perform_of_closed hf hclosed action
      refine ⟨Option.some.inj (hafter.symm.trans hfinal), ?_⟩
      rw [dates_run, he, hstatus, Registry.status?, hfinal]
      exact Dates.after_self ..

theorem kept_by_serve (h : Coherent service.orchestrator.scheduler)
    (hf : service.orchestrator.scheduler.registry.find? id = some record) (requests : List (Occasion × Request)) :
    ∃ after, (service.serve requests).2.orchestrator.scheduler.registry.find? id = some after ∧
      ((service.serve requests).2.dates id).created = (service.dates id).created ∧
      (record.stage.status.isTerminal = true →
        after = record ∧ (service.serve requests).2.dates id = service.dates id) := by
  induction requests generalizing service record with
  | nil => exact ⟨record, hf, rfl, fun _ => ⟨rfl, rfl⟩⟩
  | cons entry rest ih =>
    rcases service.handle_cases entry.1 entry.2 with ⟨_, _, he⟩ | ⟨call, _, he⟩
    · simp only [Service.serve, he]
      exact ih h hf
    · simp only [Service.serve, he]
      obtain ⟨next, hnext, hcreated, hfinal⟩ := kept_by_run h hf entry.1 call
      obtain ⟨after, hafter, hkept, hlast⟩ := ih (Service.coherent_run h entry.1 call) hnext
      refine ⟨after, hafter, hkept.trans hcreated, fun hclosed => ?_⟩
      obtain ⟨rfl, hdates⟩ := hfinal hclosed
      obtain ⟨rfl, hsame⟩ := hlast hclosed
      exact ⟨rfl, hsame.trans hdates⟩

/-- Whatever requests come next, an expression keeps the date of its creation; and if it is done or invalid, who
asks for it is told the same for ever. -/
theorem finished_shown_for_ever (h : Coherent service.orchestrator.scheduler)
    (hf : service.orchestrator.scheduler.registry.find? id = some record) (requests : List (Occasion × Request)) :
    let t := (service.serve requests).2
    (t.dates id).created = (service.dates id).created ∧
    (record.stage.status.isTerminal = true →
      ∀ occasion, ((Call.get id).run t occasion).1 = ((Call.get id).run service occasion).1) := by
  intro t
  obtain ⟨after, hafter, hcreated, hfinal⟩ := kept_by_serve h hf requests
  refine ⟨hcreated, fun hclosed occasion => ?_⟩
  obtain ⟨rfl, hdates⟩ := hfinal hclosed
  have hshown : t.dated (after.summary id) = service.dated (after.summary id) := by
    simp only [Service.dated, ExpressionRecord.summary, t, hdates]
  simp only [Call.run, Orchestrator.expression, Scheduler.expression, Registry.summary?, hf, t, hafter,
    Option.map_some, Except.map]
  rw [hshown]

end ArithDispatch.Http
