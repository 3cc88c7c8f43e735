import ArithDispatch.Proofs.Http.Refinement
import ArithDispatch.Proofs.Scheduler.Effects

/-! Whether a task that is handed out gets to somebody. A task that a GET request takes is in the reply to that
request. A HEAD request takes a task just the same, and its reply has no body. -/
namespace ArithDispatch

/-- What a worker needs to know of a task. -/
def Task.payload? (task : Task) : Option TaskPayload :=
  match task.left, task.right with
  | .literal left, .literal right => some ⟨task.id, left, right, task.operator, task.duration⟩
  | _, _ => none

namespace Scheduler

/-- The task is at a worker now, and it was not, or not in this attempt, before. -/
def HandsOut (s t : Scheduler) (id : Nat) (task : Task) : Prop :=
  t.table.get? id = some task ∧ task.isInProgress = true ∧ s.table.get? id ≠ some task

variable {s : Scheduler} {id now : Nat} {task : Task} {payload : TaskPayload}

theorem Offers.payload?_handedOut (ho : s.Offers now payload task) :
    (s.handedOut now task payload.left payload.right).payload? = some payload := by
  have hid : task.id = payload.id := Arena.id_of_get? ho.live
  simp only [Task.payload?, handedOut, hid, ← ho.operator, ← ho.duration]

/-- Only pulls hand tasks out, and what they return is the task as it is then. -/
theorem Coherent.pull_of_handsOut (h : Coherent s) (action : Action)
    (hout : s.HandsOut (s.perform action) id task) :
    ∃ now payload, action = .pull now ∧ (s.pull now).1 = .ok (some payload) ∧ task.payload? = some payload := by
  obtain ⟨hg, hp, hnew⟩ := hout
  cases h.becomes hg with
  | untouched hold => exact absurd hold hnew
  | created => cases hp
  | handedOut hpull ho => exact ⟨_, _, rfl, hpull, ho.payload?_handedOut⟩
  | completed => cases hp

/-- What a pull returns is handed out: even a task that was out before is in a new attempt. -/
theorem Coherent.handsOut_of_pull (h : Coherent s) (hp : (s.pull now).1 = .ok (some payload)) :
    ∃ task, s.HandsOut (s.pull now).2 payload.id task ∧ task.payload? = some payload := by
  obtain ⟨task, ho, hg⟩ := h.get?_of_pull hp
  refine ⟨_, ⟨hg, rfl, ?_⟩, ho.payload?_handedOut⟩
  rw [ho.live]
  intro he
  have hattempts : task.attempts = task.attempts + 1 := congrArg Task.attempts (Option.some.inj he)
  simp at hattempts

end Scheduler

namespace Http
open Scheduler (Action Coherent HandsOut)

variable {σ : Type} [IdGenerator σ] {service : Service σ} {occasion : Occasion} {id : Nat} {request : Request}
  {response : Response} {call : Call} {task : Task}

/-- The reply is a success and tells all that a worker needs to know of the task. -/
def Delivers (response : Response) (task : Task) : Prop :=
  ∃ payload, task.payload? = some payload ∧ response = .json 200 [("task", .object [
    ("id", .ofNat payload.id), ("arg1", .ofBinary64 payload.left), ("arg2", .ofBinary64 payload.right),
    ("operation", .text payload.operator.symbol.toString), ("operation_time", .ofNat payload.duration.toNat)])]

namespace Service

theorem coherent_run (h : Coherent service.orchestrator.scheduler) (occasion : Occasion) (call : Call) :
    Coherent (call.run service occasion).2.orchestrator.scheduler := by
  rcases service.scheduler_run occasion call with he | ⟨action, hd, he⟩
  · rw [he]
    exact h
  · rw [he]
    exact h.perform hd.admissible

theorem coherent_handle (h : Coherent service.orchestrator.scheduler) (occasion : Occasion) (request : Request) :
    Coherent (service.handle occasion request).2.orchestrator.scheduler := by
  rcases service.handle_cases occasion request with ⟨response, _, he⟩ | ⟨call, _, he⟩
  · rw [he]
    exact h
  · rw [he]
    exact coherent_run h occasion call

theorem coherent_serve (h : Coherent service.orchestrator.scheduler) (requests : List (Occasion × Request)) :
    Coherent (service.serve requests).2.orchestrator.scheduler := by
  induction requests generalizing service with
  | nil => exact h
  | cons entry rest ih => exact ih (coherent_handle h entry.1 entry.2)

end Service

theorem pull_of_run_handsOut (h : Coherent service.orchestrator.scheduler)
    (hout : service.orchestrator.scheduler.HandsOut (call.run service occasion).2.orchestrator.scheduler id task) :
    call = .pull ∧ ∃ payload, (call.run service occasion).1 = .pulled (.ok (some payload)) ∧
      task.payload? = some payload := by
  rcases service.scheduler_run occasion call with he | ⟨action, hd, he⟩
  · rw [he] at hout
    exact absurd hout.1 hout.2.2
  · rw [he] at hout
    obtain ⟨_, payload, rfl, hp, ht⟩ := h.pull_of_handsOut action hout
    cases hd
    refine ⟨rfl, payload, ?_, ht⟩
    simp only [Call.run, Orchestrator.pull, hp]

/-- The request asked for a task and got this one: a GET request is told of it, a HEAD request is not. -/
def Obtains (request : Request) (response : Response) (task : Task) : Prop :=
  Reaches request .task ∧ ((request.method = "GET" ∧ Delivers response task) ∨
    (request.method = "HEAD" ∧ response = .empty 200))

theorem obtains_of_handsOut (h : Coherent service.orchestrator.scheduler)
    (hout : service.orchestrator.scheduler.HandsOut
      (service.handle occasion request).2.orchestrator.scheduler id task) :
    ∃ response, (service.handle occasion request).1 = some response ∧ Obtains request response task := by
  rcases service.handle_cases occasion request with ⟨response, _, he⟩ | ⟨call, ha, he⟩
  · rw [he] at hout
    exact absurd hout.1 hout.2.2
  · rw [he] at hout ⊢
    obtain ⟨rfl, payload, hoffer, ht⟩ := pull_of_run_handsOut h hout
    rw [hoffer]
    cases ha with
    | pull hr hpost =>
      have hread : request.method = "GET" ∨ request.method = "HEAD" := by
        simpa [Resource.methods, hpost] using hr.method
      refine ⟨_, rfl, hr, hread.imp (fun hget => ⟨hget, payload, ht, ?_⟩) fun hhead => ⟨hhead, ?_⟩⟩
      · rw [sees_of_ne_head (by simp [hget])]
        rfl
      · rw [sees_of_head hhead]
        rfl

/-- A task that is out was out before, or one of the requests got it. -/
theorem obtained_in_serve (h : Coherent service.orchestrator.scheduler) (requests : List (Occasion × Request))
    (hg : (service.serve requests).2.orchestrator.scheduler.table.get? id = some task)
    (hp : task.isInProgress = true) :
    service.orchestrator.scheduler.table.get? id = some task ∨
      ∃ (k : Nat) (occasion : Occasion) (request : Request) (response : Response),
        requests[k]? = some (occasion, request) ∧ (service.serve requests).1[k]? = some (some response) ∧
          Obtains request response task := by
  induction requests generalizing service with
  | nil => exact .inl hg
  | cons entry rest ih =>
    obtain ⟨occasion, request⟩ := entry
    rcases ih (Service.coherent_handle h occasion request) hg with
      hafter | ⟨k, later, sent, response, hk, hr, ht⟩
    · by_cases hbefore : service.orchestrator.scheduler.table.get? id = some task
      · exact .inl hbefore
      · obtain ⟨response, hr, ht⟩ := obtains_of_handsOut h ⟨hafter, hp, hbefore⟩
        exact .inr ⟨0, occasion, request, response, rfl, congrArg some hr, ht⟩
    · exact .inr ⟨k + 1, later, sent, response, hk, hr, ht⟩

/-- Whatever a HEAD request asks for, it gets no body. -/
theorem body_of_head (h : request.method = "HEAD")
    (hr : (service.handle occasion request).1 = some response) : response.body = .empty := by
  obtain ⟨full, _, rfl⟩ := Option.map_eq_some_iff.mp hr
  rw [if_pos (by simp [h])]
  rfl

/-- The task of the sum of 1 and 2 while it is handed out for the first time. -/
def sumHandedOut : Task := ⟨1, .literal .one, .add, .literal .two, 1000, "a", .zero, .inProgress, 1, none⟩

end Http

end ArithDispatch
