import ArithDispatch.Proofs.Http.Meaning
import ArithDispatch.Proofs.Orchestrator.Submission

/-! The service refines the orchestrator. A sequence of requests comes to a sequence of calls, one for each
request that is not turned away; the replies follow from what these calls return, and the state is the one
that the calls alone lead to. A pull that panics is not replied to, and leaves a poisoned lock to the calls
that come after it. -/
namespace ArithDispatch

theorem Formula.Fault.statusOf_failure (fault : Fault) : Http.statusOf fault.failure = 422 := by
  cases fault <;> rfl

theorem Orchestrator.failure_of_report {σ : Type} {o : Orchestrator σ} {task : Nat} {value : Binary64}
    {failure : Failure} (h : (o.report task value).1 = .error failure) :
    (o.scheduler.poisoned = true ∧ failure = .tableLockPoisoned) ∨
      o.scheduler.poisoned = false ∧
        (failure = .taskNotFound task ∨ ∃ reason, failure = .taskNotAwaitingResult task reason) := by
  have hrefused : o.scheduler.poisoned = false → ∀ live, o.scheduler.table.get? task = some live →
      Scheduler.refusal? live ≠ none := by
    intro hp live hg hr
    simp only [report, Scheduler.report_of_awaited hp hg hr] at h
    cases h
  obtain ⟨_, _, hf, he⟩ := Scheduler.report_of_refused hrefused value
  simp only [report, he] at h
  cases h
  cases hf with
  | locked hp => exact .inl ⟨hp, rfl⟩
  | unknown hp => exact .inr ⟨hp, .inl rfl⟩
  | unawaited hp => exact .inr ⟨hp, .inr ⟨_, rfl⟩⟩

namespace Http
open Scheduler (Action)

/-- How a call to the orchestrator ends. -/
inductive Return where
  | submitted (answer : Except Failure String)
  | listed (summaries : List Wire.DatedSummary)
  | found (answer : Except Failure Wire.DatedSummary)
  | pulled (outcome : Outcome (Option TaskPayload))
  | reported (answer : Except Failure Unit)
  | counted (answer : Except Failure SchedulerStats)

/-- The reply, as far as it may have a body. -/
def Return.reply? : Return → Option Response
  | submitted (.ok id) => some (.json 201 [("id", .text id)])
  | listed summaries => some (.json 200 [("expressions", .array (summaries.map Wire.datedSummary.encode))])
  | found (.ok summary) => some (.json 200 [("expression", Wire.datedSummary.encode summary)])
  | pulled (.ok (some payload)) => some (.json 200 [("task", Wire.taskPayload.encode payload)])
  | pulled (.ok none) => some (.json 404 [("error", .text "no task available")])
  | reported (.ok ()) => some (.empty 200)
  | counted (.ok stats) => some ⟨200, .json (Wire.schedulerStats.encode stats)⟩
  | submitted (.error failure) | found (.error failure) | pulled (.error failure) | reported (.error failure)
  | counted (.error failure) => some (.json (statusOf failure) [("error", .text failure.message)])
  | pulled .panic => none

/-- What the sender of a request sees of a reply. -/
def Request.sees (request : Request) (response : Response) : Response :=
  if request.method == "HEAD" then response.withoutBody else response

@[simp] theorem Response.status_empty (status : Nat) : (empty status).status = status := rfl

@[simp] theorem Response.status_note (status : Nat) : (note status).status = status := rfl

@[simp] theorem Response.status_json (status : Nat) (members : List (String × Json.Value)) :
    (json status members).status = status := rfl

namespace Call

/-- The statuses of the replies to a call for which the lock is sound. -/
def statuses : Call → List Nat
  | submit _ => [201, 409, 422]
  | get _ | pull => [200, 404]
  | report _ => [200, 404, 409]
  | list | stats => [200]

/-- What a call has the scheduler do. -/
inductive Does (now : Nat) : Call → Action → Prop
  | submit {submission : Wire.Submission} {compiled : Formula.Compiled} (id : String) :
      Formula.compile submission.expression = .ok compiled →
      Does now (.submit submission) (.accept id submission.expression compiled)
  | pull : Does now .pull (.pull now)
  | report (sent : Wire.ResultReport) : Does now (.report sent) (.report sent.id sent.result)

theorem Does.admissible {now : Nat} {call : Call} {action : Action} (h : call.Does now action) :
    action.Admissible := by
  cases h with
  | submit _ hcompile => exact Formula.exists_assemble_of_compile hcompile
  | pull => trivial
  | report => trivial

end Call

section Service
variable {σ : Type} [IdGenerator σ] {service t : Service σ} {occasion : Occasion} {request : Request}
  {call : Call} {response : Response}

namespace Call

/-- The call by itself. -/
def run (service : Service σ) (occasion : Occasion) : Call → Return × Service σ
  | submit submission =>
    let (answer, o) := service.orchestrator.submit submission.id submission.expression
    (.submitted answer, service.become occasion o)
  | list => (.listed ((occasion.arrange service.orchestrator.expressions).map service.dated), service)
  | get id => (.found ((service.orchestrator.expression id).map service.dated), service)
  | pull =>
    let (outcome, o) := service.orchestrator.pull occasion.now
    (.pulled outcome, service.become occasion o)
  | report sent =>
    let (answer, o) := service.orchestrator.report sent.id sent.result
    (.reported answer, service.become occasion o)
  | stats => (.counted service.orchestrator.stats, service)

/-- The lock is poisoned, and the call gets so far that it needs the table. -/
def Barred (o : Orchestrator σ) : Call → Prop
  | submit submission =>
    ¬ Text.isBlank submission.expression = true ∧
      ¬ o.scheduler.registry.contains (o.effectiveId submission.id) = true ∧
      ∃ compiled, Formula.compile submission.expression = .ok compiled ∧ o.scheduler.bars compiled = true
  | pull | report _ | stats => o.scheduler.poisoned = true
  | list | get _ => False

/-- The call is a pull that panics. -/
def Panics (o : Orchestrator σ) (now : Nat) (call : Call) : Prop :=
  call = .pull ∧ (o.pull now).1 = .panic

/-- A call gets a reply of one of its few statuses, unless the lock is in its way or it panics. -/
inductive Ends (o : Orchestrator σ) (now : Nat) (call : Call) : Option Response → Prop
  | answered {response : Response} : ¬ call.Panics o now → ¬ call.Barred o → response.status ∈ call.statuses →
      Ends o now call (some response)
  | barred : call.Barred o → Ends o now call (some (.failure .tableLockPoisoned))
  | panicked : call.Panics o now → Ends o now call none

omit [IdGenerator σ] in
theorem not_panics {o : Orchestrator σ} {now : Nat} (h : call ≠ .pull) : ¬ call.Panics o now :=
  fun hp => h hp.1

theorem Barred.poisoned (h : call.Barred service.orchestrator) :
    service.orchestrator.scheduler.poisoned = true := by
  cases call with
  | submit submission =>
    obtain ⟨_, _, compiled, _, hb⟩ := h
    cases compiled with
    | literal => cases hb
    | graph => exact hb
  | list => exact h.elim
  | get id => exact h.elim
  | pull => exact h
  | report sent => exact h
  | stats => exact h

theorem Barred.not_panics {now : Nat} (h : call.Barred service.orchestrator) :
    ¬ call.Panics service.orchestrator now := by
  rintro ⟨_, hp⟩
  have hsound : service.orchestrator.scheduler.poisoned = false := (Scheduler.pull_eq_panic hp).1
  exact Bool.false_ne_true (hsound.symm.trans h.poisoned)

theorem ne_internal_of_mem {status : Nat} (h : status ∈ call.statuses) : status ≠ 500 := by
  cases call <;> simp [statuses] at h <;> omega

end Call

namespace Service

theorem perform_eq_run (service : Service σ) (occasion : Occasion) (call : Call) :
    service.perform occasion call =
      ((call.run service occasion).1.reply?, (call.run service occasion).2) := by
  cases call with
  | submit submission =>
    simp only [perform, Call.run]
    rcases service.orchestrator.submit submission.id submission.expression with ⟨_ | _, _⟩ <;> rfl
  | list => rfl
  | get id =>
    simp only [perform, Call.run]
    cases service.orchestrator.expression id <;> rfl
  | pull =>
    simp only [perform, Call.run]
    rcases service.orchestrator.pull occasion.now with ⟨(_ | _) | _ | _, _⟩ <;> rfl
  | report sent =>
    simp only [perform, Call.run]
    rcases service.orchestrator.report sent.id sent.result with ⟨_ | _, _⟩ <;> rfl
  | stats =>
    simp only [perform, Call.run]
    cases service.orchestrator.stats <;> rfl

/-- A request is turned away and changes nothing, or makes its call and nothing else. -/
theorem handle_cases (service : Service σ) (occasion : Occasion) (request : Request) :
    (∃ response, Rejects request response ∧
      service.handle occasion request = (some (request.sees response), service)) ∨
    ∃ call, Asks request call ∧ service.handle occasion request =
      ((call.run service occasion).1.reply?.map request.sees, (call.run service occasion).2) := by
  unfold handle respond
  cases h : interpret request with
  | error response => exact .inl ⟨response, interpret_eq_error_iff.mp h, rfl⟩
  | ok call =>
    refine .inr ⟨call, interpret_eq_ok_iff.mp h, ?_⟩
    simp only [perform_eq_run]
    rfl

/-- A call leaves the scheduler as it is, or has it do one thing. -/
theorem scheduler_run (service : Service σ) (occasion : Occasion) (call : Call) :
    (call.run service occasion).2.orchestrator.scheduler = service.orchestrator.scheduler ∨
      ∃ action, call.Does occasion.now action ∧
        (call.run service occasion).2.orchestrator.scheduler = service.orchestrator.scheduler.perform action := by
  cases call with
  | submit submission =>
    rcases service.orchestrator.scheduler_submit submission.id submission.expression with
      he | ⟨id, compiled, hcompile, he⟩
    · exact .inl he
    · exact .inr ⟨_, .submit id hcompile, he⟩
  | list => exact .inl rfl
  | get id => exact .inl rfl
  | pull => exact .inr ⟨_, .pull, rfl⟩
  | report sent => exact .inr ⟨_, .report sent, rfl⟩
  | stats => exact .inl rfl

theorem ends_submit (service : Service σ) (occasion : Occasion) (submission : Wire.Submission) :
    (Call.submit submission).Ends service.orchestrator occasion.now
      ((Call.submit submission).run service occasion).1.reply? := by
  simp only [Call.run]
  rcases service.orchestrator.submit_cases submission.id submission.expression with
    ⟨hblank, he⟩ | ⟨hblank, _, _, ⟨htaken, he⟩ | ⟨htaken, ⟨fault, hc, he⟩ | ⟨compiled, hc, hend⟩⟩⟩
  · rw [he]
    exact .answered (Call.not_panics (by simp)) (fun hb => hb.1 hblank) (by simp [Call.statuses, statusOf])
  · rw [he]
    exact .answered (Call.not_panics (by simp)) (fun hb => hb.2.1 htaken) (by simp [Call.statuses, statusOf])
  · rw [he]
    refine .answered (Call.not_panics (by simp)) (fun ⟨_, _, _, hok, _⟩ => nomatch hc.symm.trans hok) ?_
    simp [Call.statuses, fault.statusOf_failure]
  · rcases hend with ⟨hb, he⟩ | ⟨hb, _, _, he⟩
    · rw [he]
      exact .barred ⟨by simp [hblank], by simp [htaken], compiled, hc, hb⟩
    · rw [he]
      refine .answered (Call.not_panics (by simp)) (fun ⟨_, _, other, hok, hbars⟩ => ?_) (by simp [Call.statuses])
      cases hc.symm.trans hok
      cases hb.symm.trans hbars

theorem ends_pull (service : Service σ) (occasion : Occasion) :
    Call.pull.Ends service.orchestrator occasion.now (Call.pull.run service occasion).1.reply? := by
  simp only [Call.run]
  cases h : (service.orchestrator.pull occasion.now).1 with
  | panic => exact .panicked ⟨rfl, h⟩
  | error failure =>
    obtain ⟨rfl, hp⟩ := Orchestrator.pull_error_iff.mp h
    exact .barred hp
  | ok payload? =>
    have hcalm : ¬ Call.pull.Panics service.orchestrator occasion.now := fun hpanic => by
      cases h.symm.trans hpanic.2
    have hfree : ¬ Call.pull.Barred service.orchestrator := fun hp => by
      cases h.symm.trans (Orchestrator.pull_error_iff.mpr ⟨rfl, hp⟩)
    cases payload? with
    | none => exact .answered hcalm hfree (by simp [Call.statuses])
    | some payload => exact .answered hcalm hfree (by simp [Call.statuses])

theorem ends_report (service : Service σ) (occasion : Occasion) (sent : Wire.ResultReport) :
    (Call.report sent).Ends service.orchestrator occasion.now
      ((Call.report sent).run service occasion).1.reply? := by
  simp only [Call.run]
  cases h : (service.orchestrator.report sent.id sent.result).1 with
  | ok =>
    refine .answered (Call.not_panics (by simp)) (fun hp => ?_) (by simp [Call.statuses])
    simp only [Orchestrator.report, Scheduler.report_of_poisoned hp] at h
    cases h
  | error failure =>
    rcases Orchestrator.failure_of_report h with ⟨hp, rfl⟩ | ⟨hp, rfl | ⟨_, rfl⟩⟩
    · exact .barred hp
    · exact .answered (Call.not_panics (by simp)) (Bool.eq_false_iff.mp hp) (by simp [Call.statuses, statusOf])
    · exact .answered (Call.not_panics (by simp)) (Bool.eq_false_iff.mp hp) (by simp [Call.statuses, statusOf])

theorem ends_stats (service : Service σ) (occasion : Occasion) :
    Call.stats.Ends service.orchestrator occasion.now (Call.stats.run service occasion).1.reply? := by
  simp only [Call.run, Orchestrator.stats, Scheduler.stats]
  split
  · next hp => exact .barred hp
  · next hp => exact .answered (Call.not_panics (by simp)) hp (by simp [Call.statuses])

theorem ends (service : Service σ) (occasion : Occasion) (call : Call) :
    call.Ends service.orchestrator occasion.now (call.run service occasion).1.reply? := by
  cases call with
  | submit submission => exact service.ends_submit occasion submission
  | list => exact .answered (Call.not_panics (by simp)) not_false (List.mem_singleton_self _)
  | get id =>
    simp only [Call.run, Orchestrator.expression, Scheduler.expression]
    split
    · exact .answered (Call.not_panics (by simp)) not_false (by simp [Call.statuses])
    · exact .answered (Call.not_panics (by simp)) not_false (by simp [Call.statuses, statusOf])
  | pull => exact service.ends_pull occasion
  | report sent => exact service.ends_report occasion sent
  | stats => exact service.ends_stats occasion

theorem reply?_eq_none_iff : (call.run service occasion).1.reply? = none ↔
    call.Panics service.orchestrator occasion.now := by
  have h := service.ends occasion call
  generalize (call.run service occasion).1.reply? = reply? at h
  cases h with
  | answered hcalm => simp [hcalm]
  | barred hb => simp [hb.not_panics]
  | panicked hp => simp [hp]

theorem barred_of_internal (h : (call.run service occasion).1.reply? = some response)
    (hs : response.status = 500) : call.Barred service.orchestrator := by
  have hends := service.ends occasion call
  rw [h] at hends
  cases hends with
  | answered _ _ hm => exact absurd hs (Call.ne_internal_of_mem hm)
  | barred hb => exact hb

/-- Whether the lock is poisoned by a call can be told from its reply. -/
theorem poisoned_run_iff : (call.run service occasion).2.orchestrator.scheduler.poisoned = true ↔
    service.orchestrator.scheduler.poisoned = true ∨ (call.run service occasion).1.reply? = none := by
  rw [reply?_eq_none_iff]
  constructor
  · intro h
    rcases service.scheduler_run occasion call with he | ⟨action, hd, he⟩ <;> rw [he] at h
    · exact .inl h
    · rcases Scheduler.poisoned_perform_iff.mp h with hp | ⟨_, rfl, hp⟩
      · exact .inl hp
      · cases hd
        exact .inr ⟨rfl, hp⟩
  · rintro (h | ⟨rfl, h⟩)
    · rcases service.scheduler_run occasion call with he | ⟨action, _, he⟩ <;> rw [he]
      · exact h
      · exact Scheduler.poisoned_perform h action
    · exact Scheduler.poisoned_perform_iff.mpr (.inr ⟨occasion.now, rfl, h⟩)

theorem poisoned_handle_iff : (service.handle occasion request).2.orchestrator.scheduler.poisoned = true ↔
    service.orchestrator.scheduler.poisoned = true ∨ (service.handle occasion request).1 = none := by
  rcases service.handle_cases occasion request with ⟨response, _, he⟩ | ⟨call, _, he⟩
  · simp [he]
  · simp [he, poisoned_run_iff]

theorem lease_handle (service : Service σ) (occasion : Occasion) (request : Request) :
    (service.handle occasion request).2.orchestrator.scheduler.lease = service.orchestrator.scheduler.lease := by
  rcases service.handle_cases occasion request with ⟨response, _, he⟩ | ⟨call, _, he⟩ <;> rw [he]
  rcases service.scheduler_run occasion call with he | ⟨action, _, he⟩ <;> rw [he]
  exact Scheduler.lease_perform _ action

/-- Answers requests one after the other, each on its occasion. -/
def serve (service : Service σ) : List (Occasion × Request) → List (Option Response) × Service σ
  | [] => ([], service)
  | (occasion, request) :: rest =>
    let (response?, service) := service.handle occasion request
    let (replies, service) := service.serve rest
    (response? :: replies, service)

/-- The lock is poisoned once a request has gone without a reply, and not before. -/
theorem poisoned_serve_iff {requests : List (Occasion × Request)} :
    (service.serve requests).2.orchestrator.scheduler.poisoned = true ↔
      service.orchestrator.scheduler.poisoned = true ∨ none ∈ (service.serve requests).1 := by
  induction requests generalizing service with
  | nil => simp [serve]
  | cons entry rest ih =>
    simp only [serve, ih, poisoned_handle_iff, List.mem_cons]
    rw [or_assoc, eq_comm (a := none)]

theorem lease_serve (service : Service σ) (requests : List (Occasion × Request)) :
    (service.serve requests).2.orchestrator.scheduler.lease = service.orchestrator.scheduler.lease := by
  induction requests generalizing service with
  | nil => rfl
  | cons entry rest ih => exact (ih _).trans (service.lease_handle entry.1 entry.2)

/-- A reply was given after the replies in front of it, by the service that they left. -/
theorem exists_of_getElem?_serve {requests : List (Occasion × Request)} {k : Nat} {response? : Option Response}
    (h : (service.serve requests).1[k]? = some response?) : ∃ occasion request,
      requests[k]? = some (occasion, request) ∧
      ((service.serve (requests.take k)).2.handle occasion request).1 = response? ∧
      (service.serve (requests.take k)).1 = (service.serve requests).1.take k := by
  induction requests generalizing service k with
  | nil => cases h
  | cons entry rest ih =>
    cases k with
    | zero => exact ⟨entry.1, entry.2, rfl, Option.some.inj h, rfl⟩
    | succ k =>
      obtain ⟨occasion, request, hk, hreply, htake⟩ := ih h
      exact ⟨occasion, request, hk, hreply, congrArg _ htake⟩

end Service

/-- A call on its occasion, with what it returned. -/
structure Made where
  occasion : Occasion
  call : Call
  result : Return

/-- The calls, made one after the other, lead from the first state to the second. -/
inductive Makes : Service σ → List Made → Service σ → Prop
  | nil (service : Service σ) : Makes service [] service
  | cons {service t : Service σ} {occasion : Occasion} {call : Call} {rest : List Made} :
      Makes (call.run service occasion).2 rest t →
      Makes service (⟨occasion, call, (call.run service occasion).1⟩ :: rest) t

/-- The replies to the requests, when these calls were made for them. No state is looked at. -/
inductive Answers : List (Occasion × Request) → List Made → List (Option Response) → Prop
  | nil : Answers [] [] []
  | rejected {occasion : Occasion} {request : Request} {requests : List (Occasion × Request)}
      {made : List Made} {response : Response} {replies : List (Option Response)} : Rejects request response →
      Answers requests made replies →
      Answers ((occasion, request) :: requests) made (some (request.sees response) :: replies)
  | called {occasion : Occasion} {request : Request} {requests : List (Occasion × Request)}
      {made : List Made} {call : Call} {result : Return} {replies : List (Option Response)} :
      Asks request call → Answers requests made replies →
      Answers ((occasion, request) :: requests) (⟨occasion, call, result⟩ :: made)
        (result.reply?.map request.sees :: replies)

theorem exists_makes (service : Service σ) (requests : List (Occasion × Request)) :
    ∃ made, Makes service made (service.serve requests).2 ∧
      Answers requests made (service.serve requests).1 := by
  induction requests generalizing service with
  | nil => exact ⟨[], .nil service, .nil⟩
  | cons head rest ih =>
    obtain ⟨occasion, request⟩ := head
    simp only [Service.serve]
    rcases service.handle_cases occasion request with ⟨response, hr, he⟩ | ⟨call, ha, he⟩
    · rw [he]
      obtain ⟨made, hmakes, hanswers⟩ := ih service
      exact ⟨made, hmakes, .rejected hr hanswers⟩
    · rw [he]
      obtain ⟨made, hmakes, hanswers⟩ := ih (call.run service occasion).2
      exact ⟨_, .cons hmakes, .called ha hanswers⟩

theorem Spoilt.status_ne_internal {α : Type} {codec : Json.Codec α} (h : Spoilt request codec response) :
    response.status ≠ 500 := by
  cases h <;> simp

theorem Rejects.status_ne_internal (h : Rejects request response) : response.status ≠ 500 := by
  cases h with
  | unknownPath => simp
  | wrongMethod => simp
  | undecodable => simp
  | submission _ hs => exact hs.status_ne_internal
  | report _ _ hs => exact hs.status_ne_internal

theorem sees_of_head (h : request.method = "HEAD") (response : Response) :
    request.sees response = response.withoutBody :=
  if_pos (by simp [h])

theorem sees_of_ne_head (h : request.method ≠ "HEAD") (response : Response) :
    request.sees response = response :=
  if_neg (by simp [h])

theorem status_sees (request : Request) (response : Response) :
    (request.sees response).status = response.status := by
  unfold Request.sees
  split <;> rfl

/-- Only a poisoned lock makes a reply tell of an internal failure. -/
theorem poisoned_of_internal (h : (service.handle occasion request).1 = some response)
    (hs : response.status = 500) : service.orchestrator.scheduler.poisoned = true := by
  rcases service.handle_cases occasion request with ⟨rejection, hr, he⟩ | ⟨call, _, he⟩ <;> rw [he] at h
  · cases h
    exact absurd (status_sees .. ▸ hs) hr.status_ne_internal
  · obtain ⟨returned, hreturned, rfl⟩ := Option.map_eq_some_iff.mp h
    exact (Service.barred_of_internal hreturned (status_sees .. ▸ hs)).poisoned

/-- Only a pull that panics gets no reply. -/
theorem panics_of_unanswered (h : (service.handle occasion request).1 = none) :
    Asks request .pull ∧ service.orchestrator.scheduler.poisoned = false ∧
      service.orchestrator.scheduler.leaseFits occasion.now = false := by
  rcases service.handle_cases occasion request with ⟨_, _, he⟩ | ⟨call, ha, he⟩ <;> rw [he] at h
  · cases h
  · obtain ⟨rfl, hp⟩ := Service.reply?_eq_none_iff.mp (Option.map_eq_none_iff.mp h)
    obtain ⟨hsound, hfits, _⟩ := Scheduler.pull_eq_panic (s := service.orchestrator.scheduler) hp
    exact ⟨ha, hsound, hfits⟩

/-- A request makes one call or is turned away, not both. -/
theorem asks_xor_rejects (request : Request) :
    ((∃! call, Asks request call) ∧ ¬ ∃ response, Rejects request response) ∨
      ((∃! response, Rejects request response) ∧ ¬ ∃ call, Asks request call) := by
  simp only [← interpret_eq_ok_iff, ← interpret_eq_error_iff]
  cases interpret request with
  | ok call => exact .inl ⟨⟨call, rfl, fun other ho => (Except.ok.inj ho).symm⟩, by simp⟩
  | error response => exact .inr ⟨⟨response, rfl, fun other ho => (Except.error.inj ho).symm⟩, by simp⟩

/-- In a service that starts fresh, nobody is told of an internal failure before a request has gone without a
reply; and this happens only to one that asks for a task when a lease that begins now would run out behind the
last moment. -/
theorem unanswered_before_internal (config : Config) (ids : σ) (requests : List (Occasion × Request)) :
    let start := Service.create config ids
    let replies := (start.serve requests).1
    (∀ (k : Nat) response, replies[k]? = some (some response) → response.status = 500 → none ∈ replies.take k) ∧
    ∀ (k : Nat), replies[k]? = some none → ∃ occasion request, requests[k]? = some (occasion, request) ∧
      Asks request .pull ∧ start.orchestrator.scheduler.leaseFits occasion.now = false := by
  intro start replies
  constructor
  · intro k response hk hs
    obtain ⟨occasion, request, _, hreply, htake⟩ := Service.exists_of_getElem?_serve hk
    have hlock := Service.poisoned_serve_iff.mp (poisoned_of_internal hreply hs)
    rw [htake] at hlock
    exact hlock.resolve_left Bool.false_ne_true
  · intro k hk
    obtain ⟨occasion, request, hrequest, hreply, _⟩ := Service.exists_of_getElem?_serve hk
    obtain ⟨ha, _, hfits⟩ := panics_of_unanswered hreply
    refine ⟨occasion, request, hrequest, ha, ?_⟩
    rw [← hfits, Scheduler.leaseFits_congr (start.lease_serve (requests.take k))]

/-- However requests are mixed, each of them makes the one call that it means, or is turned away and changes
nothing. The calls alone lead to the same state, and what they return fixes the replies, each with one of the
few statuses of its call, unless the pull panics or the lock is poisoned already: then there is no reply, or
one with the status 500. Nobody is told of an internal failure before a request has gone without a reply, and
as long as leases end in time every request is replied to, and none with the status 500. -/
theorem service_refines_orchestrator (config : Config) (ids : σ) (requests : List (Occasion × Request)) :
    let start := Service.create config ids
    let replies := (start.serve requests).1
    let service := (start.serve requests).2
    (∀ request, ((∃! call, Asks request call) ∧ ¬ ∃ response, Rejects request response) ∨
      ((∃! response, Rejects request response) ∧ ¬ ∃ call, Asks request call)) ∧
    (∀ occasion request,
      (∃ response, Rejects request response ∧
        service.handle occasion request = (some (request.sees response), service)) ∨
      ∃ call, Asks request call ∧ service.handle occasion request =
        ((call.run service occasion).1.reply?.map request.sees, (call.run service occasion).2)) ∧
    (∀ (occasion : Occasion) (call : Call),
      call.Ends service.orchestrator occasion.now (call.run service occasion).1.reply?) ∧
    (∃ made, Makes start made service ∧ Answers requests made replies) ∧
    (∀ (k : Nat) response, replies[k]? = some (some response) → response.status = 500 → none ∈ replies.take k) ∧
    (∀ (k : Nat), replies[k]? = some none → ∃ occasion request, requests[k]? = some (occasion, request) ∧
      Asks request .pull ∧ start.orchestrator.scheduler.leaseFits occasion.now = false) ∧
    ((∀ entry ∈ requests, start.orchestrator.scheduler.leaseFits entry.1.now = true) →
      ∀ reply ∈ replies, ∃ response, reply = some response ∧ response.status ≠ 500) := by
  intro start replies service
  obtain ⟨hinternal, hunanswered⟩ := unanswered_before_internal config ids requests
  refine ⟨asks_xor_rejects, service.handle_cases, service.ends, exists_makes start requests, hinternal,
    hunanswered, fun hfits => ?_⟩
  have hall : none ∉ replies := by
    intro hm
    obtain ⟨k, hk⟩ := List.mem_iff_getElem?.mp hm
    obtain ⟨occasion, request, hrequest, _, hbehind⟩ := hunanswered k hk
    have hin := hfits _ (List.mem_of_getElem? hrequest)
    cases hin.symm.trans hbehind
  intro reply hm
  cases reply with
  | none => exact absurd hm hall
  | some response =>
    obtain ⟨k, hk⟩ := List.mem_iff_getElem?.mp hm
    exact ⟨response, rfl, fun hs => hall (List.mem_of_mem_take (hinternal k response hk hs))⟩

end Service

/-- At the moment 0, on the first day of 1970, and with nothing rearranged. -/
def Occasion.plain : Occasion := { now := 0 }

namespace Request

/-- Submits the sum of 1 and 2 under the id `a`. -/
def submitSum : Request :=
  ⟨"POST", "/api/v1/calculate", some "application/json", "\x7b\"id\": \"a\", \"expression\": \"1+2\"\x7d".toUTF8⟩

/-- Is for the tasks, without a body. -/
def forTask (method : String) : Request := ⟨method, "/internal/task", none, .empty⟩

end Request

/-- The second submission of one id is refused; the last two requests are turned away. -/
theorem service_refines_repeated_submission :
    let start := Service.create {} (⟨"expr", 0⟩ : SequentialIds)
    let stranger : Request := ⟨"GET", "/nowhere", none, .empty⟩
    let requests : List (Occasion × Request) :=
      [(.plain, .submitSum), (.plain, .submitSum), (.plain, stranger), (.plain, .forTask "DELETE")]
    (start.serve requests).1.map (·.map (·.status)) = [some 201, some 409, some 404, some 405] ∧
      (∃ made, Makes start made (start.serve requests).2 ∧ Answers requests made (start.serve requests).1) ∧
      ∀ reply ∈ (start.serve requests).1, ∃ response, reply = some response ∧ response.status ≠ 500 := by
  intro start stranger requests
  obtain ⟨_, _, _, hmade, _, _, hfine⟩ :=
    service_refines_orchestrator {} (⟨"expr", 0⟩ : SequentialIds) requests
  exact ⟨by decide +kernel, hmade, hfine (by simp [requests, Scheduler.leaseFits]; rfl)⟩

/-- Under the longest lease the first request for a task gets no reply, and after it whatever needs the table is
answered with an internal failure. -/
theorem internal_failures_under_longest_lease :
    let start := Service.create { taskLease := some .longest } (⟨"expr", 0⟩ : SequentialIds)
    let stats : Request := ⟨"GET", "/internal/stats", none, .empty⟩
    let requests : List (Occasion × Request) :=
      [(.plain, .submitSum), (.plain, .forTask "GET"), (.plain, .forTask "GET"), (.plain, stats)]
    (start.serve requests).1.map (·.map (·.status)) = [some 201, none, some 500, some 500] := by
  decide +kernel

end Http

end ArithDispatch
