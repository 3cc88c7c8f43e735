import ArithDispatch.Proofs.Http.Delivery
import ArithDispatch.Proofs.Json.Codec
import ArithDispatch.Proofs.Scheduler.Finite

/-! The numbers that clients and workers see. A number gets into the service through a formula or through a
report, and neither lets one in that is not finite; so no number is ever lost when it is written, and a
result is null only as long as there is none. -/
namespace ArithDispatch

namespace Json.Value

/-- The value is an object with these members, or has one inside. -/
inductive Holds : Value → List (String × Value) → Prop
  | object (members : List (String × Value)) : Holds (.object members) members
  | member {member : String × Value} {outer members : List (String × Value)} : member ∈ outer →
      Holds member.2 members → Holds (.object outer) members
  | item {item : Value} {items : List Value} {members : List (String × Value)} : item ∈ items →
      Holds item members → Holds (.array items) members

def IsFinite (value : Value) : Prop := ∃ x : Binary64, x.isFinite = true ∧ value = .number (.real x)

theorem isFinite_ofBinary64 {x : Binary64} (h : x.isFinite = true) : (ofBinary64 x).IsFinite :=
  ⟨x, h, if_pos h⟩

theorem not_isFinite_null : ¬ IsFinite null := nofun

theorem IsFinite.ne_null {value : Value} (h : value.IsFinite) : value ≠ null := by
  rintro rfl
  exact not_isFinite_null h

/-- The members of every object in the value have the property. -/
def Everywhere (p : List (String × Value) → Prop) (value : Value) : Prop :=
  ∀ members, value.Holds members → p members

section Everywhere
variable {p : List (String × Value) → Prop}

@[simp] theorem everywhere_object {members : List (String × Value)} :
    (object members).Everywhere p ↔ p members ∧ ∀ member ∈ members, member.2.Everywhere p := by
  refine ⟨fun h => ⟨h _ (.object _), fun member hm inner hi => h _ (.member hm hi)⟩, ?_⟩
  rintro ⟨hp, hm⟩ inner (_ | ⟨hmember, hi⟩ | _)
  · exact hp
  · exact hm _ hmember inner hi

@[simp] theorem everywhere_array {items : List Value} :
    (array items).Everywhere p ↔ ∀ item ∈ items, item.Everywhere p := by
  refine ⟨fun h item hm inner hi => h _ (.item hm hi), ?_⟩
  rintro h inner (_ | _ | ⟨hm, hi⟩)
  exact h _ hm inner hi

@[simp] theorem everywhere_null : null.Everywhere p := nofun

@[simp] theorem everywhere_number (n : Number) : (number n).Everywhere p := nofun

@[simp] theorem everywhere_text (s : String) : (text s).Everywhere p := nofun

@[simp] theorem everywhere_ofNat (n : Nat) : (ofNat n).Everywhere p := nofun

@[simp] theorem everywhere_ofBinary64 (x : Binary64) : (ofBinary64 x).Everywhere p := by
  unfold ofBinary64
  split
  · exact everywhere_number _
  · exact everywhere_null

@[simp] theorem everywhere_ofOption {α : Type} {write : α → Value} (h : ∀ a, (write a).Everywhere p)
    (a : Option α) : (ofOption write a).Everywhere p := by
  cases a with
  | none => exact everywhere_null
  | some a => exact h a

end Everywhere

end Json.Value

namespace Http
open Json (Value)
open Scheduler (Action Coherent KeepsFinite)

/-- A task is shown with both its operands, and these are finite numbers. An expression is shown with its result,
and this is a finite number when the expression is done, and null when it is not. -/
structure ShowsNumbers (members : List (String × Value)) : Prop where
  given : ∀ operation, ("operation", operation) ∈ members →
    (∃ left, ("arg1", left) ∈ members) ∧ ∃ right, ("arg2", right) ∈ members
  operands : ∀ operand, ("arg1", operand) ∈ members ∨ ("arg2", operand) ∈ members → operand.IsFinite
  shown : (∃ result, ("result", result) ∈ members) ↔ ∃ status, ("status", status) ∈ members
  result : ∀ result status, ("result", result) ∈ members → ("status", status) ∈ members →
    (result.IsFinite ↔ status = .text "done") ∧ (result = .null ↔ status ≠ .text "done")

theorem showsNumbers_of_absent {members : List (String × Value)}
    (h : ∀ key ∈ ["operation", "arg1", "arg2", "result", "status"], ∀ value, (key, value) ∉ members) :
    ShowsNumbers members := by
  simp only [List.forall_mem_cons] at h
  obtain ⟨hoperation, hleft, hright, hresult, hstatus, _⟩ := h
  constructor <;> simp [*]

theorem taskPayload_shows {payload : TaskPayload} (hl : payload.left.isFinite = true)
    (hr : payload.right.isFinite = true) : (Wire.taskPayload.encode payload).Everywhere ShowsNumbers := by
  have he : Wire.taskPayload.encode payload = .object [("id", .ofNat payload.id),
      ("arg1", .ofBinary64 payload.left), ("arg2", .ofBinary64 payload.right),
      ("operation", .text payload.operator.symbol.toString),
      ("operation_time", .ofNat payload.duration.toNat)] := rfl
  rw [he, Value.everywhere_object]
  refine ⟨?_, by simp⟩
  constructor <;> simp [Value.isFinite_ofBinary64, hl, hr]

theorem summary_shows {s : Scheduler} (h : KeepsFinite s) {id : String} {summary : ExpressionSummary}
    (hs : s.registry.summary? id = some summary) (created updated : Timestamp) :
    (Wire.datedSummary.encode ⟨summary, created, updated⟩).Everywhere ShowsNumbers := by
  obtain ⟨record, hf, rfl⟩ := Option.map_eq_some_iff.mp hs
  have he : Wire.datedSummary.encode ⟨record.summary id, created, updated⟩ = .object [("id", .text id),
      ("expression", .text record.source), ("status", .text record.stage.status.name),
      ("result", .ofOption .ofBinary64 record.stage.result?), ("error", .ofOption .text record.stage.error?),
      ("created_at", .text created.text), ("updated_at", .text updated.text)] := rfl
  rw [he, Value.everywhere_object]
  refine ⟨?_, by simp⟩
  constructor
  · simp
  · simp
  · simp
  · intro result status hresult hstatus
    obtain rfl : result = .ofOption .ofBinary64 record.stage.result? := by simpa using hresult
    obtain rfl : status = .text record.stage.status.name := by simpa using hstatus
    have unfinished : ∀ name, name ≠ "done" → (Value.null.IsFinite ↔ Value.text name = .text "done") ∧
        (Value.null = .null ↔ Value.text name ≠ .text "done") := fun name hname =>
      ⟨by simp [hname, Value.not_isFinite_null], by simp [hname]⟩
    cases hs : record.stage with
    | done value =>
      have hf := Value.isFinite_ofBinary64 (h.results id record value hf hs)
      exact ⟨iff_of_true hf rfl, iff_of_false hf.ne_null (not_not_intro rfl)⟩
    | pending => exact unfinished _ (by decide)
    | calculating => exact unfinished _ (by decide)
    | invalid reason => exact unfinished "invalid" (by decide)

theorem stats_shows (stats : SchedulerStats) : (Wire.schedulerStats.encode stats).Everywhere ShowsNumbers := by
  simp [Wire.schedulerStats, Wire.metrics, Wire.expressionCounts, Wire.count, showsNumbers_of_absent]

/-- Whatever the body of the reply shows, its numbers are finite. -/
def Shows (response : Response) : Prop := ∀ value, response.body = .json value → value.Everywhere ShowsNumbers

theorem shows_json {status : Nat} {members : List (String × Value)}
    (h : (Value.object members).Everywhere ShowsNumbers) : Shows (.json status members) := by
  rintro _ ⟨⟩
  exact h

theorem shows_empty (status : Nat) : Shows (.empty status) := nofun

theorem shows_note (status : Nat) : Shows (.note status) := nofun

theorem shows_some {response : Response} (h : Shows response) :
    ∀ other, some response = some other → Shows other := fun _ he => Option.some.inj he ▸ h

theorem Shows.sees {response : Response} (h : Shows response) (request : Request) :
    Shows (request.sees response) := by
  unfold Request.sees
  split
  · exact nofun
  · exact h

theorem Spoilt.shows {α : Type} {codec : Json.Codec α} {request : Request} {response : Response}
    (h : Spoilt request codec response) : Shows response := by
  cases h <;> exact shows_note _

theorem Rejects.shows {request : Request} {response : Response} (h : Rejects request response) :
    Shows response := by
  cases h with
  | unknownPath => exact shows_empty _
  | wrongMethod => exact shows_empty _
  | undecodable => exact shows_note _
  | submission _ hs => exact hs.shows
  | report _ _ hs => exact hs.shows

/-- A report with a number that is not finite is not read. -/
theorem resultReport_ensures_isFinite :
    Wire.resultReport.Ensures fun report => report.result.isFinite = true :=
  have members := (Json.required_ensures (Json.Codec.ensures_true Wire.count) "id").both
    (Json.required_ensures Json.Codec.binary64_ensures_isFinite "result")
  (members.codec true).map (fun _ h => h.2) _

section Run
variable {σ : Type} [IdGenerator σ] {service : Service σ} {occasion : Occasion} {request : Request}
  {response : Response} {call : Call}

/-- What a request has the scheduler do brings finite numbers only. -/
theorem Asks.bringsFinite {now : Nat} {action : Action} (ha : Asks request call) (hd : call.Does now action) :
    action.BringsFinite := by
  cases hd with
  | submit _ hcompile => exact Formula.isFinite_of_compile hcompile
  | pull => trivial
  | report sent =>
    cases ha with
    | report _ _ hcarries => exact resultReport_ensures_isFinite.readScan hcarries.value

theorem keepsFinite_run (h : KeepsFinite service.orchestrator.scheduler)
    (hc : Coherent service.orchestrator.scheduler) (ha : Asks request call) (occasion : Occasion) :
    KeepsFinite (call.run service occasion).2.orchestrator.scheduler := by
  rcases service.scheduler_run occasion call with he | ⟨action, hd, he⟩
  · rw [he]
    exact h
  · rw [he]
    exact h.perform hc (ha.bringsFinite hd)

theorem failure_shows (failure : Failure) : Shows (.failure failure) :=
  shows_json (by simp [showsNumbers_of_absent])

theorem shows_run (h : KeepsFinite service.orchestrator.scheduler) (hc : Coherent service.orchestrator.scheduler)
    (call : Call) (occasion : Occasion) :
    ∀ response, (call.run service occasion).1.reply? = some response → Shows response := by
  cases call with
  | submit submission =>
    simp only [Call.run]
    cases (service.orchestrator.submit submission.id submission.expression).1 with
    | ok id => exact shows_some (shows_json (by simp [showsNumbers_of_absent]))
    | error failure => exact shows_some (failure_shows failure)
  | list =>
    have hall : ∀ summary ∈ occasion.arrange service.orchestrator.expressions,
        (Wire.datedSummary.encode (service.dated summary)).Everywhere ShowsNumbers := fun summary hm =>
      summary_shows h (Registry.summary?_of_mem_summaries ((occasion.arrange_perm _).mem_iff.mp hm)) _ _
    exact shows_some (shows_json (by simpa [showsNumbers_of_absent] using hall))
  | get id =>
    simp only [Call.run, Orchestrator.expression, Scheduler.expression]
    cases hs : service.orchestrator.scheduler.registry.summary? id with
    | none => exact shows_some (failure_shows _)
    | some summary =>
      have hone : (Wire.datedSummary.encode (service.dated summary)).Everywhere ShowsNumbers :=
        summary_shows h hs _ _
      exact shows_some (shows_json (by simpa [showsNumbers_of_absent] using hone))
  | pull =>
    simp only [Call.run, Orchestrator.pull]
    cases hp : (service.orchestrator.scheduler.pull occasion.now).1 with
    | panic =>
      intro _ he
      cases he
    | error failure => exact shows_some (failure_shows failure)
    | ok payload? =>
      cases payload? with
      | none => exact shows_some (shows_json (by simp [showsNumbers_of_absent]))
      | some payload =>
        obtain ⟨hl, hr⟩ := h.of_pull hc hp
        exact shows_some (shows_json (by simpa [showsNumbers_of_absent] using taskPayload_shows hl hr))
  | report sent =>
    simp only [Call.run]
    cases (service.orchestrator.report sent.id sent.result).1 with
    | ok => exact shows_some (shows_empty 200)
    | error failure => exact shows_some (failure_shows failure)
  | stats =>
    simp only [Call.run]
    cases service.orchestrator.stats with
    | ok stats =>
      refine shows_some fun _ he => ?_
      cases he
      exact stats_shows stats
    | error failure => exact shows_some (failure_shows failure)

theorem handle_finite (h : KeepsFinite service.orchestrator.scheduler)
    (hc : Coherent service.orchestrator.scheduler) (occasion : Occasion) (request : Request) :
    KeepsFinite (service.handle occasion request).2.orchestrator.scheduler ∧
      ∀ response, (service.handle occasion request).1 = some response → Shows response := by
  rcases service.handle_cases occasion request with ⟨rejection, hr, he⟩ | ⟨call, ha, he⟩
  · rw [he]
    exact ⟨h, shows_some (hr.shows.sees request)⟩
  · rw [he]
    refine ⟨keepsFinite_run h hc ha occasion, fun response hr => ?_⟩
    obtain ⟨full, hfull, rfl⟩ := Option.map_eq_some_iff.mp hr
    exact (shows_run h hc call occasion full hfull).sees request

theorem serve_finite (h : KeepsFinite service.orchestrator.scheduler)
    (hc : Coherent service.orchestrator.scheduler) (requests : List (Occasion × Request)) :
    KeepsFinite (service.serve requests).2.orchestrator.scheduler ∧
      ∀ response, some response ∈ (service.serve requests).1 → Shows response := by
  induction requests generalizing service with
  | nil => exact ⟨h, nofun⟩
  | cons entry rest ih =>
    obtain ⟨hkeeps, hshows⟩ := handle_finite h hc entry.1 entry.2
    obtain ⟨hlast, hrest⟩ := ih hkeeps (Service.coherent_handle hc entry.1 entry.2)
    refine ⟨hlast, fun response hm => ?_⟩
    rcases List.mem_cons.mp hm with hfirst | hm
    · exact hshows response hfirst.symm
    · exact hrest response hm

/-- Whatever requests a fresh service has answered, every number that it keeps is finite: the operands and the
results of its live tasks, and the results of its expressions. In every reply that it gave, an object for a
task has two finite numbers as operands, and an object for an expression has a finite number as its result when
its status is `done`, and null when it is not. -/
theorem numbers_always_finite (config : Config) (ids : σ) (requests : List (Occasion × Request)) :
    let start := Service.create config ids
    let replies := (start.serve requests).1
    let o := (start.serve requests).2.orchestrator
    (∀ id task, o.scheduler.table.get? id = some task →
      (∀ value, task.left = .literal value → value.isFinite = true) ∧
      (∀ value, task.right = .literal value → value.isFinite = true) ∧ task.result.isFinite = true) ∧
    (∀ id summary value, o.expression id = .ok summary → summary.result = some value →
      value.isFinite = true) ∧
    ∀ response, some response ∈ replies → ∀ value, response.body = .json value →
      ∀ members, value.Holds members → ShowsNumbers members := by
  intro start replies o
  obtain ⟨h, hshows⟩ : KeepsFinite o.scheduler ∧ ∀ response, some response ∈ replies → Shows response :=
    serve_finite (KeepsFinite.fresh ..) (Coherent.fresh ..) requests
  exact ⟨h.tasks, fun id summary value hs hv => h.of_expression hs hv, hshows⟩

end Run

/-- A report with too large an exponent is turned away. -/
example :
    let report : Request :=
      ⟨"POST", "/internal/task", some "application/json", "\x7b\"id\": 1, \"result\": 1e999\x7d".toUTF8⟩
    ((Service.create {} (⟨"expr", 0⟩ : SequentialIds)).serve
      [(.plain, .submitSum), (.plain, .forTask "GET"), (.plain, report)]).1.map (·.map (·.status)) =
      [some 201, some 200, some 400] := by
  decide +kernel

end Http

end ArithDispatch
