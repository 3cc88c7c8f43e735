import ArithDispatch.Expression.Dates
import ArithDispatch.Http.MediaType
import ArithDispatch.Http.Path
import ArithDispatch.Http.Status
import ArithDispatch.Orchestrator
import ArithDispatch.Wire.Scheduler

/-! The HTTP service. A request is first interpreted without looking at the orchestrator, which
either rejects it or makes it one call; the outcome of that call alone then fixes the reply. A call that
panics gets no reply. -/
namespace ArithDispatch.Http
open Json

structure Request where
  method : String
  target : String
  contentType : Option String := none
  body : ByteArray := .empty

inductive Body where
  | empty
  /-- A note to a human, the wording of which is left open. -/
  | note
  | json (value : Value)
  deriving Repr

structure Response where
  status : Nat
  body : Body
  deriving Repr

namespace Response

def empty (status : Nat) : Response := ⟨status, .empty⟩

def note (status : Nat) : Response := ⟨status, .note⟩

def json (status : Nat) (members : List (String × Value)) : Response := ⟨status, .json (.object members)⟩

def failure (failure : Failure) : Response :=
  json (statusOf failure) [("error", .text failure.message)]

def withoutBody (response : Response) : Response := { response with body := .empty }

end Response

/-- What is found at a path. -/
inductive Resource where
  | calculation
  | expressions
  /-- One expression; its id is still escaped. -/
  | expression (segment : List Char)
  | task
  | stats
  deriving DecidableEq, Repr

def Resource.ofPath? (path : List Char) : Option Resource :=
  if path = "/api/v1/calculate".toList then some .calculation
  else if path = "/api/v1/expressions".toList then some .expressions
  else if path = "/internal/task".toList then some .task
  else if path = "/internal/stats".toList then some .stats
  else match afterBeginning? "/api/v1/expressions/".toList path with
    | some segment =>
      if segment.isEmpty || segment.contains '/' then none else some (.expression segment)
    | none => none

/-- What a request asks of the orchestrator. -/
inductive Call where
  | submit (submission : Wire.Submission)
  | list
  | get (id : String)
  | pull
  | report (report : Wire.ResultReport)
  | stats
  deriving DecidableEq, Repr

/-- The most bytes that a body may have. -/
def bodyLimit : Nat := 2097152

/-- The value in the body of a request. The media type is looked at first, then the length. -/
def readBody {α : Type} (request : Request) (codec : Codec α) : Except Response α :=
  if !request.contentType.any isJson then .error (.note 415)
  else if bodyLimit < request.body.size then .error (.note 413)
  else match codec.readBytes request.body with
    | .ok a => .ok a
    | .error .malformed => .error (.note 400)
    | .error .misshapen => .error (.note 422)

/-- What a request means, or the reply to one that means nothing. A HEAD request means what the GET
request does. -/
def interpret (request : Request) : Except Response Call :=
  let reads := request.method == "GET" || request.method == "HEAD"
  let writes := request.method == "POST"
  match Resource.ofPath? (pathOf request.target) with
  | none => .error (.empty 404)
  | some .calculation =>
    if writes then (readBody request Wire.submission).map .submit else .error (.empty 405)
  | some .task =>
    if reads then .ok .pull
    else if writes then (readBody request Wire.resultReport).map .report
    else .error (.empty 405)
  | some .expressions => if reads then .ok .list else .error (.empty 405)
  | some .stats => if reads then .ok .stats else .error (.empty 405)
  | some (.expression segment) =>
    if reads then
      match decodeSegment? segment with
      | some id => .ok (.get id)
      | none => .error (.note 400)
    else .error (.empty 405)

/-- What a request meets with: the moment at which leases begin, what the calendar shows when an expression is
written to, and an order in which the expressions are listed. -/
structure Occasion where
  now : Nat
  date : String → Timestamp := fun _ => .epoch
  arrange : List ExpressionSummary → List ExpressionSummary := id
  arrange_perm : ∀ summaries, (arrange summaries).Perm summaries := by exact fun _ => .refl _

structure Service (σ : Type) where
  orchestrator : Orchestrator σ
  /-- The dates of the expressions by id; what it is for other ids does not matter. -/
  dates : String → Dates

namespace Service
variable {σ : Type}

def create (config : Config) (ids : σ) : Service σ :=
  ⟨.create config ids, fun _ => ⟨.epoch, .epoch⟩⟩

def dated (service : Service σ) (summary : ExpressionSummary) : Wire.DatedSummary :=
  ⟨summary, (service.dates summary.id).created, (service.dates summary.id).updated⟩

/-- The service once its orchestrator has changed. -/
def become (service : Service σ) (occasion : Occasion) (o : Orchestrator σ) : Service σ where
  orchestrator := o
  dates id := (service.dates id).after (service.orchestrator.scheduler.registry.status? id)
    (o.scheduler.registry.status? id) (occasion.date id)

/-- Makes a call and replies, unless the call panics. -/
def perform [IdGenerator σ] (service : Service σ) (occasion : Occasion) :
    Call → Option Response × Service σ
  | .submit submission =>
    let (answer, o) := service.orchestrator.submit submission.id submission.expression
    let response := match answer with
      | .ok id => .json 201 [("id", .text id)]
      | .error failure => .failure failure
    (some response, service.become occasion o)
  | .list =>
    let summaries := (occasion.arrange service.orchestrator.expressions).map service.dated
    (some (.json 200 [("expressions", .array (summaries.map Wire.datedSummary.encode))]), service)
  | .get id =>
    let response := match service.orchestrator.expression id with
      | .ok summary => .json 200 [("expression", Wire.datedSummary.encode (service.dated summary))]
      | .error failure => .failure failure
    (some response, service)
  | .pull =>
    let (outcome, o) := service.orchestrator.pull occasion.now
    let response? := match outcome with
      | .ok (some payload) => some (.json 200 [("task", Wire.taskPayload.encode payload)])
      | .ok none => some (.json 404 [("error", .text "no task available")])
      | .error failure => some (.failure failure)
      | .panic => none
    (response?, service.become occasion o)
  | .report report =>
    let (answer, o) := service.orchestrator.report report.id report.result
    let response := match answer with
      | .ok () => .empty 200
      | .error failure => .failure failure
    (some response, service.become occasion o)
  | .stats =>
    let response := match service.orchestrator.stats with
      | .ok stats => ⟨200, .json (Wire.schedulerStats.encode stats)⟩
      | .error failure => .failure failure
    (some response, service)

/-- The reply to a request, before it is known whether it may have a body. -/
def respond [IdGenerator σ] (service : Service σ) (occasion : Occasion) (request : Request) :
    Option Response × Service σ :=
  match interpret request with
  | .error rejection => (some rejection, service)
  | .ok call => service.perform occasion call

/-- Answers one request. The reply to a HEAD request has no body. -/
def handle [IdGenerator σ] (service : Service σ) (occasion : Occasion) (request : Request) :
    Option Response × Service σ :=
  let (response?, service) := service.respond occasion request
  (response?.map fun response => if request.method == "HEAD" then response.withoutBody else response, service)

end Service

end ArithDispatch.Http
