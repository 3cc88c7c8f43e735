import ArithDispatch.Expression.Registry
import ArithDispatch.Time.Timestamp
import ArithDispatch.Wire.Task

/-! The JSON forms of expressions: their submission, their summaries, and how many there are. -/
namespace ArithDispatch.Wire
open Json

def expressionStatus : Codec ExpressionStatus := .oneOf ExpressionStatus.all ExpressionStatus.name

def timestamp : Codec Timestamp := Codec.text.refine Timestamp.ofText? Timestamp.text

/-- A summary with the moments of its first and last change. -/
structure DatedSummary where
  summary : ExpressionSummary
  createdAt : Timestamp
  updatedAt : Timestamp
  deriving DecidableEq, Repr

def datedSummary : Codec DatedSummary :=
  ((required "id" .text).both <| (required "expression" .text).both <|
    (required "status" expressionStatus).both <| (optional "result" .binary64).both <|
    (optional "error" .text).both <| (required "created_at" timestamp).both <|
    required "updated_at" timestamp).codec true |>.map
    (fun (id, expression, status, result, error, createdAt, updatedAt) =>
      { summary := { id, expression, status, result, error }, createdAt, updatedAt })
    (fun d => (d.summary.id, d.summary.expression, d.summary.status, d.summary.result,
      d.summary.error, d.createdAt, d.updatedAt))

def expressionCounts : Codec ExpressionCounts :=
  ((required "pending" count).both <| (required "calculating" count).both <|
    (required "done" count).both <| required "invalid" count).codec true |>.map
    (fun (pending, calculating, done, invalid) => { pending, calculating, done, invalid })
    (fun c => (c.pending, c.calculating, c.done, c.invalid))

/-- What a client submits. Without a text it has submitted an empty one. -/
structure Submission where
  id : Option String
  expression : String
  deriving DecidableEq, Repr

def submission : Codec Submission :=
  ((defaulted "id" Codec.text.option none).both (defaulted "expression" .text "")).codec true |>.map
    (fun (id, expression) => { id, expression }) (fun s => (s.id, s.expression))

end ArithDispatch.Wire
