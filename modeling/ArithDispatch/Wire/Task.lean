import ArithDispatch.Json.Members
import ArithDispatch.Task

/-! The JSON forms of operators, tasks and workers' reports. -/
namespace ArithDispatch.Wire
open Json

def operator : Codec Operator := .oneOf Operator.all fun op => op.symbol.toString

def taskStatus : Codec TaskStatus := .oneOf TaskStatus.all TaskStatus.name

/-- Counts and ids, which are unsigned and 64 bits wide. -/
def count : Codec Nat := .natBelow UInt64.size

def taskPayload : Codec TaskPayload :=
  ((required "id" count).both <| (required "arg1" .binary64).both <|
    (required "arg2" .binary64).both <| (required "operation" operator).both <|
    required "operation_time" .uint64).codec true |>.map
    (fun (id, left, right, operator, duration) => { id, left, right, operator, duration })
    (fun p => (p.id, p.left, p.right, p.operator, p.duration))

/-- A worker's report. -/
structure ResultReport where
  id : Nat
  result : Binary64
  deriving DecidableEq, Repr

def resultReport : Codec ResultReport :=
  ((required "id" count).both (required "result" .binary64)).codec true |>.map
    (fun (id, result) => { id, result }) (fun r => (r.id, r.result))

end ArithDispatch.Wire
