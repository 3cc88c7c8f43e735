import ArithDispatch.Failure

/-! The HTTP status of each failure. -/
namespace ArithDispatch.Http

def statusOf : Failure → Nat
  | .emptyExpression | .syntaxError .. | .semanticError _ => 422
  | .duplicateId _ | .taskNotAwaitingResult .. => 409
  | .expressionNotFound _ | .taskNotFound _ => 404
  | .configuration .. | .internal _ => 500

end ArithDispatch.Http
