/-! What a caller is told when an operation fails, with the classification that callers rely on:
a category, whether a worker may ignore it, and whether the caller's own input is to blame. -/
namespace ArithDispatch

inductive Failure where
  | emptyExpression
  | duplicateId (id : String)
  /-- The text does not divide into balanced tokens; the position is a byte offset where known. -/
  | syntaxError (message : String) (position : Option Nat)
  /-- The tokens do not describe a computable expression. -/
  | semanticError (message : String)
  | expressionNotFound (id : String)
  /-- The task was never created or has been reclaimed. -/
  | taskNotFound (task : Nat)
  /-- The task is live but waits for no report. -/
  | taskNotAwaitingResult (task : Nat) (reason : String)
  | configuration (message : String) (field : Option String)
  | internal (message : String)
  deriving DecidableEq, Repr

namespace Failure

def message : Failure → String
  | emptyExpression => "Expression is empty"
  | duplicateId id => s!"Expression already exists: {id}"
  | syntaxError message _ => s!"Syntax error: {message}"
  | semanticError message => s!"Semantic error: {message}"
  | expressionNotFound id => s!"Expression not found: {id}"
  | taskNotFound task => s!"Task not found: {task}"
  | taskNotAwaitingResult task reason => s!"Task {task} is not awaiting a result: {reason}"
  | configuration message _ => s!"Configuration error: {message}"
  | internal message => s!"Internal error: {message}"

inductive Category where
  | form | meaning | duplicate | notFound | conflict | configuration | internal
  deriving DecidableEq, Repr

def Category.name : Category → String
  | form => "syntax"
  | meaning => "semantic"
  | duplicate => "duplicate"
  | notFound => "not_found"
  | conflict => "conflict"
  | configuration => "configuration"
  | internal => "internal"

def category : Failure → Category
  | emptyExpression | syntaxError .. => .form
  | semanticError _ => .meaning
  | duplicateId _ => .duplicate
  | expressionNotFound _ | taskNotFound _ => .notFound
  | taskNotAwaitingResult .. => .conflict
  | configuration .. => .configuration
  | internal _ => .internal

/-- Whether the caller's input is to blame. -/
def isClientError (failure : Failure) : Bool :=
  match failure with
  | configuration .. | internal _ => false
  | _ => true

/-- Whether a worker may ignore the failure: tasks are reclaimed before every worker has reported,
so a report for a reclaimed one is expected. -/
def isBenign : Failure → Bool
  | taskNotFound _ => true
  | _ => false

/-- A call has panicked while it held the task table, so nobody gets at the table any more. -/
def tableLockPoisoned : Failure := internal "task table lock poisoned"

end Failure

/-- How a call ends that can panic: then its caller gets nothing, not even a failure. -/
inductive Outcome (α : Type) where
  | ok (value : α)
  | error (failure : Failure)
  | panic
  deriving DecidableEq, Repr

end ArithDispatch
