import ArithDispatch.Numeric.Binary64

/-! How far an expression has come. It moves forward only, and the two last stages never change. -/
namespace ArithDispatch

inductive ExpressionStatus where
  | pending | calculating | done | invalid
  deriving DecidableEq, Repr

namespace ExpressionStatus

def all : List ExpressionStatus := [pending, calculating, done, invalid]

theorem mem_all (status : ExpressionStatus) : status ∈ all := by
  cases status <;> simp [all]

def name : ExpressionStatus → String
  | pending => "pending"
  | calculating => "calculating"
  | done => "done"
  | invalid => "invalid"

def isTerminal : ExpressionStatus → Bool
  | done | invalid => true
  | pending | calculating => false

def canBecome : ExpressionStatus → ExpressionStatus → Bool
  | pending, calculating | pending, done | pending, invalid => true
  | calculating, done | calculating, invalid => true
  | _, _ => false

theorem isTerminal_eq_false_of_canBecome {status next : ExpressionStatus}
    (h : status.canBecome next = true) : status.isTerminal = false := by
  cases status <;> cases next <;> first | rfl | cases h

end ExpressionStatus

/-- A status with what it carries: the value of a finished expression, or why there is none. -/
inductive Stage where
  | pending
  | calculating
  | done (result : Binary64)
  | invalid (reason : String)
  deriving DecidableEq, Repr

namespace Stage

def status : Stage → ExpressionStatus
  | pending => .pending
  | calculating => .calculating
  | done _ => .done
  | invalid _ => .invalid

def result? : Stage → Option Binary64
  | done result => some result
  | _ => none

def error? : Stage → Option String
  | invalid reason => some reason
  | _ => none

end Stage

end ArithDispatch
