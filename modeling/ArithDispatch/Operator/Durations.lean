import ArithDispatch.Operator

/-! How long each operator is said to take, in milliseconds. The numbers travel to workers with
each task and nothing here enforces them. -/
namespace ArithDispatch

structure OperationDurations where
  addition : UInt64 := 1000
  subtraction : UInt64 := 1000
  multiplication : UInt64 := 1000
  division : UInt64 := 1000
  deriving DecidableEq, Repr

namespace OperationDurations

def forOperator (durations : OperationDurations) : Operator → UInt64
  | .add => durations.addition
  | .sub => durations.subtraction
  | .mul => durations.multiplication
  | .div => durations.division

/-- The same durations but for one operator. -/
def replace (durations : OperationDurations) (op : Operator) (milliseconds : UInt64) :
    OperationDurations :=
  match op with
  | .add => { durations with addition := milliseconds }
  | .sub => { durations with subtraction := milliseconds }
  | .mul => { durations with multiplication := milliseconds }
  | .div => { durations with division := milliseconds }

theorem forOperator_replace (durations : OperationDurations) (op other : Operator)
    (milliseconds : UInt64) : (durations.replace op milliseconds).forOperator other =
      if other = op then milliseconds else durations.forOperator other := by
  cases op <;> cases other <;> rfl

end OperationDurations

end ArithDispatch
