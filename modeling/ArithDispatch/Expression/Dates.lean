import ArithDispatch.Expression.Registry
import ArithDispatch.Time.Timestamp

/-! When expressions were created and last changed. Only clients look at these dates, so the registry does not
keep them: they follow from how the statuses in it change. -/
namespace ArithDispatch

structure Dates where
  created : Timestamp
  updated : Timestamp
  deriving DecidableEq, Repr

namespace Dates

/-- The dates of an expression whose status was `old` and is `new` now. One that is new was both created and
updated now. -/
def after (old new : Option ExpressionStatus) (now : Timestamp) (dates : Dates) : Dates :=
  if new = old then dates
  else if old = none then ⟨now, now⟩
  else { dates with updated := now }

@[simp] theorem after_self (status : Option ExpressionStatus) (now : Timestamp) (dates : Dates) :
    dates.after status status now = dates := if_pos rfl

/-- An expression is created once. -/
theorem created_after {old : Option ExpressionStatus} (h : old ≠ none) (new : Option ExpressionStatus)
    (now : Timestamp) (dates : Dates) : (dates.after old new now).created = dates.created := by
  rw [after, if_neg h]
  split <;> rfl

end Dates

end ArithDispatch
