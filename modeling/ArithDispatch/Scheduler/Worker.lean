import ArithDispatch.Scheduler.Basic

/-! A single worker that pulls, computes and reports until nothing is ready. What it computes is a
parameter; arithmetic is one choice. -/
namespace ArithDispatch.Scheduler

abbrev Work := Operator → Binary64 → Binary64 → Binary64

/-- A task as the worker got it, with the value that it reported. -/
structure WorkStep where
  payload : TaskPayload
  value : Binary64
  deriving DecidableEq, Repr

/-- Pulls at most `limit` times, always at the same moment, and stops when it gets nothing: none is ready,
or the pull did not succeed. -/
def drain (work : Work) (now : Nat) : Nat → Scheduler → List WorkStep × Scheduler
  | 0, s => ([], s)
  | limit + 1, s =>
    match s.pull now with
    | (.ok (some payload), s) =>
      let value := work payload.operator payload.left payload.right
      let (_, s) := s.report payload.id value
      let (steps, s) := drain work now limit s
      (⟨payload, value⟩ :: steps, s)
    | (_, s) => ([], s)

/-- Every step of a worker completes a live task, so one pull more than there are live tasks finds
nothing ready. -/
def drainAll (work : Work) (now : Nat) (s : Scheduler) : List WorkStep × Scheduler :=
  drain work now (s.table.size + 1) s

end ArithDispatch.Scheduler
