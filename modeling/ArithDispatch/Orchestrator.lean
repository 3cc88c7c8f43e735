import ArithDispatch.Formula.Compile
import ArithDispatch.Scheduler.Basic
import ArithDispatch.Text.WhiteSpace

/-! The orchestrator: infix texts in, values out. It compiles what clients submit, names what they
leave unnamed, and leaves tasks and results to its scheduler. -/
namespace ArithDispatch

/-- Makes up ids for what clients leave unnamed: each time one id, and what is left to make up more. Nothing
is assumed of the ids, not even that they differ. -/
class IdGenerator (σ : Type) where
  next : σ → String × σ

/-- Ids `stem-1`, `stem-2` and so on; the count is 64 bits wide and wraps. -/
structure SequentialIds where
  stem : String
  issued : UInt64 := 0
  deriving DecidableEq, Repr

instance : IdGenerator SequentialIds where
  next ids :=
    let issued := ids.issued + 1
    (s!"{ids.stem}-{issued}", { ids with issued })

structure Orchestrator (σ : Type) where
  config : Config := {}
  scheduler : Scheduler := {}
  ids : σ

namespace Orchestrator
variable {σ : Type}

def create (config : Config) (ids : σ) : Orchestrator σ :=
  { config, scheduler := .ofConfig config, ids }

/-- The trimmed id that a client gave, or a new one when it gave none or a blank one. -/
def chooseId [IdGenerator σ] (o : Orchestrator σ) (given : Option String) : String × Orchestrator σ :=
  match (given.map Text.trim).filter (!·.isEmpty) with
  | some id => (id, o)
  | none =>
    let (id, ids) := IdGenerator.next o.ids
    (id, { o with ids })

/-- Compiles a text and registers it. Whatever fails, only the supply of ids may have changed. -/
def submit [IdGenerator σ] (o : Orchestrator σ) (given : Option String) (text : String) :
    Except Failure String × Orchestrator σ :=
  if Text.isBlank text then (.error .emptyExpression, o)
  else
    let (id, o) := o.chooseId given
    if o.scheduler.registry.contains id then (.error (.duplicateId id), o)
    else match Formula.compile text with
      | .error fault => (.error fault.failure, o)
      | .ok compiled =>
        let (outcome, scheduler) := o.scheduler.accept id text compiled
        (outcome.map fun _ => id, { o with scheduler })

def expression (o : Orchestrator σ) (id : String) : Except Failure ExpressionSummary :=
  o.scheduler.expression id

def expressions (o : Orchestrator σ) : List ExpressionSummary := o.scheduler.registry.summaries

def pull (o : Orchestrator σ) (now : Nat) : Outcome (Option TaskPayload) × Orchestrator σ :=
  let (outcome, scheduler) := o.scheduler.pull now
  (outcome, { o with scheduler })

def report (o : Orchestrator σ) (id : Nat) (value : Binary64) : Except Failure Unit × Orchestrator σ :=
  let (outcome, scheduler) := o.scheduler.report id value
  (outcome, { o with scheduler })

def stats (o : Orchestrator σ) : Except Failure SchedulerStats := o.scheduler.stats

end Orchestrator

end ArithDispatch
