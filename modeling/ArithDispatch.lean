import ArithDispatch.Proofs.Config.Agreement
import ArithDispatch.Proofs.Expression.Consistency
import ArithDispatch.Proofs.Formula.Grammar
import ArithDispatch.Proofs.Http.Dates
import ArithDispatch.Proofs.Http.Numbers
import ArithDispatch.Proofs.Json.Damage
import ArithDispatch.Proofs.Orchestrator.Naming
import ArithDispatch.Proofs.Orchestrator.Outcome
import ArithDispatch.Proofs.Scheduler.Commutation
import ArithDispatch.Proofs.Scheduler.Conservation
import ArithDispatch.Proofs.Scheduler.Drain
import ArithDispatch.Proofs.Scheduler.Exclusive
import ArithDispatch.Proofs.Scheduler.Lifecycle
import ArithDispatch.Proofs.Scheduler.LiveTasks
import ArithDispatch.Proofs.Scheduler.Wraparound
import ArithDispatch.Proofs.Task.LowWater
import ArithDispatch.Proofs.Wire.RoundTrip
