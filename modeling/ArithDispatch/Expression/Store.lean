import ArithDispatch.Expression.Registry

/-! The records of expressions with their parts kept apart: an operation writes the status and, beside it, the
one part that it knows. `Registry` keeps status, result and error as one stage. -/
namespace ArithDispatch

structure StoredExpression where
  source : String
  status : ExpressionStatus
  /-- Meaningful once the status is done. -/
  result : Binary64
  rootTask : Option Nat
  /-- Why the expression became invalid. -/
  error : Option String
  deriving DecidableEq, Repr

namespace StoredExpression

def pending (source : String) (root : Nat) : StoredExpression :=
  ⟨source, .pending, .zero, some root, none⟩

def literal (source : String) (value : Binary64) : StoredExpression :=
  ⟨source, .done, value, none, none⟩

/-- A client sees the result when the status is done, and the error whenever there is one. -/
def summary (id : String) (stored : StoredExpression) : ExpressionSummary :=
  ⟨id, stored.source, stored.status, if stored.status = .done then some stored.result else none,
    stored.error⟩

end StoredExpression

/-- Stored expressions with their ids, in the order of registration. -/
structure ExpressionStore where
  entries : List (String × StoredExpression) := []
  deriving DecidableEq, Repr

namespace ExpressionStore

def find? (store : ExpressionStore) (id : String) : Option StoredExpression :=
  store.entries.lookup id

def status? (store : ExpressionStore) (id : String) : Option ExpressionStatus :=
  (store.find? id).map (·.status)

def rootTask? (store : ExpressionStore) (id : String) : Option Nat :=
  (store.find? id).bind (·.rootTask)

def summary? (store : ExpressionStore) (id : String) : Option ExpressionSummary :=
  (store.find? id).map (·.summary id)

/-- Adds the record that `build` makes from `state`, unless the id is taken; then nothing happens
and `build` is not run. -/
def register {σ : Type} (store : ExpressionStore) (id : String) (build : σ → StoredExpression × σ)
    (state : σ) : Option (ExpressionStore × σ) :=
  match store.find? id with
  | some _ => none
  | none =>
    let (stored, state) := build state
    some (⟨store.entries ++ [(id, stored)]⟩, state)

def modify (store : ExpressionStore) (id : String) (change : StoredExpression → StoredExpression) :
    ExpressionStore where
  entries := store.entries.map fun entry =>
    if entry.1 = id then (entry.1, change entry.2) else entry

/-- Moves an expression to a status that is open to it, together with what else is to be written. -/
def transition (store : ExpressionStore) (id : String) (next : ExpressionStatus)
    (write : StoredExpression → StoredExpression) : Bool × ExpressionStore :=
  match store.find? id with
  | none => (false, store)
  | some stored =>
    if stored.status.canBecome next then
      (true, store.modify id fun stored => { write stored with status := next })
    else (false, store)

def markCalculating (store : ExpressionStore) (id : String) : Bool × ExpressionStore :=
  if store.status? id = some .calculating then (true, store)
  else store.transition id .calculating fun stored => stored

def complete (store : ExpressionStore) (id : String) (result : Binary64) : Bool × ExpressionStore :=
  store.transition id .done ({ · with result })

def invalidate (store : ExpressionStore) (id : String) (reason : String) : Bool × ExpressionStore :=
  store.transition id .invalid ({ · with error := some reason })

/-- One more expression with the status. -/
def tally (counts : ExpressionCounts) : ExpressionStatus → ExpressionCounts
  | .pending => { counts with pending := counts.pending + 1 }
  | .calculating => { counts with calculating := counts.calculating + 1 }
  | .done => { counts with done := counts.done + 1 }
  | .invalid => { counts with invalid := counts.invalid + 1 }

def counts (store : ExpressionStore) : ExpressionCounts :=
  store.entries.foldl (fun counts entry => tally counts entry.2.status) ⟨0, 0, 0, 0⟩

end ExpressionStore

end ArithDispatch
