import ArithDispatch.Config.Basic
import ArithDispatch.Numeric.Decimal

/-! Reading a configuration from named variables. Values are trimmed and a blank one counts as
absent; absent variables leave the default. The first offending variable decides the fault. -/
namespace ArithDispatch.Config

inductive Variable where
  | host | port | addition | subtraction | multiplication | division | lease | debug
  deriving DecidableEq, Repr

def Variable.name : Variable → String
  | host => "ORCHESTRATOR_HOST"
  | port => "ORCHESTRATOR_PORT"
  | addition => "TIME_ADDITION_MS"
  | subtraction => "TIME_SUBTRACTION_MS"
  | multiplication => "TIME_MULTIPLICATIONS_MS"
  | division => "TIME_DIVISIONS_MS"
  | lease => "TASK_LEASE_MS"
  | debug => "ORCHESTRATOR_DEBUG"

/-- The trimmed value of a variable, absent when unset or blank. -/
def valueOf (lookup : String → Option String) (key : Variable) : Option String :=
  ((lookup key.name).map Text.trim).filter (!·.isEmpty)

/-- An unsigned number below `bound`, or `absent` when the variable has no value. -/
def numberOf (lookup : String → Option String) (key : Variable) (bound absent : Nat) :
    Except Fault Nat :=
  match valueOf lookup key with
  | none => .ok absent
  | some raw =>
    match Numeric.readUnsigned bound raw with
    | some n => .ok n
    | none => .error (.badNumber key.name raw)

/-- The truth value of a flag word, in letters of either case. -/
def flagOf? (raw : String) : Option Bool :=
  let word := raw.map Char.toLower
  if ["1", "true", "yes", "on"].contains word then some true
  else if ["0", "false", "no", "off"].contains word then some false
  else none

def debugOf (lookup : String → Option String) (absent : Bool) : Except Fault Bool :=
  match valueOf lookup .debug with
  | none => .ok absent
  | some raw =>
    match flagOf? raw with
    | some enabled => .ok enabled
    | none => .error (.badFlag Variable.debug.name raw)

/-- A lease of 0 milliseconds stands for none. -/
def leaseOfMilliseconds (n : Nat) : Option Duration :=
  if n = 0 then none else some (.ofMilliseconds n)

def ofLookup (lookup : String → Option String) : Except Fault Config := do
  let defaults : Config := {}
  let port ← numberOf lookup .port UInt16.size defaults.port.toNat
  let addition ← numberOf lookup .addition UInt64.size defaults.durations.addition.toNat
  let subtraction ← numberOf lookup .subtraction UInt64.size defaults.durations.subtraction.toNat
  let multiplication ←
    numberOf lookup .multiplication UInt64.size defaults.durations.multiplication.toNat
  let division ← numberOf lookup .division UInt64.size defaults.durations.division.toNat
  let lease ← numberOf lookup .lease UInt64.size 0
  let debug ← debugOf lookup defaults.debug
  validate
    { host := (valueOf lookup .host).getD defaults.host
      port := .ofNat port
      durations :=
        { addition := .ofNat addition, subtraction := .ofNat subtraction
          multiplication := .ofNat multiplication, division := .ofNat division }
      taskLease := leaseOfMilliseconds lease
      debug }

end ArithDispatch.Config
