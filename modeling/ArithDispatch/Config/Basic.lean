import ArithDispatch.Failure
import ArithDispatch.Operator.Durations
import ArithDispatch.Text.WhiteSpace
import ArithDispatch.Time.Duration

/-! The configuration of an orchestrator. A usable one has a port other than 0, a host that is not
blank, and a lease, if any, that is not zero; settings are applied in order and then checked. -/
namespace ArithDispatch

structure Config where
  host : String := "localhost"
  port : UInt16 := 8080
  durations : OperationDurations := {}
  /-- How long a dispatched task may stay unreported before it is handed out again. -/
  taskLease : Option Duration := none
  debug : Bool := false
  deriving DecidableEq, Repr

namespace Config

inductive Fault where
  | zeroPort
  | blankHost
  | zeroLease
  | badNumber (name : String) (raw : String)
  | badFlag (name : String) (raw : String)
  deriving DecidableEq, Repr

def Fault.failure : Fault → Failure
  | zeroPort => .configuration "port must be greater than 0" (some "port")
  | blankHost => .configuration "host cannot be empty" (some "host")
  | zeroLease => .configuration "task_lease must be greater than 0 when set" (some "task_lease")
  | badNumber name raw => .configuration s!"invalid value '{raw}'" (some name)
  | badFlag name raw => .configuration s!"invalid boolean '{raw}'" (some name)

/-- The configuration itself when it is usable. -/
def validate (config : Config) : Except Fault Config :=
  if config.port = 0 then .error .zeroPort
  else if Text.isBlank config.host then .error .blankHost
  else if config.taskLease = some ⟨0⟩ then .error .zeroLease
  else .ok config

/-- Where to listen. -/
def address (config : Config) : String := s!"{config.host}:{config.port}"

inductive Setting where
  | host (host : String)
  | port (port : UInt16)
  | durations (durations : OperationDurations)
  | duration (op : Operator) (milliseconds : UInt64)
  | taskLease (lease : Option Duration)
  | debug (enabled : Bool)
  deriving DecidableEq, Repr

def set (config : Config) : Setting → Config
  | .host host => { config with host }
  | .port port => { config with port }
  | .durations durations => { config with durations }
  | .duration op milliseconds => { config with durations := config.durations.replace op milliseconds }
  | .taskLease taskLease => { config with taskLease }
  | .debug debug => { config with debug }

/-- The default configuration changed by the settings in order, if the outcome is usable. -/
def build (settings : List Setting) : Except Fault Config :=
  (settings.foldl set {}).validate

end Config

end ArithDispatch
