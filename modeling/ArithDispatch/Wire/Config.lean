import ArithDispatch.Config.Basic
import ArithDispatch.Json.Members

/-! The JSON forms of configurations and what they consist of. -/
namespace ArithDispatch.Wire
open Json

def operationDurations : Codec OperationDurations :=
  ((required "addition" .uint64).both <| (required "subtraction" .uint64).both <|
    (required "multiplication" .uint64).both <| required "division" .uint64).codec true |>.map
    (fun (addition, subtraction, multiplication, division) =>
      { addition, subtraction, multiplication, division })
    (fun d => (d.addition, d.subtraction, d.multiplication, d.division))

/-- A length of time of less than `2 ^ 64` seconds. Nanoseconds past a second carry over. -/
def durationOfParts? (seconds subsecond : Nat) : Option Duration :=
  let duration := Duration.ofParts seconds subsecond
  if duration.seconds < UInt64.size then some duration else none

/-- A length of time admits no members of other names. -/
def duration : Codec Duration :=
  ((required "secs" (.natBelow UInt64.size)).both
    (required "nanos" (.natBelow UInt32.size))).codec false |>.refine
    (fun (seconds, subsecond) => durationOfParts? seconds subsecond)
    (fun d => (d.seconds, d.subsecond))

def port : Codec UInt16 := (Codec.natBelow UInt16.size).map .ofNat UInt16.toNat

def config : Codec Config :=
  ((required "host" .text).both <| (required "port" port).both <|
    (required "durations" operationDurations).both <| (optional "task_lease" duration).both <|
    required "debug" .bool).codec true |>.map
    (fun (host, port, durations, taskLease, debug) => { host, port, durations, taskLease, debug })
    (fun c => (c.host, c.port, c.durations, c.taskLease, c.debug))

end ArithDispatch.Wire
