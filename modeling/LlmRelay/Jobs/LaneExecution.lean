import LlmRelay.Ecma.Text
import LlmRelay.Ecma.Number

/-!
# Executions of a lane

What the daemon reports of one lane execution that it owns (`lane-execution-broker.ts`).

## Main definitions

* `LaneExecutionRunResult`: how the process of an execution ended;
* `LaneExecutionSnapshot`: the state of an execution.
-/

namespace LlmRelay

open Ecma

inductive LaneExecutionStatus where
  | running
  | completed
  | failed
  | timed_out
  | cancelled
  deriving DecidableEq

def LaneExecutionStatus.name : LaneExecutionStatus → String
  | running => "running"
  | completed => "completed"
  | failed => "failed"
  | timed_out => "timed_out"
  | cancelled => "cancelled"

/-- How a process ended. -/
structure LaneExecutionRunResult where
  code : Option Number
  stdout : Text
  stderr : Text
  timedOut : Bool
  deriving DecidableEq

/-- The state of an execution; its process result travels as one group. -/
structure LaneExecutionSnapshot where
  executionId : Text
  jobId : Text
  laneId : Text
  status : LaneExecutionStatus
  startedAt : Number
  endedAt : Option Number
  stdoutBytes : Nat
  stderrBytes : Nat
  lastOutputAt : Option Number
  cpuMs : Option Number
  relayInFlight : Option Nat
  relayLastActivityAt : Option Number
  launchNotes : Option (List Text)
  result : Option LaneExecutionRunResult
  deriving DecidableEq

end LlmRelay
