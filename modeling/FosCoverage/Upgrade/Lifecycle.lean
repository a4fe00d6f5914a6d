import FosCoverage.Lib.Stateful
import FosCoverage.Lib.Trace

/-!
# The traffic and write lifecycle of an upgrade

`UpgradeLifecycle` stops and starts processes through configured commands and remembers in seven
flags what was done.  The freeze marker is a file that the HTTP runtime looks at before it accepts a
write.

* A command passes, fails, or raises since it is not configured or not a list of strings.  What
  really ran is in `Lifecycle.log`, with the marker as it was at that moment.
* `Processes.after` reads the log: which candidate processes may be alive, and whether the stable
  one is.
* `abort` has two exits.  While the current process was not touched it only reopens the traffic;
  else it stops the candidate processes and starts the previous release.

The identity check of the restored endpoint is one outcome, files are written without failures, and
`drain` with the two aliases for old callers is left out.
-/

set_option autoImplicit false

namespace FosCoverage

namespace UpgradeLifecycle

/-! ## Commands -/

/-- The configured commands. -/
inductive Command
  | freezeTraffic | openTraffic
  | startValidationApi | stopValidationApi
  | startServingApi | stopServingApi
  | stopCurrentApi | startPreviousApi
  deriving DecidableEq, Repr

/-- The name of a command in the configuration. -/
def Command.name : Command → String
  | .freezeTraffic => "freeze_traffic"
  | .openTraffic => "open_traffic"
  | .startValidationApi => "start_validation_api"
  | .stopValidationApi => "stop_validation_api"
  | .startServingApi => "start_serving_api"
  | .stopServingApi => "stop_serving_api"
  | .stopCurrentApi => "stop_current_api"
  | .startPreviousApi => "start_previous_api"

/-- What comes of a command. -/
inductive Outcome
  /-- Exit code zero. -/
  | passed
  /-- Another exit code. -/
  | failed
  /-- There is no such command. -/
  | notConfigured
  /-- It is not a list of strings. -/
  | invalid
  deriving DecidableEq, Repr

/-- A command that ran. -/
structure Event where
  /-- The command. -/
  command : Command
  /-- `process_role`: it starts the previous release and not a candidate. -/
  restores : Bool
  /-- Exit code zero. -/
  passed : Bool
  /-- The freeze marker was there. -/
  marker : Bool
  deriving DecidableEq, Repr

/-- The processes an upgrade is about. -/
structure Processes where
  /-- A start of the validation process ran, and no stop of it has passed since. -/
  validation : Bool
  /-- A start of the candidate's serving process ran, and no stop of it has passed since. -/
  serving : Bool
  /-- The current process was never told to stop, or the previous release was started since. -/
  stable : Bool
  deriving DecidableEq, Repr

/-- What a command that ran does to the processes. -/
def Processes.step (p : Processes) (e : Event) : Processes :=
  if e.restores then { p with stable := p.stable || e.passed }
  else match e.command with
    | .startValidationApi => { p with validation := true }
    | .stopValidationApi => { p with validation := p.validation && !e.passed }
    | .startServingApi => { p with serving := true }
    | .stopServingApi => { p with serving := p.serving && !e.passed }
    | .stopCurrentApi => { p with stable := false }
    | _ => p

/-- The processes after the commands of a log; at first only the current one runs. -/
def Processes.after (log : List Event) : Processes := log.foldl Processes.step ⟨false, false, true⟩

/-! ## The object -/

/-- The fields of the object, the marker file and the commands that ran. -/
structure Lifecycle where
  /-- `active` -/
  active : Bool
  /-- `api_started` -/
  apiStarted : Bool
  /-- `serving_api_started` -/
  servingApiStarted : Bool
  /-- `current_serving_managed` -/
  currentServingManaged : Bool
  /-- `current_api_stopped` -/
  currentApiStopped : Bool
  /-- `current_api_stop_attempted` -/
  currentApiStopAttempted : Bool
  /-- `traffic_opened` -/
  trafficOpened : Bool
  /-- `os.path.isfile(self.marker)` -/
  marker : Bool
  /-- The commands that ran, oldest first. -/
  log : List Event
  deriving DecidableEq, Repr

/-- `__init__`; a marker may be left from another run. -/
def init (marker : Bool) : Lifecycle :=
  ⟨false, false, false, false, false, false, false, marker, []⟩

/-- The methods. -/
abbrev Method (α : Type) := Stateful String Lifecycle α

open Stateful

/-- `_run_command`: whether the command passed. -/
def runCommand (command : Command) (restores : Bool) : Outcome → Method Bool
  | .notConfigured =>
    raise ("upgrade lifecycle command '" ++ command.name ++ "' is not configured")
  | .invalid => raise ("upgrade lifecycle command '" ++ command.name ++ "' is invalid")
  | .passed => do
    update fun s => { s with log := s.log ++ [⟨command, restores, true, s.marker⟩] }
    pure true
  | .failed => do
    update fun s => { s with log := s.log ++ [⟨command, restores, false, s.marker⟩] }
    pure false

/-- A command that has to pass. -/
def mustPass (command : Command) (restores : Bool) (outcome : Outcome) (error : String) :
    Method Unit := do
  let passed ← runCommand command restores outcome
  check error (passed = true)

/-- `os.remove(self.marker)` and `self.active = False` -/
def thaw : Method Unit := update fun s => { s with marker := false, active := false }

/-! ## Methods -/

/-- What the outside decides about an `abort`. -/
structure AbortOutcomes where
  /-- The commands. -/
  command : Command → Outcome
  /-- A rollback endpoint is configured. -/
  endpoint : Bool
  /-- It answers with the identity of the previous release. -/
  endpointMatches : Bool

/-- What `abort` returns. -/
structure AbortReport where
  /-- `current_process_preserved` -/
  currentProcessPreserved : Bool
  /-- `previous_release_verified` -/
  previousReleaseVerified : Bool
  /-- `restore_endpoint_key` -/
  restoreEndpointKey : String
  deriving DecidableEq, Repr

/-- Traffic that was frozen is opened again for the current process. -/
def reopenTraffic (o : AbortOutcomes) : Method Unit := do
  let s ← read
  if s.active ∨ s.marker then do
    mustPass .openTraffic false (o.command .openTraffic)
      "traffic reopen failed while preserving current API"
    update fun s => { s with trafficOpened := false }
  else pure ()

/-- The exit of `abort` while the stable process still serves. -/
def preserveCurrent (o : AbortOutcomes) : Method AbortReport := do
  let s ← read
  check "current API stop outcome is unknown; refusing automatic rollback"
    (s.currentApiStopAttempted = false)
  reopenTraffic o
  thaw
  pure ⟨true, false, ""⟩

/-- The candidate's serving process is stopped if it was started. -/
def stopServingIfStarted (o : AbortOutcomes) : Method Unit := do
  let s ← read
  if s.servingApiStarted then do
    mustPass .stopServingApi false (o.command .stopServingApi)
      "final serving API stop failed during rollback"
    update fun s => { s with servingApiStarted := false }
  else pure ()

/-- The validation process is stopped if it was started. -/
def stopValidationIfStarted (o : AbortOutcomes) : Method Unit := do
  let s ← read
  if s.apiStarted then do
    mustPass .stopValidationApi false (o.command .stopValidationApi)
      "validation API stop failed during rollback"
    update fun s => { s with apiStarted := false }
  else pure ()

/-- `endpoint_key` -/
def endpointKey (restoreManagedServing : Bool) : String :=
  if restoreManagedServing then "release_endpoint" else "previous_release_endpoint"

/-- The command that starts the previous release. -/
def previousCommand (restoreManagedServing : Bool) : Command :=
  if restoreManagedServing then .startServingApi else .startPreviousApi

/-- The other exit: the candidate is stopped and the previous release started. -/
def restorePrevious (o : AbortOutcomes) : Method AbortReport := do
  let s ← read
  let managed := s.servingApiStarted || s.currentServingManaged
  stopServingIfStarted o
  stopValidationIfStarted o
  mustPass (previousCommand managed) true (o.command (previousCommand managed))
    "previous API start failed during rollback"
  check (endpointKey managed ++ " mismatch") (o.endpoint → o.endpointMatches)
  thaw
  pure ⟨false, o.endpoint, endpointKey managed⟩

/-- Traffic that was opened is frozen again. -/
def refreezeTraffic (o : AbortOutcomes) : Method Unit := do
  let s ← read
  if s.trafficOpened then do
    mustPass .freezeTraffic false (o.command .freezeTraffic)
      "traffic re-freeze failed during rollback"
    update fun s => { s with trafficOpened := false }
  else pure ()

/-- `abort` -/
def abort (o : AbortOutcomes) : Method AbortReport := do
  refreezeTraffic o
  let s ← read
  if !s.currentApiStopped && !s.servingApiStarted then preserveCurrent o else restorePrevious o

/-- `freeze` -/
def freeze (outcome : Outcome) (o : AbortOutcomes) : Method Unit := do
  update fun s => { s with marker := true, active := true }
  let passed ← runCommand .freezeTraffic false outcome
  if passed then pure ()
  else do
    let _ ← abort o
    raise "freeze_traffic failed"

/-- `stop_validation_api` -/
def stopValidationApi (outcome : Outcome) : Method Unit := do
  mustPass .stopValidationApi false outcome "stop_validation_api failed"
  update fun s => { s with apiStarted := false }

/-- `start_validation_api`: a failed start may have started a part. -/
def startValidationApi (outcome : Outcome) : Method Unit := do
  update fun s => { s with apiStarted := true }
  mustPass .startValidationApi false outcome "start_validation_api failed"

/-- `stop_current_api`; `managed` is `_has_active_current_serving_state`. -/
def stopCurrentApi (managed : Bool) (outcome : Outcome) : Method Unit := do
  update fun s => { s with currentServingManaged := managed, currentApiStopAttempted := true }
  mustPass .stopCurrentApi false outcome "stop_current_api failed"
  update fun s => { s with currentApiStopped := true }

/-- `start_serving_api` -/
def startServingApi (outcome : Outcome) : Method Unit := do
  update fun s => { s with servingApiStarted := true }
  mustPass .startServingApi false outcome "start_serving_api failed"

/-- `stop_serving_api` -/
def stopServingApi (outcome : Outcome) : Method Unit := do
  mustPass .stopServingApi false outcome "stop_serving_api failed"
  update fun s => { s with servingApiStarted := false }

/-- `open_traffic` -/
def openTraffic (outcome : Outcome) : Method Unit := do
  mustPass .openTraffic false outcome "open_traffic failed"
  update fun s => { s with trafficOpened := true }

/-- `finalize_traffic_open` -/
def finalizeTrafficOpen : Method Unit := do
  let s ← read
  check "traffic has not been opened" (s.trafficOpened = true)
  thaw

/-! ## Calls -/

/-- A call of a method, with what comes of its commands. -/
inductive Call
  | freeze (outcome : Outcome) (o : AbortOutcomes)
  | startValidationApi (outcome : Outcome)
  | stopValidationApi (outcome : Outcome)
  | stopCurrentApi (managed : Bool) (outcome : Outcome)
  | startServingApi (outcome : Outcome)
  | stopServingApi (outcome : Outcome)
  | openTraffic (outcome : Outcome)
  | finalizeTrafficOpen
  | abort (o : AbortOutcomes)

/-- The method; reports are dropped. -/
def Call.method : Call → Method Unit
  | freeze outcome o => UpgradeLifecycle.freeze outcome o
  | startValidationApi outcome => UpgradeLifecycle.startValidationApi outcome
  | stopValidationApi outcome => UpgradeLifecycle.stopValidationApi outcome
  | stopCurrentApi managed outcome => UpgradeLifecycle.stopCurrentApi managed outcome
  | startServingApi outcome => UpgradeLifecycle.startServingApi outcome
  | stopServingApi outcome => UpgradeLifecycle.stopServingApi outcome
  | openTraffic outcome => UpgradeLifecycle.openTraffic outcome
  | finalizeTrafficOpen => UpgradeLifecycle.finalizeTrafficOpen
  | abort o => do
    let _ ← UpgradeLifecycle.abort o
    pure ()

/-- The call returns. -/
def Call.returns (s : Lifecycle) (c : Call) : Bool := (c.method s).1.isOk

/-- The `abort` a call runs, with the state it runs in. -/
def Call.aborting (s : Lifecycle) : Call → Option (Lifecycle × AbortOutcomes)
  | .abort o => some (s, o)
  | .freeze .failed o => some ({ s with
      marker := true
      active := true
      log := s.log ++ [⟨.freezeTraffic, false, false, true⟩] }, o)
  | _ => none

/-- The `abort` a call runs returns. -/
def Call.aborted (s : Lifecycle) (c : Call) : Bool :=
  (c.aborting s).any fun p => (UpgradeLifecycle.abort p.2 p.1).1.isOk

/-- A run: the object, and whether a `freeze` has returned since the last return of
`finalize_traffic_open` or `abort`. -/
def exec (st : Lifecycle × Bool) (c : Call) : Lifecycle × Bool :=
  ((c.method st.1).2,
    match c with
    | .freeze .. => c.returns st.1 || (st.2 && !c.aborted st.1)
    | .finalizeTrafficOpen => st.2 && !c.returns st.1
    | .abort _ => st.2 && !c.returns st.1
    | _ => st.2)

end UpgradeLifecycle

end FosCoverage
