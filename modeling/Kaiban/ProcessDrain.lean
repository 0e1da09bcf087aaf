/-
The drain of a worker process.

Every agent node of the process registers the shutdown of its parts.  The first signal runs
all of them together; once each has answered, telemetry is flushed, and the process exits.

A run is a list of events: a node registers, a signal comes, a shutdown goes on, its drain
answers, the flush settles or is given up.  After the exit there is none.
-/
import Kaiban.GracefulShutdown

open JsString

namespace Kaiban

/-! ### Telemetry -/

/-- The flush of the tracked SDK: `tracked.flush`. -/
inductive FlushPhase where
  | idle
  | inFlight
  | settled
  deriving DecidableEq

structure TelemetryShutdown where
  /-- `tracked`: none as long as telemetry was never started. -/
  tracked : Option FlushPhase
  ownedByShutdown : Bool
  -- history: the calls of `sdk.shutdown()`, each with whether the drains had answered by then
  flushes : List Bool
  deriving DecidableEq

namespace TelemetryShutdown

def init : TelemetryShutdown := ⟨none, false, []⟩

/-- `trackTelemetrySdk(sdk)`. -/
def trackTelemetrySdk (t : TelemetryShutdown) : TelemetryShutdown :=
  { t with tracked := some .idle }

/-- `deferTelemetryShutdown()`. -/
def deferTelemetryShutdown (t : TelemetryShutdown) : TelemetryShutdown :=
  { t with ownedByShutdown := true }

/-- `shutdownTelemetry()`: the first call starts the flush. -/
def shutdownTelemetry (t : TelemetryShutdown) (drained : Bool) : TelemetryShutdown :=
  if t.tracked = some .idle then
    { t with tracked := some .inFlight, flushes := t.flushes ++ [drained] }
  else t

/-- The promise of `shutdownTelemetry()` has yet to resolve. -/
def pending (t : TelemetryShutdown) : Bool := t.tracked = some .inFlight

/-- `onTelemetrySigterm()`, once `initTelemetry` has registered it. -/
def onTelemetrySigterm (t : TelemetryShutdown) : TelemetryShutdown :=
  if t.ownedByShutdown then t else t.shutdownTelemetry false

end TelemetryShutdown

/-! ### The nodes -/

/-- The steps of `registerWorkerDrain`, by their names. -/
def workerDrainSteps : List JsString :=
  [js "stop-actor", js "close-control", js "close-driver", js "close-publisher"]

/-- A call of a node's drain. -/
structure NodeDrain where
  shutdown : GracefulShutdown
  /-- What its promise has resolved with; a rejection is caught, and counts as false. -/
  answer : Option Bool

namespace NodeDrain

def called : NodeDrain := ⟨.init workerDrainSteps, none⟩

/-- What the drain resolves with, once its shutdown has settled. -/
def reply (d : NodeDrain) : Option Bool :=
  match d.shutdown.outcome with
  | none => none
  | some .rejected => some false
  | some .done | some .deadline =>
      some (!d.shutdown.result.timedOut && d.shutdown.result.errors.isEmpty)

end NodeDrain

/-! ### The process -/

inductive DrainPhase where
  /-- `draining` is false. -/
  | serving
  | draining
  /-- `await shutdownTelemetry()`, with the answers of the drains. -/
  | flushing (clean : List Bool)
  | exited (code : ℕ)
  /-- A signal nobody listens to ends the process. -/
  | killed
  deriving DecidableEq

structure ProcessDrain where
  /-- `drains.length`. -/
  registered : ℕ
  listening : Bool
  phase : DrainPhase
  /-- The drains that were called. -/
  nodes : List NodeDrain
  telemetry : TelemetryShutdown

inductive Signal where
  | sigterm
  | sigint
  deriving DecidableEq

inductive DrainEvent where
  | initTelemetry
  | registerNodeDrain
  | signal (sig : Signal)
  /-- The shutdown of a node goes on. -/
  | node (i : ℕ) (e : ShutdownEvent)
  /-- The promise of a node's drain settles. -/
  | answers (i : ℕ)
  /-- `sdk.shutdown()` settles, or the bound on it fires. -/
  | flushSettles
  | flushTimesOut
  /-- The process goes on after the flush. -/
  | exits

namespace ProcessDrain

def init : ProcessDrain := ⟨0, false, .serving, [], .init⟩

/-- `registerNodeDrain(drain)`. -/
def registerNodeDrain (s : ProcessDrain) : ProcessDrain :=
  let s := { s with registered := s.registered + 1 }
  if s.listening then s
  else { s with listening := true, telemetry := s.telemetry.deferTelemetryShutdown }

/-- `drainProcess()`, up to its wait for the drains. -/
def drainProcess (s : ProcessDrain) : ProcessDrain :=
  match s.phase with
  | .serving =>
      { s with phase := .draining, nodes := List.replicate s.registered .called }
  | _ => s

/-- The answers, once every drain has given one. -/
def answers (s : ProcessDrain) : Option (List Bool) := s.nodes.mapM NodeDrain.answer

/-- `drainProcess()` after its wait for the drains, if that is over. -/
def gathered (s : ProcessDrain) : ProcessDrain :=
  match s.answers with
  | none => s
  | some clean =>
      { s with phase := .flushing clean, telemetry := s.telemetry.shutdownTelemetry true }

/-- A signal.  The listener of the SDK was registered before the one of the drains. -/
def receive (s : ProcessDrain) (sig : Signal) : ProcessDrain :=
  let sdkListens := sig = .sigterm ∧ s.telemetry.tracked.isSome
  if s.listening then
    let s := if sdkListens then { s with telemetry := s.telemetry.onTelemetrySigterm } else s
    s.drainProcess
  else if sdkListens then { s with telemetry := s.telemetry.onTelemetrySigterm }
  else { s with phase := .killed }

/-- The flush is over. -/
def flushed (s : ProcessDrain) : ProcessDrain :=
  { s with telemetry := { s.telemetry with tracked := some .settled } }

/-- The process is still there. -/
def alive (s : ProcessDrain) : Bool :=
  match s.phase with
  | .serving | .draining | .flushing _ => true
  | .exited _ | .killed => false

/-- An event of a process that is still there. -/
def react (s : ProcessDrain) : DrainEvent → Option ProcessDrain
  | .initTelemetry =>
      -- once per process, before anything is drained
      if s.telemetry.tracked = none ∧ s.phase = .serving then
        some { s with telemetry := s.telemetry.trackTelemetrySdk }
      else none
  | .registerNodeDrain => some s.registerNodeDrain
  | .signal sig => some (s.receive sig)
  | .node i e =>
      match s.nodes[i]? with
      | none => none
      | some d =>
          (d.shutdown.step e).map fun shutdown =>
            { s with nodes := s.nodes.set i { d with shutdown } }
  | .answers i =>
      match s.nodes[i]? with
      | some ⟨shutdown, none⟩ =>
          (NodeDrain.reply ⟨shutdown, none⟩).map fun b =>
            { s with nodes := s.nodes.set i ⟨shutdown, some b⟩ }.gathered
      | _ => none
  | .flushSettles | .flushTimesOut => if s.telemetry.pending then some s.flushed else none
  | .exits =>
      match s.phase with
      | .flushing clean =>
          if s.telemetry.pending then none
          else some { s with phase := .exited (if clean.all id then 0 else 1) }
      | _ => none

def step (s : ProcessDrain) (e : DrainEvent) : Option ProcessDrain :=
  if s.alive then s.react e else none

end ProcessDrain

end Kaiban
