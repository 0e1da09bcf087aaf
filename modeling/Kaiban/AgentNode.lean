/-
A node that runs one agent: the actor, with the publisher's wrapper as its handler.

The actor calls the wrapper for each attempt and ends the attempt by its own race; the
wrapper ends when the handler inside settles.  The two meet in three places: the call of
the wrapper, the signal of the attempt, and the hook for emergency stops.  Everything
else they do on their own.
-/
import Kaiban.Lib.Steps
import Kaiban.Publisher

open JsString

namespace Kaiban

/-- The node wires the hook of the actor to `publishStopped`. -/
structure AgentNodeConfig where
  actor : ActorConfig
  publisher : PublisherConfig
  wired : actor.hasStopHook = true

structure AgentNode where
  actor : Actor
  publisher : AgentStatePublisher
  /-- The delivery and the attempt the wrapper was called for. -/
  owner : ℕ → Option (ℕ × ℕ)

inductive NodeEvent where
  | deliver (d : ℕ) (p : Payload) (breakerOpen : Bool)
  /-- A reaction of the actor, other than the end of a handler. -/
  | act (d : ℕ) (a : Act)
  /-- The handler inside the wrapper settles. -/
  | settles (attempt : ℕ) (out : HandlerOutcome)
  | emergencyStop (stoppedAt : Decimal)
  | stop
  | publishIdle
  | heartbeat

def Call.isStopHook : Call → Bool
  | .onEmergencyStop => true
  | _ => false

namespace AgentNode

def init : AgentNode := ⟨.init, .init, fun _ => none⟩

variable (cfg : AgentNodeConfig)

/-- The attempt of a delivery whose race is open or decided. -/
def runningAttempt (actor : Actor) (d : ℕ) : Option ℕ :=
  match (actor.deliveries d).map Delivery.stage with
  | some (.running k _) => some k
  | _ => none

/-- The wrapper's attempts that run for one of the deliveries. -/
def attemptsOf (n : AgentNode) (owns : ℕ → Bool) : List ℕ :=
  (List.range (n.publisher.attemptSeq + 1)).filter fun i =>
    (n.owner i).any fun (d, k) => owns d && runningAttempt n.actor d = some k

/-- The signals of the attempts are aborted. -/
def abortAttempts (n : AgentNode) (owns : ℕ → Bool) (reason : NonRetryableError) :
    Option AgentStatePublisher :=
  Steps.run (AgentStatePublisher.step cfg.publisher) n.publisher
    ((n.attemptsOf owns).map fun i => .abort i reason)

/-- The wrapper's promise settles, and the race of the attempt sees it. -/
def settleRace (n : AgentNode) (d k : ℕ) (out : Outcome) : Option AgentNode :=
  (n.actor.step cfg.actor (.act d (.settles k out))).map fun actor => { n with actor := actor }

/-- The actor calls the wrapper.  A title that throws rejects it before it has a number. -/
def invoke (n : AgentNode) (d k : ℕ) (p : Payload) : Option AgentNode :=
  match taskTitle p with
  | none => n.settleRace cfg d k (.threw conversionError)
  | some title =>
      let publisher := n.publisher.invoked cfg.publisher p title
      let i := publisher.attemptSeq
      let n : AgentNode :=
        { n with
          publisher := publisher
          owner := fun x => if x = i then some (d, k) else n.owner x }
      match (publisher.attempts i).bind Attempt.ended with
      | none => some n
      | some out => n.settleRace cfg d k out

/-- The payload the hook for emergency stops was called with, if it was. -/
def hooked (before after : Actor) (d : ℕ) : Option Payload :=
  match before.deliveries d, after.deliveries d with
  | some del, some del' =>
      if (del'.calls.drop del.calls.length).any Call.isStopHook then some del'.payload else none
  | _, _ => none

/-- A reaction of the actor, and what it calls on the publisher. -/
def react (n : AgentNode) (d : ℕ) (a : Act) : Option AgentNode :=
  (n.actor.step cfg.actor (.act d a)).bind fun actor =>
    match a with
    | .settles _ _ => none
    | .start =>
        match actor.deliveries d with
        | some ⟨p, .running k none, _⟩ => { n with actor := actor }.invoke cfg d k p
        | _ => some { n with actor := actor }
    | .timer =>
        (n.abortAttempts cfg (fun x => x = d) (timeoutError cfg.actor)).map fun publisher =>
          { n with actor := actor, publisher := publisher }
    | .published _ =>
        match hooked n.actor actor d with
        | none => some { n with actor := actor }
        | some p =>
            some { n with
              actor := actor
              publisher := n.publisher.publishStopped cfg.publisher p }
    | _ => some { n with actor := actor }

/-- The deliveries an emergency stop aborts. -/
def stoppedBy (n : AgentNode) (stoppedAt : Decimal) (d : ℕ) : Bool :=
  (n.actor.emergencyStop stoppedAt).2.applied &&
    (n.actor.deliveries d).any
      (n.actor.stopped { n.actor.signals with stoppedAt := some stoppedAt } d)

def step (n : AgentNode) : NodeEvent → Option AgentNode
  | .deliver d p breakerOpen =>
      (n.actor.step cfg.actor (.deliver d p breakerOpen)).map fun actor =>
        { n with actor := actor }
  | .act d a => n.react cfg d a
  | .settles i out =>
      (n.publisher.step cfg.publisher (.settles i out)).bind fun publisher =>
        match n.owner i, (publisher.attempts i).bind Attempt.ended with
        | some (d, k), some outcome => { n with publisher := publisher }.settleRace cfg d k outcome
        | _, _ => none
  | .emergencyStop t =>
      (n.abortAttempts cfg (n.stoppedBy t) emergencyStopError).map fun publisher =>
        { n with actor := (n.actor.emergencyStop t).1, publisher := publisher }
  | .stop =>
      (n.abortAttempts cfg (fun d => d ∈ n.actor.inFlight) stoppedError).map fun publisher =>
        { n with actor := n.actor.stop, publisher := publisher }
  | .publishIdle => some { n with publisher := n.publisher.publishIdle cfg.publisher }
  | .heartbeat => some { n with publisher := n.publisher.heartbeat cfg.publisher }

end AgentNode

end Kaiban
