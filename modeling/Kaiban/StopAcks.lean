/-
What a worker reports of the emergency stops it handles, and the gateway of those it issues.

Each command goes to the actor at its moment, and the number of attempts the actor says it
aborted goes out with the acknowledgement.  The actor counts the entries of `inFlight`, and
an entry stays there until its own continuation has run, so the count depends on what
happens between two commands.  The attempts whose race a command decided are kept as a
history beside it.
-/
import Kaiban.Actor
import Kaiban.Board
import Kaiban.Control

open JsString

namespace Kaiban

/-- What `attachEmergencyStop` is given, without the actor. -/
structure StopNodeConfig where
  hasPublisher : Bool
  nodeId : JsString
  agentId : JsString

inductive StopSource where
  | live
  | saved
  deriving DecidableEq

/-- An acknowledgement as it is sent: an empty reason is left out. -/
structure SentAck extends ControlAck where
  reason_sent : reason ≠ some []

/-- The reason of a command as an acknowledgement carries it. -/
def sentReason (cmd : StopAllCommand) : Option JsString := cmd.reason.filter (· ≠ [])

theorem sentReason_ne (cmd : StopAllCommand) : sentReason cmd ≠ some [] := by
  intro h
  obtain ⟨-, hne⟩ := Option.filter_eq_some_iff.mp h
  exact absurd hne (by simp)

/-- An acknowledgement of a node, without its time. -/
structure NodeAck extends SentAck where
  nodeId : JsString
  agentId : JsString
  aborted : ℕ

namespace Actor

/-- The attempt of a delivery whose race was open in `s` and is decided in `s'`. -/
def decided (s s' : Actor) (d : ℕ) : Option (ℕ × ℕ) :=
  match (s.deliveries d).map Delivery.stage, (s'.deliveries d).map Delivery.stage with
  | some (.running k none), some (.running _ (some _)) => some (d, k)
  | _, _ => none

/-- The attempts an emergency stop aborts: an attempt is a delivery and its number. -/
def killedBy (s : Actor) (stoppedAt : Decimal) : List (ℕ × ℕ) :=
  s.inFlight.filterMap (decided s (s.emergencyStop stoppedAt).1)

end Actor

structure StopNode where
  actor : Actor
  /-- What the actor answered to each command. -/
  results : List EmergencyStopResult
  acks : List NodeAck
  -- history: the attempts each command aborted
  killed : List (List (ℕ × ℕ))

def StopNode.init : StopNode := ⟨.init, [], [], []⟩

inductive StopNodeEvent where
  | onStop (cmd : StopAllCommand) (source : StopSource)
  | actor (e : ActorEvent)

namespace StopNode

/-- The acknowledgement of a command. -/
def ackOf (nc : StopNodeConfig) (cmd : StopAllCommand) (result : EmergencyStopResult) :
    NodeAck where
  commandId := cmd.commandId
  issuedAt := .ofInt cmd.issuedAt
  issuedBy := cmd.issuedBy
  reason := sentReason cmd
  outcome := if result.applied then .applied else .noop
  reason_sent := sentReason_ne cmd
  nodeId := nc.nodeId
  agentId := nc.agentId
  aborted := result.aborted

/-- `onStop(cmd, source)`. -/
def onStop (nc : StopNodeConfig) (s : StopNode) (cmd : StopAllCommand) (source : StopSource) :
    StopNode :=
  let (actor, result) := s.actor.emergencyStop (.ofInt cmd.issuedAt)
  { actor := actor
    results := s.results ++ [result]
    acks :=
      if source = .saved ∧ result.aborted = 0 then s.acks
      else if nc.hasPublisher then s.acks ++ [ackOf nc cmd result]
      else s.acks
    killed := s.killed ++ [s.actor.killedBy (.ofInt cmd.issuedAt)] }

def step (cfg : ActorConfig) (nc : StopNodeConfig) (s : StopNode) :
    StopNodeEvent → Option StopNode
  | .onStop cmd source => some (s.onStop nc cmd source)
  | .actor (.emergencyStop _) => none
  | .actor e => (s.actor.step cfg e).map fun a => { s with actor := a }

end StopNode

end Kaiban
