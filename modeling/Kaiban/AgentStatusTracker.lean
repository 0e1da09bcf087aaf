/-
The last known status of each agent, kept off the state channel.

The tracker reads the same deltas as the gateway's snapshot.  It keeps one status for each
agent and takes anything it does not know for `IDLE`.
-/
import Kaiban.Board
import Kaiban.Publisher

open JsString

namespace Kaiban

/-- `VALID_STATUSES`. -/
def AgentStatus.ofText (s : JsString) : Option AgentStatus :=
  if s = js "IDLE" then some .idle
  else if s = js "THINKING" then some .thinking
  else if s = js "EXECUTING" then some .executing
  else if s = js "ERROR" then some .error
  else none

def AgentStatus.text : AgentStatus → JsString
  | .idle => js "IDLE"
  | .thinking => js "THINKING"
  | .executing => js "EXECUTING"
  | .error => js "ERROR"

/-- `DEFAULT_STATUS`. -/
def defaultStatus : AgentStatus := .idle

/-- The status a text is taken for. -/
def knownStatus (s : JsString) : AgentStatus := (AgentStatus.ofText s).getD defaultStatus

structure AgentStatusTracker where
  statuses : OrderedMap JsString AgentStatus

namespace AgentStatusTracker

def init : AgentStatusTracker := ⟨.empty⟩

/-- `recordAgent(entry)`. -/
def recordAgent (t : AgentStatusTracker) (entry : Json) : AgentStatusTracker :=
  match entry with
  | .obj rec =>
      match Json.get rec (js "agentId"), Json.get rec (js "status") with
      | some (.str agentId), some (.str status) => ⟨t.statuses.set agentId (knownStatus status)⟩
      | _, _ => t
  | _ => t

/-- `onMessage(channel, message)` on the state channel, of what `unwrapVerified` gives. -/
def onMessage (t : AgentStatusTracker) (delta : Option Json) : AgentStatusTracker :=
  match delta with
  | some (.obj ms) =>
      match Json.get ms (js "agents") with
      | some (.arr agents) => agents.foldl recordAgent t
      | _ => t
  | _ => t

/-- `getStatus(agentId)`. -/
def getStatus (t : AgentStatusTracker) (agentId : JsString) : AgentStatus :=
  (t.statuses.get agentId).getD defaultStatus

/-- `hasSeen(agentId)`. -/
def hasSeen (t : AgentStatusTracker) (agentId : JsString) : Bool :=
  (t.statuses.get agentId).isSome

/-- One event of the gateway, with the message of a delta. -/
def onEvent (message : StateDelta → Json) (t : AgentStatusTracker) :
    GatewayEvent → AgentStatusTracker
  | .delta d => t.onMessage (some (message d))
  | .noteStop _ => t

/-- The tracker after the messages of some events of the gateway. -/
def after (message : StateDelta → Json) (es : List GatewayEvent) : AgentStatusTracker :=
  es.foldl (onEvent message) init

end AgentStatusTracker

end Kaiban
