/-
The gateway's snapshot of the workflow state, and the board that shows it.

Workers and the orchestrator publish deltas.  The gateway merges each one into its
snapshot and passes it on as it came; a board merges what it gets into its own state.  The
two merges are separate functions, and a board that connects gets the snapshot and then
the deltas that follow.

A delta has the fields of its declared type.  Where a function looks at a value again, and
an empty text or a missing one would go another way, that check is kept.  The order of the
names inside one object is the order they were written in.
-/
import Kaiban.Lib.Json
import Kaiban.Lib.OrderedMap

open JsString

namespace Kaiban

/-- The fields of an object. -/
abbrev Fields := OrderedMap JsString Json

/-- A field that is a text. -/
def textField (o : Fields) (k : JsString) : Option JsString :=
  match o.get k with
  | some (.str s) => some s
  | _ => none

/-- `LastStop`, the board's `StopInfo`. -/
structure LastStop where
  commandId : JsString
  issuedAt : Decimal
  issuedBy : JsString
  reason : Option JsString

inductive StopOutcome where
  | applied
  | noop
  | issued
  deriving DecidableEq

/-- `ControlAck`, without the node that sent it. -/
structure ControlAck extends LastStop where
  outcome : StopOutcome

/-- `ControlPlaneState`; it is there only when the control plane is on. -/
structure ControlPlane where
  lastStop : Option LastStop
  /-- Node acknowledgements for `lastStop`. -/
  acks : ℕ

structure StateDelta where
  teamWorkflowStatus : Option JsString
  agents : Option (List Fields)
  tasks : Option (List Fields)
  metadata : Option Fields
  inputs : Option Fields
  control : Option ControlAck
  controlPlane : Option ControlPlane

/-- The statuses a workflow ends with. -/
def terminal (status : JsString) : Bool :=
  status = js "FINISHED" ∨ status = js "STOPPED" ∨ status = js "ERRORED"

/-! ### The gateway -/

structure StateSnapshot where
  teamWorkflowStatus : Option JsString
  agents : OrderedMap JsString Fields
  tasks : OrderedMap JsString Fields
  metadata : Option Fields
  inputs : Option Fields
  controlPlane : Option ControlPlane

namespace StateSnapshot

/-- The snapshot of a new gateway, with the control plane on or off. -/
def initial (control : Bool) : StateSnapshot where
  teamWorkflowStatus := none
  agents := .empty
  tasks := .empty
  metadata := none
  inputs := none
  controlPlane := if control then some ⟨none, 0⟩ else none

/-- `applyStatusUpdate(delta)`: a run that starts anew drops what the old one left. -/
def applyStatusUpdate (s : StateSnapshot) (delta : StateDelta) : StateSnapshot :=
  match delta.teamWorkflowStatus with
  | none => s
  | some newStatus =>
      if newStatus = js "RUNNING" ∧ s.teamWorkflowStatus.any terminal = true then
        { s with
          tasks := .empty
          metadata := none
          inputs := none
          teamWorkflowStatus := some newStatus }
      else { s with teamWorkflowStatus := some newStatus }

/-- One item of `applyMapDelta`. -/
def applyItem (idKey : JsString) (map : OrderedMap JsString Fields) (item : Fields) :
    OrderedMap JsString Fields :=
  match textField item idKey with
  | some id => map.set id (((map.get id).getD .empty).merge item)
  | none => map

/-- `applyMapDelta(delta, field, idKey, map)`. -/
def applyMapDelta (items : Option (List Fields)) (idKey : JsString)
    (map : OrderedMap JsString Fields) : OrderedMap JsString Fields :=
  (items.getD []).foldl (applyItem idKey) map

/-- `stopOfAck(ack)`. -/
def stopOfAck (ack : LastStop) : LastStop :=
  ⟨ack.commandId, ack.issuedAt, ack.issuedBy, ack.reason⟩

/-- A newer stop replaces the last one. -/
def latestStop (plane : ControlPlane) (stop : LastStop) : ControlPlane :=
  match plane.lastStop with
  | none => ⟨some stop, 0⟩
  | some last => if last.issuedAt < stop.issuedAt then ⟨some stop, 0⟩ else plane

/-- `applyControl(delta)`, once there is a control plane and an acknowledgement. -/
def applyAck (plane : ControlPlane) (ack : ControlAck) : ControlPlane :=
  let stop := stopOfAck ack.toLastStop
  let plane := latestStop plane stop
  if some stop.commandId = plane.lastStop.map LastStop.commandId ∧ ack.outcome ≠ .issued then
    { plane with acks := plane.acks + 1 }
  else plane

/-- `applyControl(delta)`. -/
def applyControl (s : StateSnapshot) (delta : StateDelta) : StateSnapshot :=
  match s.controlPlane, delta.control with
  | some plane, some ack => { s with controlPlane := some (applyAck plane ack) }
  | _, _ => s

/-- `{ ...(old ?? {}), ...new }`, if there is a new one. -/
def mergeFields (old new : Option Fields) : Option Fields :=
  match new with
  | none => old
  | some fields => some ((old.getD .empty).merge fields)

/-- `applyToSnapshot(delta)`. -/
def applyToSnapshot (s : StateSnapshot) (delta : StateDelta) : StateSnapshot :=
  let s := (s.applyStatusUpdate delta).applyControl delta
  { s with
    agents := applyMapDelta delta.agents (js "agentId") s.agents
    tasks := applyMapDelta delta.tasks (js "taskId") s.tasks
    metadata := mergeFields s.metadata delta.metadata
    inputs := mergeFields s.inputs delta.inputs }

/-- The values of a map, if it has any. -/
def valuesOf (map : OrderedMap JsString Fields) : Option (List Fields) :=
  if map.entries = [] then none else some (map.entries.map Prod.snd)

/-- `buildSnapshot()`. -/
def buildSnapshot (s : StateSnapshot) : StateDelta where
  teamWorkflowStatus := s.teamWorkflowStatus
  agents := valuesOf s.agents
  tasks := valuesOf s.tasks
  metadata := s.metadata
  inputs := s.inputs
  control := none
  controlPlane := s.controlPlane

/-- `noteStop(cmd)`, with what it broadcasts. -/
def noteStop (s : StateSnapshot) (cmd : LastStop) : StateSnapshot × Option StateDelta :=
  match s.controlPlane with
  | none => (s, none)
  | some plane =>
      if plane.lastStop.any fun last => cmd.issuedAt ≤ last.issuedAt then (s, none)
      else
        let plane : ControlPlane := ⟨some (stopOfAck cmd), 0⟩
        ({ s with controlPlane := some plane },
          some ⟨none, none, none, none, none, none, some plane⟩)

end StateSnapshot

inductive GatewayEvent where
  | delta (d : StateDelta)
  | noteStop (cmd : LastStop)

namespace StateSnapshot

/-- One event: the new snapshot, and what the boards are sent. -/
def step (s : StateSnapshot) : GatewayEvent → StateSnapshot × Option StateDelta
  | .delta d => (s.applyToSnapshot d, some d)
  | .noteStop cmd => s.noteStop cmd

/-- The snapshot after some events. -/
def after (s : StateSnapshot) (es : List GatewayEvent) : StateSnapshot :=
  es.foldl (fun s e => (s.step e).1) s

/-- What the boards are sent during some events. -/
def broadcasts : StateSnapshot → List GatewayEvent → List StateDelta
  | _, [] => []
  | s, e :: es => (s.step e).2.toList ++ broadcasts (s.step e).1 es

end StateSnapshot

/-! ### The board -/

/-- `BoardState`, without the connection, the log and the errors shown. -/
structure Board where
  agents : OrderedMap JsString Fields
  tasks : OrderedMap JsString Fields
  workflowStatus : JsString
  metadata : Option Fields
  topic : JsString
  controlPlane : Option ControlPlane

namespace Board

def initialState : Board where
  agents := .empty
  tasks := .empty
  workflowStatus := js "INITIAL"
  metadata := none
  topic := []
  controlPlane := none

/-- `resetState()`. -/
def resetState (_ : Board) : Board := initialState

/-- A newer stop replaces the last one; an empty reason is left out. -/
def latestStop (plane : ControlPlane) (ack : ControlAck) : ControlPlane :=
  if plane.lastStop.all fun last => last.issuedAt < ack.issuedAt then
    ⟨some ⟨ack.commandId, ack.issuedAt, ack.issuedBy, ack.reason.filter (· ≠ [])⟩, 0⟩
  else plane

/-- `applyControlAck(plane, ack)`. -/
def applyControlAck (plane : ControlPlane) (ack : ControlAck) : ControlPlane :=
  let next := latestStop plane ack
  if ack.outcome ≠ .issued ∧ some ack.commandId = next.lastStop.map LastStop.commandId then
    { next with acks := next.acks + 1 }
  else next

/-- One agent or task of a delta. -/
def applyItem (idKey : JsString) (map : OrderedMap JsString Fields) (item : Fields) :
    OrderedMap JsString Fields :=
  match textField item idKey with
  | none => map
  | some [] => map
  | some (u :: rest) => map.set (u :: rest) (((map.get (u :: rest)).getD .empty).merge item)

def applyItems (items : Option (List Fields)) (idKey : JsString)
    (map : OrderedMap JsString Fields) : OrderedMap JsString Fields :=
  (items.getD []).foldl (applyItem idKey) map

/-- The status of a delta. -/
def applyStatus (b : Board) (delta : StateDelta) : Board :=
  match delta.teamWorkflowStatus with
  | none => b
  | some [] => b
  | some (u :: rest) =>
      if u :: rest = js "RUNNING" ∧ terminal b.workflowStatus = true then
        { b with
          tasks := .empty
          metadata := none
          topic := []
          workflowStatus := u :: rest }
      else { b with workflowStatus := u :: rest }

/-- The topic a delta brings, or else the old one. -/
def topicOf (old : JsString) (inputs : Option Fields) : JsString :=
  match inputs.bind fun fields => textField fields (js "topic") with
  | none => old
  | some [] => old
  | some (u :: rest) => u :: rest

/-- The control plane of a delta, and an acknowledgement on top of it. -/
def applyControl (old : Option ControlPlane) (delta : StateDelta) : Option ControlPlane :=
  let plane := delta.controlPlane.or old
  match delta.control with
  | none => plane
  | some ack => plane.map fun plane => applyControlAck plane ack

/-- `applyDelta(delta)`. -/
def applyDelta (b : Board) (delta : StateDelta) : Board :=
  let next := b.applyStatus delta
  { next with
    topic := topicOf next.topic delta.inputs
    agents := applyItems delta.agents (js "agentId") next.agents
    tasks := applyItems delta.tasks (js "taskId") next.tasks
    metadata := match delta.metadata with
      | none => next.metadata
      | some fields => some ((next.metadata.getD .empty).merge fields)
    controlPlane := applyControl next.controlPlane delta }

/-- A board that resets, gets the snapshot and then what is broadcast during the events. -/
def rejoin (b : Board) (s : StateSnapshot) (es : List GatewayEvent) : Board :=
  (s.broadcasts es).foldl applyDelta (b.resetState.applyDelta s.buildSnapshot)

end Board

end Kaiban
