/-
What the board is told of a KaibanJS team, by watching the team's store.

The store calls its listeners on every change, with the state before it.  The parts that
changed are made into a delta, which goes out on the state channel, and the gateway merges
it into its snapshot.  A message of the channel may be lost, and other publishers use the
channel too.

The store never changes an array in place: a part has changed when it is another array.
-/
import Kaiban.Board
import Kaiban.Lib.Number
import Kaiban.Lib.Steps
import Kaiban.Orchestrator

open JsString

namespace Kaiban

/-! ### The store -/

/-- An array of the store, and which one it is. -/
structure StoreArray (α : Type) where
  ref : ℕ
  items : List α

structure KaibanAgentLike where
  id : Option Json
  name : Option Json
  role : Option Json
  status : Option Json

structure KaibanTaskLike where
  id : Option Json
  title : Option Json
  status : Option Json
  result : Option Json
  /-- `agent?.id`. -/
  agentId : Option Json

structure KaibanStoreState where
  teamWorkflowStatus : Option JsString
  agents : Option (StoreArray KaibanAgentLike)
  tasks : Option (StoreArray KaibanTaskLike)

/-! ### The delta of a change -/

/-- `MAX_RESULT_CHARS`. -/
def maxResultChars : ℕ := 20000

/-- `String(value ?? fallback)`, or none when it throws. -/
def textOr (value : Option Json) (fallback : JsString) : Option JsString :=
  match value with
  | none | some .null => some fallback
  | some v => Json.toText v

/-- `String(status)`, or none when it throws. -/
def statusText : Option Json → Option JsString
  | none => some (js "undefined")
  | some v => Json.toText v

/-- `boardAgentStatus(status)`, of the text of the status. -/
def boardAgentStatus (s : JsString) : JsString :=
  if js "ISSUES" <+: s ∨ js "ERROR" <:+: s then js "ERROR"
  else if js "THINKING" <+: s ∧ s ≠ js "THINKING_END" then js "THINKING"
  else if js "EXECUTING" <+: s ∨ s = js "USING_TOOL" then js "EXECUTING"
  else js "IDLE"

/-- `BOARD_TASK_STATUS`. -/
def boardTaskStatuses : List (JsString × JsString) :=
  [(js "TODO", js "TODO"), (js "DOING", js "DOING"), (js "DONE", js "DONE"),
    (js "BLOCKED", js "BLOCKED"), (js "AWAITING_VALIDATION", js "AWAITING_VALIDATION"),
    (js "VALIDATED", js "DONE"), (js "REVISE", js "DOING")]

/-- `BOARD_TASK_STATUS[s] ?? "TODO"`, as a field.  What an inherited name finds is a function,
which JSON leaves out, or the prototype. -/
def taskStatusField (s : JsString) : List (JsString × Json) :=
  match boardTaskStatuses.lookup s with
  | some status => [(js "status", .str status)]
  | none =>
      if s = js "__proto__" then [(js "status", .obj [])]
      else if s ∈ inheritedNames then []
      else [(js "status", .str (js "TODO"))]

/-- `boardResult(result)`. -/
def boardResult : Option Json → Option JsString
  | none | some .null => none
  | some (.str s) => some (s.take maxResultChars)
  | some v => some ((Json.stringify v).take maxResultChars)

def fieldsOf (ms : List (JsString × Json)) : Fields := OrderedMap.empty.setAll ms

/-- The items whose id is a text, with it. -/
def identified {α : Type} (id : α → Option Json) (items : List α) : List (JsString × α) :=
  items.filterMap fun a =>
    match id a with
    | some (.str s) => some (s, a)
    | _ => none

def boardAgent (m : JsString × KaibanAgentLike) : Option Fields := do
  let name ← textOr m.2.name m.1
  let role ← textOr m.2.role []
  let status ← statusText m.2.status
  return fieldsOf [(js "agentId", .str m.1), (js "name", .str name), (js "role", .str role),
    (js "status", .str (boardAgentStatus status)), (js "currentTaskId", .null)]

/-- `boardAgents(agents)`, or none when it throws. -/
def boardAgents (agents : List KaibanAgentLike) : Option (List Fields) :=
  (identified KaibanAgentLike.id agents).mapM boardAgent

def boardTask (m : JsString × KaibanTaskLike) : Option Fields := do
  let title ← textOr m.2.title m.1
  let status ← statusText m.2.status
  let agentId ← textOr m.2.agentId []
  return fieldsOf ([(js "taskId", .str m.1), (js "title", .str title)] ++ taskStatusField status ++
    [(js "assignedToAgentId", .str agentId)] ++
    ((boardResult m.2.result).map fun s => (js "result", Json.str s)).toList)

/-- `boardTasks(tasks)`, or none when it throws. -/
def boardTasks (tasks : List KaibanTaskLike) : Option (List Fields) :=
  (identified KaibanTaskLike.id tasks).mapM boardTask

/-- An array of the state that is not the one before. -/
def changedArray {α : Type} (state prev : Option (StoreArray α)) : Option (List α) :=
  if state.map StoreArray.ref = prev.map StoreArray.ref then none
  else state.map StoreArray.items

/-- The delta's part of an array that changed, or none when it throws. -/
def changedPart {α : Type} (board : List α → Option (List Fields))
    (state prev : Option (StoreArray α)) : Option (Option (List Fields)) :=
  match changedArray state prev with
  | none => some none
  | some items => (board items).map some

/-- `toBoardDelta(state, prev)`, or none when it throws. -/
def toBoardDelta (state prev : KaibanStoreState) : Option StateDelta := do
  let agents ← changedPart boardAgents state.agents prev.agents
  let tasks ← changedPart boardTasks state.tasks prev.tasks
  return {
    teamWorkflowStatus :=
      if state.teamWorkflowStatus = prev.teamWorkflowStatus then none
      else state.teamWorkflowStatus
    agents
    tasks
    metadata := none
    inputs := none
    control := none
    controlPlane := none }

/-- `Object.keys(delta).length === 0`, of a delta of the store. -/
def StateDelta.nothing (d : StateDelta) : Bool :=
  d.teamWorkflowStatus.isNone && d.agents.isNone && d.tasks.isNone

/-! ### The store, the channel and the gateway -/

structure StoreMirror where
  store : KaibanStoreState
  /-- What the middleware has published and the channel has not delivered. -/
  inFlight : List StateDelta
  snapshot : StateSnapshot
  -- history: the last agents the gateway was told of by the store, and the last tasks, unless
  -- a run has started anew since
  agentsTold : Option (List Fields)
  tasksTold : Option (List Fields)

inductive MirrorEvent where
  | change (state : KaibanStoreState)
  /-- The oldest message of the store reaches the gateway, or is lost. -/
  | arrives
  | lost
  /-- A delta of another publisher reaches the gateway. -/
  | other (d : StateDelta)

/-- A delta with which a new run begins. -/
def StateSnapshot.restarts (s : StateSnapshot) (d : StateDelta) : Bool :=
  d.teamWorkflowStatus = some (js "RUNNING") && s.teamWorkflowStatus.any terminal

namespace StoreMirror

def init (store : KaibanStoreState) (control : Bool) : StoreMirror :=
  ⟨store, [], .initial control, none, none⟩

/-- A delta reaches the gateway. -/
def delivered (s : StoreMirror) (d : StateDelta) (agents tasks : Option (List Fields)) :
    StoreMirror :=
  { s with
    snapshot := s.snapshot.applyToSnapshot d
    agentsTold := agents.or s.agentsTold
    tasksTold := tasks.or (if s.snapshot.restarts d then none else s.tasksTold) }

def step (s : StoreMirror) : MirrorEvent → Option StoreMirror
  | .change state =>
      match toBoardDelta state s.store with
      -- the listener throws: the store has changed and nothing is published
      | none => some { s with store := state }
      | some d =>
          some { s with
            store := state
            inFlight := if d.nothing then s.inFlight else s.inFlight ++ [d] }
  | .arrives =>
      match s.inFlight with
      | [] => none
      | d :: rest => some ({ s with inFlight := rest }.delivered d d.agents d.tasks)
  | .lost =>
      match s.inFlight with
      | [] => none
      | _ :: rest => some { s with inFlight := rest }
  | .other d => some (s.delivered d none none)

end StoreMirror

end Kaiban
