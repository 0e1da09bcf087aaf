/-
The tool `dispatch_task` of the MCP server.

A call asks the client for consent, unless the server was told not to, and goes on when the
client answers.  Then the task is checked like one that comes in over A2A and put on the
mailbox of its agent.  Calls wait on their own, and nothing bounds how long.

The schema of the tool is checked before, and a tool that is not registered is not called.
-/
import Kaiban.Lib.Steps
import Kaiban.TaskInput

open JsString

namespace Kaiban

/-- `MCP_TOOL_DISPATCH`. -/
def mcpToolDispatch : JsString := js "dispatch_task"

/-- `CONSENT_INSTRUCTION_PREVIEW`. -/
def consentInstructionPreview : ℕ := 200

/-- `McpServerDeps`, with the ids of the gateway's agents. -/
structure McpServerDeps where
  allowTools : Option (List JsString)
  requireDispatchConsent : Option Bool
  agentIds : List JsString

/-- `isAllowed(allow, kind, name)`, of the list of the kind. -/
def isAllowed (list : Option (List JsString)) (name : JsString) : Bool :=
  list.all fun names => name ∈ names

/-- `truncate(text, max)`. -/
def truncatePreview (text : JsString) (max : ℕ) : JsString :=
  if max < text.length then text.take max ++ js "…" else text

/-- What the client is asked. -/
def consentMessage (input : DispatchTaskArgs) : JsString :=
  js "Authorize dispatching a task to agent \"" ++ input.agentId ++ js "\"? Instruction: " ++
    truncatePreview input.instruction consentInstructionPreview

inductive ElicitAction where
  | accept
  | decline
  | cancel
  deriving DecidableEq

def ElicitAction.text : ElicitAction → JsString
  | .accept => js "accept"
  | .decline => js "decline"
  | .cancel => js "cancel"

/-- `ElicitResult`, with the value of `content.confirm`. -/
structure ElicitResult where
  action : ElicitAction
  confirm : Option Json

/-- The reason a dispatch is refused for, if it is. -/
def refusal (r : ElicitResult) : Option JsString :=
  if r.action ≠ .accept then some (js "consent " ++ r.action.text)
  else match r.confirm with
    | some (.bool true) => none
    | _ => some (js "consent form rejected")

/-- The result of the tool. -/
inductive McpDispatchAnswer where
  | refused (reason : JsString)
  | dispatched (taskId status : JsString)
  /-- The handler rejects with an error of this message. -/
  | failed (message : JsString)

inductive McpDispatchPhase where
  /-- The client is asked. -/
  | asking
  /-- The message is being put on the mailbox. -/
  | publishing
  | answered (a : McpDispatchAnswer)

structure McpDispatchCall where
  input : DispatchTaskArgs
  phase : McpDispatchPhase
  -- history: what the client was asked and what it answered
  asked : Option JsString
  reply : Option ElicitResult

/-- A message to the mailbox of an agent, and the call it is of. -/
structure McpDispatch where
  call : ℕ
  taskId : JsString
  agentId : JsString
  data : MessageData

structure McpServer where
  calls : ℕ → Option McpDispatchCall
  -- history
  mailbox : List McpDispatch

inductive McpServerEvent where
  /-- The tool is called by a client that supports elicitation, or does not. -/
  | call (k : ℕ) (input : DispatchTaskArgs) (elicitation : Bool)
  | elicited (k : ℕ) (r : ElicitResult)
  | elicitFails (k : ℕ) (message : JsString)
  | published (k : ℕ)
  | publishFails (k : ℕ) (message : JsString)

namespace McpServer

-- `randomUUID()` of a call
variable (deps : McpServerDeps) (uuid : ℕ → JsString)

def init : McpServer := ⟨fun _ => none, []⟩

def setCall (s : McpServer) (k : ℕ) (c : McpDispatchCall) : McpServer :=
  { s with calls := fun x => if x = k then some c else s.calls x }

def answer (s : McpServer) (k : ℕ) (c : McpDispatchCall) (a : McpDispatchAnswer) : McpServer :=
  s.setCall k { c with phase := .answered a }

/-- The task of a call goes out, or is found to be invalid. -/
def dispatch (s : McpServer) (k : ℕ) (c : McpDispatchCall) : McpServer :=
  match dispatchTask c.input deps.agentIds with
  | .error message => s.answer k c (.failed message)
  | .ok (agentId, data) =>
      { s.setCall k { c with phase := .publishing } with
        mailbox := s.mailbox ++ [⟨k, uuid k, agentId, data⟩] }

/-- `handleDispatch(server, deps, input)`, up to the first wait. -/
def handleDispatch (s : McpServer) (k : ℕ) (input : DispatchTaskArgs) (elicitation : Bool) :
    McpServer :=
  if deps.requireDispatchConsent ≠ some false then
    if elicitation then s.setCall k ⟨input, .asking, some (consentMessage input), none⟩
    else s.answer k ⟨input, .asking, none, none⟩ (.refused (js
      "client does not support elicitation (consent) — refusing dispatch (fail-closed)"))
  else s.dispatch deps uuid k ⟨input, .asking, none, none⟩

/-- The tool is registered and the schema takes the input. -/
def accepts (input : DispatchTaskArgs) : Bool :=
  isAllowed deps.allowTools mcpToolDispatch && input.agentId ≠ [] && input.instruction ≠ []

def step (s : McpServer) : McpServerEvent → Option McpServer
  | .call k input elicitation =>
      match s.calls k with
      | none =>
          if accepts deps input then some (s.handleDispatch deps uuid k input elicitation) else none
      | some _ => none
  | .elicited k r =>
      match s.calls k with
      | some c =>
          match c.phase with
          | .asking =>
              let c := { c with reply := some r }
              match refusal r with
              | some reason => some (s.answer k c (.refused reason))
              | none => some (s.dispatch deps uuid k c)
          | _ => none
      | none => none
  | .elicitFails k message =>
      match s.calls k with
      | some c =>
          match c.phase with
          | .asking => some (s.answer k c (.failed message))
          | _ => none
      | none => none
  | .published k =>
      match s.calls k with
      | some c =>
          match c.phase with
          | .publishing => some (s.answer k c (.dispatched (uuid k) (js "submitted")))
          | _ => none
      | none => none
  | .publishFails k message =>
      match s.calls k with
      | some c =>
          match c.phase with
          | .publishing => some (s.answer k c (.failed message))
          | _ => none
      | none => none

end McpServer

end Kaiban
