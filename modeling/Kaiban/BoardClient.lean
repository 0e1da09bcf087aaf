/-
A board in the browser: its connection, what it shows, and the requests of its operator.

One reaction of the page is one event.  A request waits for its answer under a timer of
eight seconds; the answer may come after the timer, and then it is reported as well.  The
alert beside the STOP ALL button and the event log are written by the reactions alone.

The time of a log entry is left out.  The fields of a delta have their declared types, so
`textField` reads them.
-/
import Kaiban.Board
import Kaiban.Hitl
import Kaiban.Lib.Number

open JsString

namespace Kaiban

/-- A text with characters of any plane. -/
def symbols (s : String) : JsString := ofPoints (s.toList.map Char.toNat)

/-- `MAX_LOG_ENTRIES`. -/
def maxLogEntries : ℕ := 200

/-- `ACK_TIMEOUT_MS / 1000`. -/
def ackTimeoutSeconds : ℕ := 8

inductive ConnectionStatus where
  | connecting
  | live
  | disconnected
  | error
  deriving DecidableEq

def ConnectionStatus.name : ConnectionStatus → JsString
  | .connecting => js "connecting"
  | .live => js "live"
  | .disconnected => js "disconnected"
  | .error => js "error"

/-! ### The event log -/

/-- What is written to the log. -/
structure LogLine where
  type : JsString
  message : JsString
  highlight : Bool
  deriving DecidableEq

/-- `LogEntry`, without its time. -/
structure LogEntry where
  id : ℕ
  line : LogLine
  deriving DecidableEq

/-- A delta with what the log reads of its acknowledgement besides. -/
structure BoardDelta where
  delta : StateDelta
  nodeId : JsString
  agentId : Option JsString
  aborted : Decimal

/-- A field between the others of a message. -/
def shown (o : Fields) (k : JsString) : JsString :=
  match o.get k with
  | some (.str s) => s
  | some .null => js "null"
  | _ => js "undefined"

/-- A field that is a text with something in it. -/
def filledField (o : Fields) (k : JsString) : Option JsString := (textField o k).filter (· ≠ [])

/-- `===` of two fields that are texts, `null` or missing. -/
def sameField (a b : Fields) (k : JsString) : Bool :=
  match a.get k, b.get k with
  | none, none => true
  | some .null, some .null => true
  | some (.str x), some (.str y) => x = y
  | _, _ => false

/-- `slice(-8)`. -/
def shortId (s : JsString) : JsString := s.drop (s.length - 8)

def dash : JsString := symbols " — "

/-- `AGENT_ICONS[status] ?? …`. -/
def agentIcon (status : JsString) : JsString :=
  if status = js "IDLE" then symbols "⚪"
  else if status = js "EXECUTING" then symbols "🟢"
  else if status = js "THINKING" then symbols "🔵"
  else if status = js "ERROR" then symbols "🔴"
  else symbols "⬡"

/-- `TASK_ICONS[status] ?? …`. -/
def taskIcon (status : JsString) : JsString :=
  if status = js "DOING" then symbols "🔵"
  else if status = js "DONE" then symbols "✅"
  else if status = js "BLOCKED" then symbols "🔴"
  else if status = js "AWAITING_VALIDATION" then symbols "⏸"
  else if status = js "STOPPED" then symbols "⏹"
  else symbols "📋"

/-- `controlMessage(ack)`. -/
def controlMessage (d : BoardDelta) (ack : ControlAck) : JsString :=
  match ack.outcome with
  | .issued =>
      symbols "🛑 STOP ALL issued by " ++ ack.issuedBy ++
        ((ack.reason.filter (· ≠ [])).map (dash ++ ·)).getD []
  | outcome =>
      let who := match d.agentId.filter (· ≠ []) with
        | some agentId => agentId ++ js " on " ++ d.nodeId
        | none => d.nodeId
      symbols "🛑 " ++ who ++ js ": " ++
        (if outcome = .applied then js "applied" else js "noop") ++ js ", " ++
        NumberText.numberText d.aborted ++ js " task(s) killed"

/-- `connectionMessage(status, detail)`. -/
def connectionMessage (status : ConnectionStatus) (detail : JsString) : JsString :=
  let base := match status with
    | .live => js "Connected to gateway"
    | .disconnected => js "Disconnected"
    | status => status.name
  if detail = [] then base else base ++ js ": " ++ detail

/-- The line of an agent, unless the delta repeats what is shown of it. -/
def agentLine (agents : OrderedMap JsString Fields) (a : Fields) : Option LogLine :=
  let before := (textField a (js "agentId")).bind agents.get
  if before.any fun b => sameField b a (js "status") && sameField b a (js "currentTaskId") then none
  else
    let status := shown a (js "status")
    let name := (filledField a (js "name")).getD (shown a (js "agentId"))
    let taskRef := match filledField a (js "currentTaskId") with
      | some task => js " [" ++ shortId task ++ js "]"
      | none => []
    some (if status = js "THINKING" then
      ⟨js "LLM", symbols "🔵 " ++ name ++ symbols " — LLM call in progress" ++ taskRef, false⟩
    else
      ⟨js "AGENT", agentIcon status ++ js " " ++ name ++ symbols " → " ++ status ++ taskRef,
        status = js "EXECUTING" || status = js "ERROR"⟩)

/-- The line of a task; without a title and an id, reading them throws. -/
def taskLine (t : Fields) : Option LogLine :=
  ((filledField t (js "title")).or (textField t (js "taskId"))).map fun name =>
    let status := shown t (js "status")
    let preview := match filledField t (js "result") with
      | some result => dash ++ result.take 60
      | none => []
    ⟨js "TASK", taskIcon status ++ js " " ++ name.take 50 ++ symbols " → " ++ status ++ preview,
      status ∈ ["DONE", "BLOCKED", "AWAITING_VALIDATION", "STOPPED"].map js⟩

/-- The lines before those of the tasks. -/
def stateLines (agents : OrderedMap JsString Fields) (d : BoardDelta) : List LogLine :=
  ((d.delta.teamWorkflowStatus.filter (· ≠ [])).map fun status =>
    ⟨js "WORKFLOW", symbols "Status → " ++ status, true⟩).toList
  ++ (d.delta.agents.getD []).filterMap (agentLine agents)
  ++ (d.delta.control.map fun ack => ⟨js "CONTROL", controlMessage d ack, true⟩).toList

/-- The lines of the tasks, as far as they can be made. -/
def taskLines (d : BoardDelta) : List LogLine :=
  (((d.delta.tasks.getD []).map taskLine).takeWhile Option.isSome).filterMap id

/-- A task of the delta has no line. -/
def BoardDelta.throws (d : BoardDelta) : Bool :=
  (d.delta.tasks.getD []).any fun t => (taskLine t).isNone

/-! ### Requests to the gateway -/

inductive BoardRequest where
  | decision (taskId : JsString) (decision : HitlDecision)
  | stopAll (reason : Option JsString)
  deriving DecidableEq

def BoardRequest.isStopAll : BoardRequest → Bool
  | .stopAll _ => true
  | .decision _ _ => false

inductive AckTimer where
  | set
  | cleared
  | fired
  deriving DecidableEq

/-- The gateway's answer. -/
structure BoardReply where
  ok : Bool
  error : Option JsString
  commandId : Option JsString
  deriving DecidableEq

structure SentRequest where
  request : BoardRequest
  timer : AckTimer
  /-- What the callback was called with, once it was. -/
  reply : Option (Option BoardReply)
  deriving DecidableEq

/-- `BoardState`, and the closures of `socketClient`. -/
structure BoardClient where
  /-- `socket.connected`. -/
  connected : Bool
  board : Board
  connectionStatus : ConnectionStatus
  connectionDetail : JsString
  log : List LogEntry
  logIdCounter : ℕ
  controlError : Option JsString
  requests : List SentRequest

namespace BoardClient

def init : BoardClient where
  connected := false
  board := .initialState
  connectionStatus := .connecting
  connectionDetail := []
  log := []
  logIdCounter := 0
  controlError := none
  requests := []

/-! ### The store -/

/-- Entries for some lines, the first of them with the next id. -/
def entries (counter : ℕ) (lines : List LogLine) : List LogEntry :=
  lines.zipIdx.map fun m => ⟨counter + m.2 + 1, m.1⟩

/-- New entries before the old ones, at most `MAX_LOG_ENTRIES` in all. -/
def addEntries (s : BoardClient) (lines : List LogLine) : BoardClient :=
  { s with
    log := if lines = [] then s.log
      else (entries s.logIdCounter lines ++ s.log).take maxLogEntries
    logIdCounter := s.logIdCounter + lines.length }

/-- `applyDelta(delta)`.  A throw leaves the state, but ids were given out, one of them to the
line that threw. -/
def applyDelta (s : BoardClient) (d : BoardDelta) : BoardClient :=
  let lines := stateLines s.board.agents d ++ taskLines d
  if d.throws then { s with logIdCounter := s.logIdCounter + lines.length + 1 }
  else { s.addEntries lines with board := s.board.applyDelta d.delta }

/-- `setConnectionStatus(status, detail)`. -/
def setConnectionStatus (s : BoardClient) (status : ConnectionStatus) (detail : JsString) :
    BoardClient :=
  let type := match status with
    | .live => js "CONNECT"
    | .disconnected => js "DISCONNECT"
    | .error => js "ERROR"
    | .connecting => js "STATUS"
  { s.addEntries [⟨type, connectionMessage status detail, status = .live⟩] with
    connectionStatus := status
    connectionDetail := detail }

/-- `setControlError(message)`. -/
def setControlError (s : BoardClient) (message : Option JsString) : BoardClient :=
  { s with controlError := message }

/-- `addLog(type, message, highlight)`. -/
def addLog (s : BoardClient) (type message : JsString) (highlight : Bool) : BoardClient :=
  s.addEntries [⟨type, message, highlight⟩]

/-- `resetState()`. -/
def resetState (s : BoardClient) : BoardClient :=
  { s with board := s.board.resetState, controlError := none }

/-! ### The socket -/

/-- `reportControlError(message)`. -/
def reportControlError (s : BoardClient) (message : JsString) : BoardClient :=
  (s.addLog (js "ERROR") message true).setControlError (some message)

/-- `socket.emit(…)`, with the timer that was set before. -/
def emit (s : BoardClient) (request : BoardRequest) : BoardClient :=
  { s with requests := s.requests ++ [⟨request, .set, none⟩] }

/-- `sendHitlDecision(taskId, decision)`. -/
def sendHitlDecision (s : BoardClient) (taskId : JsString) (decision : HitlDecision) :
    BoardClient :=
  if s.connected then
    (s.addLog (js "HITL") (js "Sending decision: " ++ decision.word ++ js " for task " ++
      shortId taskId ++ symbols "…") false).emit (.decision taskId decision)
  else
    s.addLog (js "ERROR") (symbols "Cannot send decision — not connected to gateway (" ++
      decision.word ++ js ")") true

/-- The alert of a STOP ALL without a connection. -/
def notConnected : JsString :=
  symbols "Cannot send STOP ALL — not connected to gateway (run npm run stop-all instead)"

/-- The alert of a STOP ALL whose timer fired. -/
def notConfirmed : JsString :=
  js "STOP ALL not confirmed by the gateway within " ++
    NumberText.numberText (Decimal.ofInt ackTimeoutSeconds) ++
    symbols "s — check the gateway, or run npm run stop-all"

/-- `sendStopAll(reason)`. -/
def sendStopAll (s : BoardClient) (reason : Option JsString) : BoardClient :=
  let s := s.setControlError none
  if s.connected then
    (s.addLog (js "CONTROL") (symbols "Sending STOP ALL…") true).emit (.stopAll reason)
  else s.reportControlError notConnected

/-- The data of the event of a STOP ALL. -/
def stopAllData (reason : Option JsString) : List (JsString × Json) :=
  match reason.filter (· ≠ []) with
  | some reason => [(js "reason", .str reason)]
  | none => []

/-- `response?.error ?? 'gateway error'`. -/
def replyError (reply : Option BoardReply) : JsString :=
  (reply.bind BoardReply.error).getD (js "gateway error")

/-- The alert of a STOP ALL that the gateway refused. -/
def stopRefused (reply : Option BoardReply) : JsString :=
  js "STOP ALL refused: " ++ replyError reply

/-- `response?.ok`. -/
def confirmed (reply : Option BoardReply) : Bool := reply.any BoardReply.ok

/-- The callback of a request, called with an answer. -/
def replied (s : BoardClient) (request : BoardRequest) (reply : Option BoardReply) : BoardClient :=
  match request with
  | .decision taskId decision =>
      if confirmed reply then
        s.addLog (js "HITL") (js "Decision confirmed: " ++ decision.word ++ js " for task " ++
          shortId taskId) true
      else s.addLog (js "ERROR") (js "Decision rejected by gateway: " ++ replyError reply) true
  | .stopAll _ =>
      if confirmed reply then
        (s.setControlError none).addLog (js "CONTROL") (js "STOP ALL issued (command " ++
          ((reply.bind BoardReply.commandId).getD (js "undefined")).take 8 ++ js ")") true
      else s.reportControlError (stopRefused reply)

/-- The callback of the timer of a request. -/
def timedOut (s : BoardClient) (request : BoardRequest) : BoardClient :=
  match request with
  | .decision _ _ =>
      s.addLog (js "ERROR") (js "Decision not confirmed by gateway within " ++
        NumberText.numberText (Decimal.ofInt ackTimeoutSeconds) ++ symbols "s — try again") true
  | .stopAll _ => s.reportControlError notConfirmed

def setRequest (s : BoardClient) (i : ℕ) (r : SentRequest) : BoardClient :=
  { s with requests := s.requests.set i r }

end BoardClient

inductive BoardClientEvent where
  | connect
  | disconnect (reason : JsString)
  /-- Whether `socket.active` is still true, and the error's message. -/
  | connectError (active : Bool) (message : JsString)
  | stateUpdate (d : BoardDelta)
  | sendHitlDecision (taskId : JsString) (decision : HitlDecision)
  | sendStopAll (reason : Option JsString)
  /-- The callback of request `i` is called. -/
  | replied (i : ℕ) (reply : Option BoardReply)
  /-- The timer of request `i` fires. -/
  | timedOut (i : ℕ)

namespace BoardClient

/-- One reaction; `none` when the event cannot happen. -/
def step (s : BoardClient) : BoardClientEvent → Option BoardClient
  | .connect =>
      if s.connected then none
      else some ({ s with connected := true }.setConnectionStatus .live []).resetState
  | .disconnect reason =>
      if s.connected then
        some ({ s with connected := false }.setConnectionStatus .disconnected
          (if reason = js "io server disconnect" then
            js "session ended by the gateway (token expired?)" else reason))
      else none
  | .connectError active message =>
      if s.connected then none
      else some (s.setConnectionStatus (if active then .disconnected else .error) message)
  | .stateUpdate d => if s.connected then some (s.applyDelta d) else none
  | .sendHitlDecision taskId decision => some (s.sendHitlDecision taskId decision)
  | .sendStopAll reason => some (s.sendStopAll reason)
  | .replied i reply =>
      match s.requests[i]? with
      | some ⟨request, timer, none⟩ =>
          let timer := if timer = .set then .cleared else timer
          some ((s.setRequest i ⟨request, timer, some reply⟩).replied request reply)
      | _ => none
  | .timedOut i =>
      match s.requests[i]? with
      | some ⟨request, .set, reply⟩ =>
          some ((s.setRequest i ⟨request, .fired, reply⟩).timedOut request)
      | _ => none

end BoardClient

end Kaiban
