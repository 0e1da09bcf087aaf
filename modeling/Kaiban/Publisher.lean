/-
The publisher of an agent's state, and the handler it wraps.

A wrapped attempt begins when the actor calls the wrapper and goes on when its handler
settles, which may be long after the actor gave the attempt up.  A run of the publisher is
a list of such events, with the aborts of the attempts' signals between them, so attempts
overlap in any order.

The tallies of tokens are exact, and the calls to the outside are kept as they were made.
-/
import Kaiban.Actor
import Kaiban.Budget
import Kaiban.Completion
import Kaiban.Lib.Recent

open JsString

namespace Kaiban

/-- `AgentInfo`. -/
structure AgentInfo where
  agentId : JsString
  name : JsString
  role : JsString

inductive AgentStatus where
  | idle
  | thinking
  | executing
  | error
  deriving DecidableEq

/-- A row of `agents`. -/
structure AgentState extends AgentInfo where
  status : AgentStatus
  currentTaskId : Option JsString

inductive TaskStatus where
  | todo
  | doing
  | done
  | blocked
  | awaitingValidation
  | stopped
  deriving DecidableEq

/-- `TaskState`: a task card. -/
structure TaskCard where
  taskId : JsString
  title : JsString
  status : TaskStatus
  assignedToAgentId : JsString
  result : Option JsString
  /-- `tokens` and `cost`. -/
  usage : Option SpendTotals

/-- A delta as the publisher sends it, with at most one row and at most one card. -/
structure PublisherDelta where
  agents : Option AgentState
  tasks : Option TaskCard

/-- `AgentStatePublisherOpts`, with the agent. -/
structure PublisherConfig where
  agentInfo : AgentInfo
  maxTokenBudget : Option JsNumber
  maxTaskTokenBudget : Option JsNumber

/-- `MAX_RESULT_LEN`. -/
def maxResultLen : ℕ := 20000

/-- `MAX_TRACKED_TASKS`. -/
def maxTrackedTasks : ℕ := 1000

/-- `MAX_REMEMBERED_STOPS`. -/
def maxRememberedStops : ℕ := 1000

/-- `cappedAt(cap)`. -/
def cappedAt : Option JsNumber → Option Decimal
  | some (.finite d) => if 0 < d then some d else none
  | _ => none

/-- `taskTitle(payload)`; `none` when the instruction does not convert to a text. -/
def taskTitle (p : Payload) : Option JsString :=
  (match Json.get p.data (js "instruction") with
    | none => some p.taskId
    | some .null => some p.taskId
    | some v => Json.toText v).map (List.take 60)

/-! ### What a handler settles with -/

/-- `AttemptUsage`, of which the tallies read the tokens. -/
structure AttemptUsage where
  inputTokens : Option Json
  outputTokens : Option Json

/-- The tokens of a failed attempt. -/
def AttemptUsage.tokens (u : AttemptUsage) : Amount :=
  cleanSpendAmount u.inputTokens + cleanSpendAmount u.outputTokens

/-- A value a handler rejects with: a `FailedAttemptError`, or anything else. -/
inductive HandlerError where
  | failedAttempt (message : JsString) (usage : AttemptUsage)
  | thrown (e : Thrown)

/-- The error as the actor sees it. -/
def HandlerError.seen : HandlerError → Thrown
  | failedAttempt message _ => .error message
  | thrown e => e

/-- A value a handler resolves with: as the completion sees it, as the card shows it, and
the usage it carries. -/
structure HandlerResult where
  value : Value
  display : Except Thrown JsString
  tokenMeta : Option SpendTotals

inductive HandlerOutcome where
  | returned (r : HandlerResult)
  | threw (err : HandlerError)

/-- The publisher's own `truncateToBytes(str, maxBytes)`. -/
def AgentStatePublisher.truncateToBytes (str : JsString) (maxBytes : ℕ) : JsString :=
  if (bytes str).length ≤ maxBytes then str
  else decode ((bytes str).take (backUp (bytes str) maxBytes))

/-- `formatDisplayResult(result)`; `none` when the answer does not convert to a text. -/
def formatDisplayResult (result : Json) : Option JsString :=
  match result with
  | .null => some []
  | .str s => some (AgentStatePublisher.truncateToBytes s maxResultLen)
  | .obj ms =>
      match Json.get ms (js "answer") with
      | some answer => (textOrEmpty (some answer)).map fun s =>
          AgentStatePublisher.truncateToBytes s maxResultLen
      | none => some (AgentStatePublisher.truncateToBytes (Json.stringify result) maxResultLen)
  | _ => some (AgentStatePublisher.truncateToBytes (Json.stringify result) maxResultLen)

/-- `extractTokenMetadata(result)`. -/
def extractTokenMetadata (result : Json) : Option SpendTotals :=
  match result with
  | .obj ms =>
      if (Json.get ms (js "inputTokens")).isSome ∧ (Json.get ms (js "outputTokens")).isSome then
        some ⟨cleanSpendAmount (Json.get ms (js "inputTokens"))
            + cleanSpendAmount (Json.get ms (js "outputTokens")),
          cleanSpendAmount (Json.get ms (js "estimatedCost"))⟩
      else none
  | _ => none

/-- The error of a conversion to a text. -/
def conversionError : Thrown := .error (js "Cannot convert object to primitive value")

/-- A JSON value as a handler resolves with it. -/
def HandlerResult.ofJson (result : Json) : HandlerResult where
  value :=
    { nullish := match result with
        | .null => true
        | _ => false
      json := .ok (some result)
      text := match Json.toText result with
        | none => .error conversionError
        | some t => .ok t }
  display := match formatDisplayResult result with
    | none => .error conversionError
    | some t => .ok t
  tokenMeta := extractTokenMetadata result

/-! ### The publisher -/

/-- An attempt of the wrapped handler. -/
structure Attempt where
  payload : Payload
  title : JsString
  /-- The reason of its signal, once that is aborted. -/
  aborted : Option NonRetryableError
  /-- What the wrapper settled with. -/
  ended : Option Outcome

inductive PublisherCall where
  | handler (attempt : ℕ)
  | publish (delta : PublisherDelta)

structure AgentStatePublisher where
  totalTokensUsed : Amount
  taskTokensUsed : OrderedMap JsString Amount
  attemptSeq : ℕ
  stoppedTaskIds : OrderedMap JsString Unit
  currentStatus : AgentStatus
  currentTaskId : Option JsString
  attempts : ℕ → Option Attempt
  calls : List PublisherCall

namespace AgentStatePublisher

def init : AgentStatePublisher where
  totalTokensUsed := 0
  taskTokensUsed := .empty
  attemptSeq := 0
  stoppedTaskIds := .empty
  currentStatus := .idle
  currentTaskId := none
  attempts := fun _ => none
  calls := []

def call (s : AgentStatePublisher) (c : PublisherCall) : AgentStatePublisher :=
  { s with calls := s.calls ++ [c] }

/-- `currentStatus` and `currentTaskId`. -/
def setCurrent (s : AgentStatePublisher) (status : AgentStatus) (taskId : Option JsString) :
    AgentStatePublisher :=
  { s with currentStatus := status, currentTaskId := taskId }

def setAttempt (s : AgentStatePublisher) (i : ℕ) (att : Attempt) : AgentStatePublisher :=
  { s with attempts := fun x => if x = i then some att else s.attempts x }

/-- `publish(delta)`. -/
def publish (s : AgentStatePublisher) (agents : Option AgentState) (tasks : Option TaskCard) :
    AgentStatePublisher :=
  s.call (.publish ⟨agents, tasks⟩)

section Wrapper

variable (cfg : PublisherConfig)

def agentRow (status : AgentStatus) (taskId : Option JsString) : AgentState :=
  ⟨cfg.agentInfo, status, taskId⟩

/-- A card with no result. -/
def taskCard (taskId title : JsString) (status : TaskStatus) : TaskCard :=
  ⟨taskId, title, status, cfg.agentInfo.agentId, none, none⟩

/-- The delta of a failure: `ERROR` and `BLOCKED`. -/
def publishError (s : AgentStatePublisher) (taskId title : JsString) : AgentStatePublisher :=
  s.publish (some (agentRow cfg .error (some taskId))) (some (taskCard cfg taskId title .blocked))

/-! #### The caps -/

def amountText (a : Amount) : JsString := NumberText.numberText a.val

/-- `assertCapsNotMet(taskId)`: the breach it throws. -/
def assertCapsNotMet (s : AgentStatePublisher) (taskId : JsString) : Option NonRetryableError :=
  match (cappedAt cfg.maxTokenBudget).filter fun c => c ≤ s.totalTokensUsed.val with
  | some c =>
      some (.other (js "token_budget_exceeded")
        (js "Token budget exceeded before task " ++ taskId ++ js ": "
          ++ amountText s.totalTokensUsed ++ js " >= " ++ NumberText.numberText c))
  | none =>
      let taskUsed := (s.taskTokensUsed.get taskId).getD 0
      match (cappedAt cfg.maxTaskTokenBudget).filter fun c => c ≤ taskUsed.val with
      | some c =>
          some (.other (js "task_token_budget_exceeded")
            (js "Task token budget exceeded before task " ++ taskId ++ js ": "
              ++ amountText taskUsed ++ js " >= " ++ NumberText.numberText c))
      | none => none

/-- `accountTokens(taskId, totalTokens, detail)`. -/
def accountTokens (s : AgentStatePublisher) (taskId : JsString) (totalTokens : Amount)
    (detail : Option JsString) : AgentStatePublisher × Option NonRetryableError :=
  let suffix := match detail with
    | none => []
    | some d => js " (" ++ d ++ js ")"
  let totalTokensUsed := s.totalTokensUsed + totalTokens
  let taskUsed := (s.taskTokensUsed.get taskId).getD 0 + totalTokens
  let after : AgentStatePublisher :=
    { s with
      totalTokensUsed := totalTokensUsed
      taskTokensUsed := s.taskTokensUsed.touch maxTrackedTasks taskId taskUsed }
  match (cappedAt cfg.maxTaskTokenBudget).filter fun c => c ≤ taskUsed.val with
  | some c =>
      (after, some (.other (js "task_token_budget_exceeded")
        (js "Task token budget exceeded: " ++ amountText taskUsed ++ js " >= "
          ++ NumberText.numberText c ++ suffix)))
  | none =>
      match (cappedAt cfg.maxTokenBudget).filter fun c => c ≤ totalTokensUsed.val with
      | some c =>
          (after, some (.other (js "token_budget_exceeded")
            (js "Token budget exceeded: " ++ amountText totalTokensUsed ++ js " >= "
              ++ NumberText.numberText c ++ suffix)))
      | none => (after, none)

/-- `accountFailedAttempt(taskId, err)`. -/
def accountFailedAttempt (s : AgentStatePublisher) (taskId : JsString) (err : HandlerError) :
    AgentStatePublisher × HandlerError :=
  match err with
  | .thrown _ => (s, err)
  | .failedAttempt message usage =>
      match s.accountTokens cfg taskId usage.tokens (some (js "failed attempt: " ++ message)) with
      | (s, none) => (s, err)
      | (s, some breach) => (s, .thrown (.nonRetryable breach))

/-- `countLateTokens(taskId, result)`. -/
def countLateTokens (s : AgentStatePublisher) (taskId : JsString) (r : HandlerResult) :
    AgentStatePublisher :=
  match r.tokenMeta with
  | none => s
  | some late => (s.accountTokens cfg taskId late.totalTokens none).1

/-! #### Stops -/

/-- `markStopped(taskId)`; `none` when the task was already marked. -/
def markStopped (s : AgentStatePublisher) (taskId : JsString) : Option AgentStatePublisher :=
  match s.stoppedTaskIds.get taskId with
  | some _ => none
  | none =>
      some { s with stoppedTaskIds := s.stoppedTaskIds.touch maxRememberedStops taskId () }

/-- `publishStopped(payload)`.  A title that throws leaves the task marked. -/
def publishStopped (s : AgentStatePublisher) (p : Payload) : AgentStatePublisher :=
  match s.markStopped p.taskId with
  | none => s
  | some s =>
      match taskTitle p with
      | none => s
      | some title =>
          if s.currentTaskId ≠ some p.taskId then
            s.publish none (some (taskCard cfg p.taskId title .stopped))
          else
            (s.setCurrent .idle none).publish (some (agentRow cfg .idle none))
              (some (taskCard cfg p.taskId title .stopped))

/-- `emergencyAbort(signal)`. -/
def emergencyAbort (aborted : Option NonRetryableError) : Option NonRetryableError :=
  aborted.filter NonRetryableError.isEmergencyStop

/-- The stop `endedByEmergencyStop` finds: the error itself, or the signal's reason. -/
def emergencyStopOf (aborted : Option NonRetryableError) : HandlerError → Option NonRetryableError
  | .thrown (.nonRetryable e) => if e.isEmergencyStop then some e else emergencyAbort aborted
  | _ => emergencyAbort aborted

/-- `endedByEmergencyStop(payload, err, signal)`.  An error that is the stop itself carries
no usage. -/
def endedByEmergencyStop (s : AgentStatePublisher) (att : Attempt) (err : HandlerError) :
    Option (AgentStatePublisher × NonRetryableError) :=
  (emergencyStopOf att.aborted err).map fun stop =>
    ((s.accountFailedAttempt cfg att.payload.taskId err).1.publishStopped cfg att.payload, stop)

/-- `publishSupersededFailure(payload, title)`. -/
def publishSupersededFailure (s : AgentStatePublisher) (taskId title : JsString) :
    AgentStatePublisher :=
  if some taskId = s.currentTaskId then s
  else s.publish none (some (taskCard cfg taskId title .blocked))

/-! #### `wrapHandler(handler)` -/

/-- The `catch` of the wrapper: what it publishes, and what it throws. -/
def caught (s : AgentStatePublisher) (attempt : ℕ) (att : Attempt) (err : HandlerError) :
    AgentStatePublisher × HandlerError :=
  match s.endedByEmergencyStop cfg att err with
  | some (s, stop) => (s, .thrown (.nonRetryable stop))
  | none =>
      match s.accountFailedAttempt cfg att.payload.taskId err with
      | (s, failure) =>
          if attempt ≠ s.attemptSeq then
            (s.publishSupersededFailure cfg att.payload.taskId att.title, failure)
          else
            ((s.publishError cfg att.payload.taskId att.title).setCurrent .idle none, failure)

/-- The delta of a result: `IDLE` and `DONE`. -/
def publishDone (s : AgentStatePublisher) (taskId title resultStr : JsString)
    (tokenMeta : Option SpendTotals) : AgentStatePublisher :=
  s.publish (some (agentRow cfg .idle none))
    (some ⟨taskId, title, .done, cfg.agentInfo.agentId, some resultStr, tokenMeta⟩)

/-- The wrapper once its handler has settled. -/
def settled (s : AgentStatePublisher) (attempt : ℕ) (att : Attempt) (out : HandlerOutcome) :
    AgentStatePublisher × Outcome :=
  let taskId := att.payload.taskId
  let rejected (s : AgentStatePublisher) (err : HandlerError) : AgentStatePublisher × Outcome :=
    match s.caught cfg attempt att err with
    | (s, failure) => (s, .threw failure.seen)
  match out with
  | .threw err => rejected s err
  | .returned r =>
      match att.aborted with
      | some reason =>
          -- `rejectLateResult`
          rejected (s.countLateTokens cfg taskId r)
            (.thrown (.nonRetryable ((emergencyAbort att.aborted).getD reason)))
      | none =>
          let s := s.setCurrent .idle none
          match r.display with
          | .error e => rejected s (.thrown e)
          | .ok resultStr =>
              match r.tokenMeta with
              | none => (s.publishDone cfg taskId att.title resultStr none, .returned r.value)
              | some tokenMeta =>
                  match s.accountTokens cfg taskId tokenMeta.totalTokens none with
                  | (s, none) =>
                      (s.publishDone cfg taskId att.title resultStr (some tokenMeta),
                        .returned r.value)
                  | (s, some breach) =>
                      rejected (s.publishError cfg taskId att.title)
                        (.thrown (.nonRetryable breach))

/-- The wrapper up to the call of its handler; the attempt has ended when a cap is met. -/
def invoked (s : AgentStatePublisher) (p : Payload) (title : JsString) : AgentStatePublisher :=
  let attempt := s.attemptSeq + 1
  let att : Attempt := ⟨p, title, none, none⟩
  let s := { s with attemptSeq := attempt }
  match s.assertCapsNotMet cfg p.taskId with
  | some breach =>
      match s.caught cfg attempt att (.thrown (.nonRetryable breach)) with
      | (s, failure) => s.setAttempt attempt { att with ended := some (.threw failure.seen) }
  | none =>
      let s := { s with stoppedTaskIds := s.stoppedTaskIds.erase p.taskId }
      let s := s.setCurrent .executing (some p.taskId)
      let s := s.publish (some (agentRow cfg .executing (some p.taskId)))
        (some (taskCard cfg p.taskId title .doing))
      let s := s.publish (some (agentRow cfg .thinking (some p.taskId))) none
      (s.call (.handler attempt)).setAttempt attempt att

/-- `publishIdle()`, without its timer. -/
def publishIdle (s : AgentStatePublisher) : AgentStatePublisher :=
  (s.setCurrent .idle none).publish (some (agentRow cfg .idle none)) none

/-- The row the timer of `publishIdle` repeats. -/
def heartbeat (s : AgentStatePublisher) : AgentStatePublisher :=
  s.publish (some (agentRow cfg s.currentStatus s.currentTaskId)) none

end Wrapper

end AgentStatePublisher

inductive PublisherEvent where
  /-- The wrapper is called. -/
  | invoke (p : Payload)
  /-- The signal of an attempt is aborted. -/
  | abort (attempt : ℕ) (reason : NonRetryableError)
  /-- The handler of an attempt has settled, and the wrapper goes on. -/
  | settles (attempt : ℕ) (out : HandlerOutcome)
  | publishStopped (p : Payload)
  | publishIdle
  | heartbeat

namespace AgentStatePublisher

/-- One reaction of the publisher.  A title that throws leaves no attempt behind, and only
the first abort of a signal sets its reason. -/
def step (cfg : PublisherConfig) (s : AgentStatePublisher) :
    PublisherEvent → Option AgentStatePublisher
  | .invoke p =>
      match taskTitle p with
      | none => some s
      | some title => some (s.invoked cfg p title)
  | .abort i reason =>
      (s.attempts i).map fun att =>
        s.setAttempt i { att with aborted := att.aborted.or (some reason) }
  | .settles i out =>
      match s.attempts i with
      | none => none
      | some att =>
          match att.ended with
          | some _ => none
          | none =>
              match s.settled cfg i att out with
              | (s, outcome) => some (s.setAttempt i { att with ended := some outcome })
  | .publishStopped p => some (s.publishStopped cfg p)
  | .publishIdle => some (s.publishIdle cfg)
  | .heartbeat => some (s.heartbeat cfg)

end AgentStatePublisher

end Kaiban
