/-
One agent and the tasks delivered to it.

A run of the agent is a list of events, one for each uninterrupted reaction of the event
loop: a delivery, a guard's verdict, the start of an attempt, a handler that settles, a
timer, a publish that resolves, an emergency stop, a shutdown.  A delivery carries its
own stage and the calls it has made to the outside, so what it did can be read off at
any time.  The agent itself holds only what a stop leaves behind and which attempts are
in flight.

The race between a handler, its timer and a stop is settled by whichever comes first and
is looked at one reaction later, so other events fall between the two.
-/
import Kaiban.Outbound

open JsString

namespace Kaiban

/-- `RETRY_ATTEMPTS`. -/
def retryAttempts : ℕ := 3

/-- `MessagePayload`, with the fields the agent reads. -/
structure Payload where
  taskId : JsString
  agentId : JsString
  data : MessageData
  timestamp : JsNumber

structure ActorConfig where
  id : JsString
  /-- `sanitizeId(id)`: the first eight digits of a hash, computed outside. -/
  sanitizedId : JsString
  hasBreaker : Bool
  hasFirewall : Bool
  hasGate : Bool
  hasStopHook : Bool
  taskTimeoutMs : Decimal
  retryOnTimeout : Bool

/-! ### Errors and results -/

inductive ControlReason where
  | taskTimeout
  | actorStopped
  deriving DecidableEq

def ControlReason.code : ControlReason → JsString
  | .taskTimeout => js "task_timeout"
  | .actorStopped => js "actor_stopped"

/-- An instance of `NonRetryableError`. -/
inductive NonRetryableError where
  | controlAbort (reason : ControlReason) (message : JsString)
  | emergencyStop (message : JsString)
  | other (reasonCode message : JsString)
  deriving DecidableEq

namespace NonRetryableError

def reasonCode : NonRetryableError → JsString
  | controlAbort r _ => r.code
  | emergencyStop _ => js "emergency_stop"
  | other code _ => code

def message : NonRetryableError → JsString
  | controlAbort _ m => m
  | emergencyStop m => m
  | other _ m => m

/-- `err instanceof EmergencyStopError`. -/
def isEmergencyStop : NonRetryableError → Bool
  | emergencyStop _ => true
  | _ => false

/-- `err instanceof ControlAbortError` with the reason `task_timeout`. -/
def isTimeout : NonRetryableError → Bool
  | controlAbort .taskTimeout _ => true
  | _ => false

end NonRetryableError

/-- A thrown value.  `other` is anything that is no `Error`, with the text `String(err)`
gives, or none when that conversion throws too. -/
inductive Thrown where
  | nonRetryable (e : NonRetryableError)
  | error (message : JsString)
  | other (text : Option JsString)
  deriving DecidableEq

/-- `err instanceof Error ? err.message : String(err)`. -/
def Thrown.text : Thrown → Option JsString
  | nonRetryable e => some e.message
  | error m => some m
  | other t => t

/-- A value a handler resolves with, as the completion sees it: whether it is `null` or
`undefined`, what `JSON.stringify` makes of it (a member may be left out), and what
`String` makes of it. -/
structure Value where
  nullish : Bool
  json : Except Thrown (Option Json)
  text : Except Thrown JsString

/-- How an attempt's race ends. -/
inductive Outcome where
  | returned (v : Value)
  | threw (e : Thrown)

/-! ### Calls to the outside -/

inductive Channel where
  | completed
  | deadLetter
  deriving DecidableEq

/-- A published message.  Its timestamp is left out. -/
structure Record where
  channel : Channel
  taskId : JsString
  agentId : JsString
  data : MessageData

inductive Call where
  | handler (attempt : ℕ)
  /-- Attempt `attempt` ended this way; nothing is called. -/
  | attemptEnded (attempt : ℕ) (out : Outcome)
  | recordSuccess
  | recordFailure
  | publish (r : Record)
  | onEmergencyStop

/-! ### One delivery -/

/-- How a delivery ends. -/
inductive Ending where
  /-- It was for another agent. -/
  | ignored
  /-- It was sent before an emergency stop. -/
  | refused
  /-- It came while the agent was stopping. -/
  | drained
  | breakerOpen
  | blockedByFirewall
  | blockedByGate
  | completed
  | rejected (e : NonRetryableError)
  | exhausted
  /-- An error left `processTask`. -/
  | failed
  deriving DecidableEq

inductive Stage where
  | firewall
  | gate
  /-- The attempt is about to begin. -/
  | starting (attempt : ℕ)
  /-- The attempt runs; the race is open or already decided. -/
  | running (attempt : ℕ) (race : Option Outcome)
  /-- The completion is being published. -/
  | publishing (attempt : ℕ)
  | backoff (attempt : ℕ)
  /-- A dead-letter record is being published, and then the delivery ends. -/
  | recording (ending : Ending)
  | ended (ending : Ending)

structure Delivery where
  payload : Payload
  stage : Stage
  calls : List Call

/-- What a stop leaves behind: `stoppedAt` is `none` until the first emergency stop. -/
structure Signals where
  stopping : Bool
  stoppedAt : Option Decimal

/-- `sentBeforeStop(payload)`.  A timestamp that is not finite proves nothing. -/
def Signals.sentBeforeStop (sig : Signals) (p : Payload) : Bool :=
  match sig.stoppedAt, p.timestamp with
  | none, _ => false
  | some s, .finite t => t ≤ s
  | some _, _ => true

def emergencyStopError : NonRetryableError := .emergencyStop (js "Emergency stop")

def stoppedError : NonRetryableError := .controlAbort .actorStopped (js "Actor stopping")

def timeoutError (cfg : ActorConfig) : NonRetryableError :=
  .controlAbort .taskTimeout
    (js "Task timed out after " ++ NumberText.numberText cfg.taskTimeoutMs ++ js "ms")

/-- `interruption(payload)`. -/
def interruption (sig : Signals) (p : Payload) : Option NonRetryableError :=
  if sig.sentBeforeStop p then some emergencyStopError
  else if sig.stopping then some stoppedError
  else none

/-- `nonRetryable(err, payload)`. -/
def nonRetryable (sig : Signals) (p : Payload) : Thrown → Option NonRetryableError
  | .nonRetryable e => some e
  | _ => interruption sig p

/-- `finalError(err, attempt, payload)`. -/
def finalError (cfg : ActorConfig) (sig : Signals) (p : Payload) (attempt : ℕ) (err : Thrown) :
    Option NonRetryableError :=
  match nonRetryable sig p err with
  | none => none
  | some e =>
      if cfg.retryOnTimeout = true ∧ interruption sig p = none ∧ attempt < retryAttempts ∧
        e.isTimeout = true then none
      else some e

namespace Delivery

def call (del : Delivery) (cs : List Call) : Delivery := { del with calls := del.calls ++ cs }

def goto (del : Delivery) (stage : Stage) : Delivery := { del with stage := stage }

/-- `publishToDlq(payload, error, reason)`: the record is handed to the driver. -/
def publishToDlq (cfg : ActorConfig) (del : Delivery) (error : JsString)
    (reason : Option JsString) (ending : Ending) : Delivery :=
  (del.call [.publish ⟨.deadLetter, del.payload.taskId, cfg.id,
    deadLetterData del.payload.data error reason⟩]).goto (.recording ending)

/-- A call to the circuit breaker, if there is one. -/
def breaker (cfg : ActorConfig) (del : Delivery) (c : Call) : Delivery :=
  if cfg.hasBreaker then del.call [c] else del

/-- `failNonRetryable(payload, err, start)`. -/
def failNonRetryable (cfg : ActorConfig) (del : Delivery) (e : NonRetryableError) : Delivery :=
  (if e.reasonCode = js "task_timeout" then del.breaker cfg .recordFailure else del).publishToDlq
    cfg e.reasonCode (some e.message) (.rejected e)

/-- The `catch` of `executeWithRetries`. -/
def caught (cfg : ActorConfig) (sig : Signals) (del : Delivery) (attempt : ℕ) (err : Thrown) :
    Delivery :=
  match finalError cfg sig del.payload attempt err with
  | some e => del.failNonRetryable cfg e
  | none =>
      match err.text with
      | none => del.goto (.ended .failed)
      | some lastError =>
          if attempt < retryAttempts then del.goto (.backoff attempt)
          else (del.breaker cfg .recordFailure).publishToDlq cfg lastError none .exhausted

/-- What a handler that returned nothing is reported with. -/
def defaultResult (cfg : ActorConfig) : JsString :=
  js "Actor " ++ cfg.sanitizedId ++ js " executed successfully"

/-- The data of the completion of a result. -/
def completionData (cfg : ActorConfig) (v : Value) : Except Thrown MessageData :=
  if v.nullish then capDataSize (completedData (.str (defaultResult cfg))) (.ok (defaultResult cfg))
  else
    match v.json with
    | .error e => .error e
    | .ok none => .ok [(js "status", .str (js "success"))]
    | .ok (some j) => capDataSize (completedData j) v.text

/-- The rest of `executeTask` and of the `try` of `executeWithRetries`, once the race of
an attempt is decided. -/
def attemptEnded (cfg : ActorConfig) (sig : Signals) (del : Delivery) (attempt : ℕ)
    (out : Outcome) : Delivery :=
  let del := del.call [.attemptEnded attempt out]
  match out with
  | .threw e => del.caught cfg sig attempt e
  | .returned v =>
      let del := del.breaker cfg .recordSuccess
      match completionData cfg v with
      | .error e => del.caught cfg sig attempt e
      | .ok data =>
          (del.call [.publish ⟨.completed, del.payload.taskId, cfg.id, data⟩]).goto
            (.publishing attempt)

/-- The check before an attempt and the call of its handler. -/
def startAttempt (cfg : ActorConfig) (sig : Signals) (del : Delivery) (attempt : ℕ) : Delivery :=
  match interruption sig del.payload with
  | some e => del.failNonRetryable cfg e
  | none => (del.call [.handler attempt]).goto (.running attempt none)

/-- `controller.abort(err)`: the race is lost to it, unless it is already decided. -/
def abort (del : Delivery) (e : NonRetryableError) : Delivery :=
  match del.stage with
  | .running k none => del.goto (.running k (some (.threw (.nonRetryable e))))
  | _ => del

end Delivery

/-- A guard's verdict. -/
structure Verdict where
  allowed : Bool
  reason : Option JsString

/-- What can happen to one delivery. -/
inductive Act where
  | firewall (verdict : Except Thrown Verdict)
  | gate (verdict : Except Thrown Verdict)
  | start
  /-- The handler of an attempt settles, in time or not. -/
  | settles (attempt : ℕ) (out : Outcome)
  | timer
  | resume
  | published (result : Except Thrown Unit)
  | delayed

namespace Delivery

/-- The end of a delivery whose record was published. -/
def recorded (cfg : ActorConfig) (del : Delivery) (ending : Ending) : Delivery :=
  let hook := match ending with
    | .refused => true
    | .rejected e => e.isEmergencyStop
    | _ => false
  (if hook && cfg.hasStopHook then del.call [.onEmergencyStop] else del).goto (.ended ending)

/-- The guard after the firewall. -/
def afterFirewall (cfg : ActorConfig) (del : Delivery) : Delivery :=
  del.goto (if cfg.hasGate then .gate else .starting 1)

/-- One reaction of a delivery; `none` when the event cannot happen to it. -/
def step (cfg : ActorConfig) (sig : Signals) (del : Delivery) (a : Act) : Option Delivery :=
  match del.stage, a with
  | .firewall, .firewall (.ok v) =>
      some (if v.allowed then del.afterFirewall cfg
        else del.publishToDlq cfg (js "blocked_by_semantic_firewall") v.reason .blockedByFirewall)
  | .firewall, .firewall (.error _) => some (del.goto (.ended .failed))
  | .gate, .gate (.ok v) =>
      some (if v.allowed then del.goto (.starting 1)
        else del.publishToDlq cfg (js "blocked_by_admission_gate") v.reason .blockedByGate)
  | .gate, .gate (.error _) => some (del.goto (.ended .failed))
  | .starting k, .start => some (del.startAttempt cfg sig k)
  | .running k none, .settles j out =>
      some (if j = k then del.goto (.running k (some out)) else del)
  | _, .settles _ _ => some del
  | .running _ none, .timer => some (del.abort (timeoutError cfg))
  | .running _ (some _), .timer => some del
  | .running k (some out), .resume => some (del.attemptEnded cfg sig k out)
  | .publishing _, .published (.ok ()) => some (del.goto (.ended .completed))
  | .publishing k, .published (.error e) => some (del.caught cfg sig k e)
  | .recording ending, .published (.ok ()) => some (del.recorded cfg ending)
  | .recording _, .published (.error _) => some (del.goto (.ended .failed))
  | .backoff k, .delayed => some (del.goto (.starting (k + 1)))
  | _, _ => none

end Delivery

/-- `processTask(payload)` up to its first wait.  The breaker is asked only when the task
is for this agent and no stop refuses it. -/
def processTask (cfg : ActorConfig) (sig : Signals) (p : Payload) (breakerOpen : Bool) :
    Delivery :=
  let del : Delivery := ⟨p, .ended .ignored, []⟩
  if p.agentId ≠ cfg.id ∧ p.agentId ≠ js "*" then del
  else if sig.sentBeforeStop p then
    del.publishToDlq cfg (js "emergency_stop") (some (js "Sent before an emergency stop")) .refused
  else if sig.stopping then
    del.publishToDlq cfg (js "actor_stopped") (some (js "Actor stopping")) .drained
  else if cfg.hasBreaker && breakerOpen then
    del.publishToDlq cfg (js "circuit_breaker_open") none .breakerOpen
  else if cfg.hasFirewall then del.goto .firewall
  else del.afterFirewall cfg

/-! ### The agent -/

structure Actor where
  signals : Signals
  /-- The deliveries whose attempt is in `inFlight`. -/
  inFlight : List ℕ
  deliveries : ℕ → Option Delivery

def Actor.init : Actor := ⟨⟨false, none⟩, [], fun _ => none⟩

inductive ActorEvent where
  | deliver (d : ℕ) (p : Payload) (breakerOpen : Bool)
  | act (d : ℕ) (a : Act)
  | emergencyStop (stoppedAt : Decimal)
  | stop

/-- `EmergencyStopResult`. -/
structure EmergencyStopResult where
  applied : Bool
  aborted : ℕ

namespace Actor

def setDelivery (s : Actor) (d : ℕ) (del : Delivery) : Actor :=
  { s with deliveries := fun x => if x = d then some del else s.deliveries x }

/-- The entry of an attempt is made when its handler is called and deleted when its race
is looked at. -/
def track (d : ℕ) (a : Act) (del : Delivery) (inFlight : List ℕ) : List ℕ :=
  match a, del.stage with
  | .start, .running _ _ => inFlight ++ [d]
  | .resume, _ => inFlight.filter fun x => x ≠ d
  | _, _ => inFlight

/-- The deliveries an emergency stop aborts. -/
def stopped (s : Actor) (sig : Signals) (d : ℕ) (del : Delivery) : Bool :=
  d ∈ s.inFlight && sig.sentBeforeStop del.payload

/-- `emergencyStop(stoppedAt)`. -/
def emergencyStop (s : Actor) (stoppedAt : Decimal) : Actor × EmergencyStopResult :=
  if s.signals.stoppedAt.any fun t => stoppedAt ≤ t then (s, ⟨false, 0⟩)
  else
    let sig : Signals := { s.signals with stoppedAt := some stoppedAt }
    ({ s with
        signals := sig
        deliveries := fun d => (s.deliveries d).map fun del =>
          if s.stopped sig d del then del.abort emergencyStopError else del },
      ⟨true, (s.inFlight.filter fun d => (s.deliveries d).any (s.stopped sig d)).length⟩)

/-- `stop()`, without the driver's `unsubscribe`. -/
def stop (s : Actor) : Actor :=
  { s with
    signals := { s.signals with stopping := true }
    inFlight := []
    deliveries := fun d => (s.deliveries d).map fun del =>
      if d ∈ s.inFlight then del.abort stoppedError else del }

def step (cfg : ActorConfig) (s : Actor) : ActorEvent → Option Actor
  | .deliver d p breakerOpen =>
      match s.deliveries d with
      | none => some (s.setDelivery d (processTask cfg s.signals p breakerOpen))
      | some _ => none
  | .act d a =>
      match s.deliveries d with
      | none => none
      | some del =>
          (del.step cfg s.signals a).map fun del' =>
            { s.setDelivery d del' with inFlight := track d a del' s.inFlight }
  | .emergencyStop t => some (s.emergencyStop t).1
  | .stop => some s.stop

end Actor

end Kaiban
