/-
The mailbox of an agent: what a publisher puts on the topic and what the consumer makes of it.

A payload goes onto the topic as JSON with the headers of its trace.  A send may fail after
the broker has stored the record, and some errors are tried again, so a payload may be there
more than once.  Anyone who reaches the broker may put a record there too.

The consumer calls `eachMessage` for one record after the other.  A record that is not a
payload is skipped, and one whose handler rejects is called again.  It commits its offset now
and then, and after a crash it goes on from the offset that was committed last.
-/
import Kaiban.Actor
import Kaiban.Control
import Kaiban.Lib.Steps

open JsString

namespace Kaiban

/-! ### Trace headers -/

abbrev TraceHeaders := List (JsString × JsString)

def isLowerHex (u : CodeUnit) : Bool :=
  NumberText.isDigit u || (unit 'a' ≤ u && u ≤ unit 'f')

/-- `TRACEPARENT_RE.test(v)`. -/
def isTraceparent (v : JsString) : Bool :=
  v.length = 55 && v.take 3 = js "00-" && ((v.drop 3).take 32).all isLowerHex &&
    (v.drop 35).take 1 = js "-" && ((v.drop 36).take 16).all isLowerHex &&
    (v.drop 52).take 1 = js "-" && (v.drop 53).all isLowerHex

/-- `Object.entries(raw)` of an object, or of an array with its indices. -/
def headerEntries : Option Json → MessageData
  | some (.obj ms) => ms
  | some (.arr vs) => vs.zipIdx.map fun m => (NumberText.numberText (Decimal.ofInt m.2), m.1)
  | _ => []

/-- The header an entry makes.  A text that is assigned to `__proto__` makes none. -/
def safeHeader (entry : JsString × Json) : Option (JsString × JsString) :=
  match entry with
  | (k, .str v) =>
      if k = js "traceparent" ∧ isTraceparent v = false then none
      else if k = js "__proto__" then none
      else some (k, v)
  | _ => none

/-- `sanitizeTraceHeaders(raw)`. -/
def sanitizeTraceHeaders (raw : Option Json) : TraceHeaders :=
  (headerEntries raw).filterMap safeHeader

/-! ### A message -/

/-- `isMessagePayload(value)`, with the payload. -/
def messagePayload : Json → Option Payload
  | .obj v =>
      match Json.get v (js "taskId"), Json.get v (js "agentId"), Json.get v (js "data"),
          Json.get v (js "timestamp") with
      | some (.str taskId), some (.str agentId), some (.obj data), some (.num (.finite d)) =>
          some ⟨taskId, agentId, data, .finite d⟩
      | _, _, _, _ => none
  | _ => none

/-- `payload.traceHeaders`. -/
def traceHeadersOf : Json → Option Json
  | .obj v => Json.get v (js "traceHeaders")
  | _ => none

/-- A call of the handler, with the headers of its context. -/
structure HandlerCall where
  payload : Payload
  headers : TraceHeaders

/-- What a driver does with a decoded message: it calls the handler, or skips it. -/
def consumed (decoded : Json) : Option HandlerCall :=
  (messagePayload decoded).map fun p => ⟨p, sanitizeTraceHeaders (traceHeadersOf decoded)⟩

/-- `eachMessage`, of the text of the value, if the message has a value. -/
def eachMessage (value : Option JsString) : Option HandlerCall :=
  (value.bind parseJson).bind consumed

/-- `enrichedPayload`, with the headers of the active context. -/
def enrichedPayload (p : Payload) (headers : TraceHeaders) : Json :=
  .obj [(js "taskId", .str p.taskId), (js "agentId", .str p.agentId), (js "data", .obj p.data),
    (js "timestamp", .num p.timestamp),
    (js "traceHeaders", .obj (headers.map fun m => (m.1, .str m.2)))]

/-- The text of the value that `producer.send` puts on the topic. -/
def sentValue (p : Payload) (headers : TraceHeaders) : JsString :=
  decode (bytes (Json.stringify (enrichedPayload p headers)))

/-! ### A publish -/

/-- An error of the producer: its `type` and its `message`, where they are texts. -/
structure SendError where
  type : Option JsString
  message : Option JsString

/-- `isRetryableError(err)`. -/
def isRetryableError (err : SendError) : Bool :=
  err.type = some (js "UNKNOWN_TOPIC_OR_PARTITION") ||
    err.message.any fun m => js "does not host this topic-partition" <:+: m ||
      js "KafkaJSProtocolError" <:+: m

/-- The default of `retries`. -/
def publishRetries : ℕ := 5

/-- What a retry waits, in milliseconds. -/
def retryDelay (attempt : ℕ) : ℕ := 2 ^ attempt * 100

inductive SendPhase where
  | connecting
  /-- `producer.send`, and whether the broker has stored the record. -/
  | sending (attempt : ℕ) (stored : Bool)
  | waiting (attempt : ℕ)
  | resolved
  | rejected

/-- A call of `publish`. -/
structure SendCall where
  payload : Payload
  headers : TraceHeaders
  phase : SendPhase
  -- history
  sends : ℕ
  waited : ℕ

/-- A record of the topic, and the publish it is of. -/
structure TopicRecord where
  value : Option JsString
  origin : Option ℕ

structure Mailbox where
  log : List TopicRecord
  publishes : ℕ → Option SendCall
  offset : ℕ
  committed : ℕ
  /-- The call of the handler that has not settled. -/
  running : Option HandlerCall
  -- history: the calls of the handler and those that resolved, with the offsets
  called : List (ℕ × HandlerCall)
  handled : List (ℕ × HandlerCall)

inductive MailboxEvent where
  | publish (k : ℕ) (p : Payload) (headers : TraceHeaders)
  | connected (k : ℕ)
  | connectFails (k : ℕ)
  /-- The broker stores the record of a send. -/
  | stores (k : ℕ)
  | sendResolves (k : ℕ)
  | sendRejects (k : ℕ) (err : SendError)
  /-- The wait before another attempt is over. -/
  | retries (k : ℕ)
  /-- Someone else puts a record on the topic. -/
  | foreign (value : Option JsString)
  | fetches
  | handlerResolves
  | handlerRejects
  | commits
  | restarts

namespace Mailbox

/-- A group that has committed nothing reads the topic from its beginning. -/
def init : Mailbox := ⟨[], fun _ => none, 0, 0, none, [], []⟩

def setPublish (s : Mailbox) (k : ℕ) (call : SendCall) : Mailbox :=
  { s with publishes := fun x => if x = k then some call else s.publishes x }

/-- What `publish` does next after an error of the producer. -/
def afterError (call : SendCall) (attempt : ℕ) (err : SendError) : SendCall :=
  if isRetryableError err then
    if attempt + 1 = publishRetries then { call with phase := .rejected }
    else { call with phase := .waiting attempt, waited := call.waited + retryDelay attempt }
  else { call with phase := .rejected }

/-- `producer.send` is called. -/
def attempted (call : SendCall) (attempt : ℕ) : SendCall :=
  { call with phase := .sending attempt false, sends := call.sends + 1 }

/-- What `eachMessage` does with the record at an offset. -/
def message (s : Mailbox) (i : ℕ) : Option HandlerCall :=
  s.log[i]?.bind fun r => eachMessage r.value

def step (s : Mailbox) : MailboxEvent → Option Mailbox
  | .publish k p headers =>
      match s.publishes k with
      | none => some (s.setPublish k ⟨p, headers, .connecting, 0, 0⟩)
      | some _ => none
  | .connected k =>
      match s.publishes k with
      | some call =>
          match call.phase with
          | .connecting => some (s.setPublish k (attempted call 0))
          | _ => none
      | none => none
  | .connectFails k =>
      match s.publishes k with
      | some call =>
          match call.phase with
          | .connecting => some (s.setPublish k { call with phase := .rejected })
          | _ => none
      | none => none
  | .stores k =>
      match s.publishes k with
      | some call =>
          match call.phase with
          | .sending attempt _ =>
              some { s.setPublish k { call with phase := .sending attempt true } with
                log := s.log ++ [⟨some (sentValue call.payload call.headers), some k⟩] }
          | _ => none
      | none => none
  | .sendResolves k =>
      match s.publishes k with
      | some call =>
          match call.phase with
          | .sending _ true => some (s.setPublish k { call with phase := .resolved })
          | _ => none
      | none => none
  | .sendRejects k err =>
      match s.publishes k with
      | some call =>
          match call.phase with
          | .sending attempt _ => some (s.setPublish k (afterError call attempt err))
          | _ => none
      | none => none
  | .retries k =>
      match s.publishes k with
      | some call =>
          match call.phase with
          | .waiting attempt => some (s.setPublish k (attempted call (attempt + 1)))
          | _ => none
      | none => none
  | .foreign value => some { s with log := s.log ++ [⟨value, none⟩] }
  | .fetches =>
      if s.running.isNone = true ∧ s.offset < s.log.length then
        match s.message s.offset with
        | none => some { s with offset := s.offset + 1 }
        | some call =>
            some { s with running := some call, called := s.called ++ [(s.offset, call)] }
      else none
  | .handlerResolves =>
      match s.running with
      | some call =>
          some { s with
            running := none
            offset := s.offset + 1
            handled := s.handled ++ [(s.offset, call)] }
      | none => none
  | .handlerRejects =>
      match s.running with
      | some _ => some { s with running := none }
      | none => none
  | .commits => some { s with committed := s.offset }
  | .restarts => some { s with running := none, offset := s.committed }

end Mailbox

end Kaiban
