/-
Tasks that are dispatched to agents, and the waits for what becomes of them.

A caller publishes a task to an agent's mailbox, and has its id when the publish has resolved.
In a later turn it waits for the ids it has: `runStep` for the one task it dispatched, since
no step of its checkpoint has the new id, `waitAll` for those of a fan-out, all in one turn.
From the moment the message is in the
mailbox a worker may take it and publish a record.  The broker keeps a record until it hands
it to the router, which it does as soon as the router has subscribed to the record's queue:
no timer fires while the broker has a record for its task.
-/
import Kaiban.KafkaDriver
import Kaiban.WaitAll

open JsString

namespace Kaiban

/-- `DispatchParams`. -/
structure DispatchParams where
  instruction : JsString
  expectedOutput : Option JsString
  context : Option JsString
  inputs : Option (List (JsString × Json))

/-- A message of a mailbox.  Its timestamp is left out. -/
structure MailboxMessage where
  channel : JsString
  taskId : JsString
  agentId : JsString
  data : MessageData

/-- What `dispatchToAgent` publishes: only the fields that are there. -/
def dispatchToAgent (taskId agentId : JsString) (params : DispatchParams) : MailboxMessage where
  channel := js "kaiban-agents-" ++ agentId
  taskId := taskId
  agentId := agentId
  data :=
    [(js "instruction", .str params.instruction)] ++
      (params.expectedOutput.map fun v => (js "expectedOutput", Json.str v)).toList ++
      (params.context.map fun v => (js "context", Json.str v)).toList ++
      (params.inputs.map fun v => (js "inputs", Json.obj v)).toList

inductive DispatchPhase where
  | publishing
  /-- The message is in the mailbox; the caller does not know it yet. -/
  | effective
  | returned
  | thrown
  | waiting
  deriving DecidableEq

/-- What a dispatched task is waited for with. -/
structure Awaiting where
  /-- It is one of a fan-out. -/
  fanOut : Bool
  seconds : JsString
  label : JsString
  signal : Option ℕ

/-- A call of `dispatchToAgent`, and the wait that is made for it. -/
structure DispatchCall where
  caller : ℕ
  message : MailboxMessage
  awaiting : Awaiting
  phase : DispatchPhase
  /-- No worker has taken the message yet. -/
  inMailbox : Bool

namespace DispatchCall

def taskId (d : DispatchCall) : JsString := d.message.taskId

/-- The arguments of the `wait` of the call, which is number `n`. -/
def wait (d : DispatchCall) (n : ℕ) : Wait :=
  if d.awaiting.fanOut then
    WaitAllCall.waitOf ⟨d.awaiting.seconds, d.awaiting.label, d.awaiting.signal⟩
      ⟨d.taskId, n, fun _ => none⟩
  else ⟨d.taskId, d.awaiting.seconds, d.awaiting.label, d.awaiting.signal⟩

end DispatchCall

/-- A record a worker has published. -/
structure BrokerRecord where
  queue : Queue
  taskId : JsString
  data : MessageData

/-- What a router, its callers, the workers and the broker have got to.  A call of
`dispatchToAgent` and the wait for it have one number. -/
structure Dispatching where
  router : Router
  dispatches : List DispatchCall
  /-- The records the broker has not handed on. -/
  records : List BrokerRecord
  -- history: the records published, and whether the wait for their task had not timed out
  published : List (BrokerRecord × Bool)
  -- history: the tasks whose record was handed on, and those whose wait has timed out
  handed : List JsString
  timedOut : List JsString

inductive DispatchEvent where
  | dispatches (caller : ℕ) (taskId agentId : JsString) (params : DispatchParams)
      (awaiting : Awaiting)
  | takesEffect (n : ℕ)
  | returns (n : ℕ)
  | throws (n : ℕ)
  /-- A worker publishes a record for a task of its mailbox. -/
  | processes (n : ℕ) (q : Queue) (data : MessageData)
  /-- The broker hands a record to the router. -/
  | hands (i : ℕ)
  /-- The caller waits for the tasks it has dispatched. -/
  | waits (caller : ℕ)
  | timer (n : ℕ)

namespace Dispatching

def init : Dispatching := ⟨.init, [], [], [], [], []⟩

/-- One call goes on. -/
def touch (s : Dispatching) (n : ℕ) (f : DispatchCall → DispatchCall) : Dispatching :=
  { s with dispatches := s.dispatches.modify n f }

/-- The call is one its caller has the id of, and has not waited for. -/
def awaited (caller : ℕ) (d : DispatchCall) : Bool :=
  d.caller = caller ∧ d.phase = .returned

/-- The waits of a caller, with their numbers. -/
def waitsOf (s : Dispatching) (caller : ℕ) : List (ℕ × Wait) :=
  (s.dispatches.zipIdx.filter fun p => awaited caller p.1).map fun p => (p.2, p.1.wait p.2)

/-- The caller still waits for a publish, or one has failed. -/
def unresolved (s : Dispatching) (caller : ℕ) : Bool :=
  s.dispatches.any fun d =>
    d.caller = caller ∧ (d.phase = .publishing ∨ d.phase = .effective ∨ d.phase = .thrown)

def step (s : Dispatching) : DispatchEvent → Option Dispatching
  | .dispatches caller taskId agentId params awaiting =>
      -- `randomUUID()` gives an id that was not given before.
      if taskId ∈ s.dispatches.map DispatchCall.taskId then none
      else some { s with
        dispatches := s.dispatches ++
          [⟨caller, dispatchToAgent taskId agentId params, awaiting, .publishing, false⟩] }
  | .takesEffect n =>
      match s.dispatches[n]? with
      | some d =>
          if d.phase = .publishing then
            some (s.touch n fun d => { d with phase := .effective, inMailbox := true })
          else none
      | none => none
  | .returns n =>
      match s.dispatches[n]? with
      | some d =>
          if d.phase = .effective then some (s.touch n fun d => { d with phase := .returned })
          else none
      | none => none
  | .throws n =>
      match s.dispatches[n]? with
      | some d =>
          if d.phase = .publishing ∨ d.phase = .effective then
            some (s.touch n fun d => { d with phase := .thrown })
          else none
      | none => none
  | .processes n q data =>
      match s.dispatches[n]? with
      | some d =>
          if d.inMailbox then
            some { s.touch n fun d => { d with inMailbox := false } with
              records := s.records ++ [⟨q, d.taskId, data⟩]
              published := s.published ++
                [(⟨q, d.taskId, data⟩, decide (d.taskId ∉ s.timedOut))] }
          else none
      | none => none
  | .hands i =>
      match s.records[i]? with
      | some r =>
          if s.router.subscribed r.queue then
            (s.router.step (KafkaRouter.handled r.taskId r.data r.queue)).map fun router =>
              { s with
                router := router
                records := s.records.eraseIdx i
                handed := s.handed ++ [r.taskId] }
          else none
      | none => none
  | .waits caller =>
      if s.unresolved caller then none
      else
        (Steps.run Router.step s.router
          ((s.waitsOf caller).map fun w => .wait w.1 w.2 fun _ => none)).map fun router =>
            { s with
              router := router
              dispatches := s.dispatches.map fun d =>
                if awaited caller d then { d with phase := .waiting } else d }
  | .timer n =>
      match s.dispatches[n]? with
      | some d =>
          if s.records.any fun r => r.taskId = d.taskId then none
          else
            (s.router.step (.timer n)).map fun router =>
              { s with router := router, timedOut := s.timedOut ++ [d.taskId] }
      | none => none

end Dispatching

end Kaiban
