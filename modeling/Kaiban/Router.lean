/-
The completion router: one subscription, and a waiter for each task.

A run is a list of events: a call of `wait`, a message on one of the two queues, a timer
that fires, a signal that aborts, a subscription that is refused.  Waits, and with them
their promises and timers, are numbered; a map entry holds the number of the wait whose
`resolve`, `reject` or timer it is.

Every call of a `resolve` or `reject` is appended to `settlements`.  A promise keeps the
first.
-/
import Kaiban.Completion
import Kaiban.Lib.OrderedMap

open JsString

namespace Kaiban

inductive Queue where
  | completed
  | failed
  deriving DecidableEq

def Queue.name : Queue → JsString
  | .completed => js "kaiban-events-completed"
  | .failed => js "kaiban-events-failed"

inductive WaitError where
  | error (message : JsString)
  | emergencyStop (message : JsString)
  deriving DecidableEq

inductive Settlement where
  | resolved (result : JsString)
  | rejected (err : WaitError)
  deriving DecidableEq

/-- `signal.reason`, as far as the router looks at it. -/
inductive AbortReason where
  | emergencyStop (message : JsString)
  | other
  deriving DecidableEq

/-- `abortError(signal, label)`. -/
def abortError (reason : AbortReason) (label : JsString) : WaitError :=
  match reason with
  | .emergencyStop message => .emergencyStop message
  | .other => .error (js "Aborted wait for " ++ label)

/-- The arguments of a call of `wait`. -/
structure Wait where
  taskId : JsString
  /-- `timeoutMs / 1000`, as text. -/
  seconds : JsString
  label : JsString
  signal : Option ℕ

def Wait.timeoutError (wt : Wait) : WaitError :=
  .error (js "Timeout waiting for " ++ wt.label ++ js " (" ++ wt.seconds ++ js "s)\n"
    ++ js "Tip: increase RESEARCH_WAIT_MS / WRITE_WAIT_MS / EDIT_WAIT_MS")

def Wait.duplicateError (wt : Wait) : WaitError :=
  .error (js "Duplicate wait() for in-flight taskId: " ++ wt.taskId)

/-- `data[k] ?? fallback`. -/
def memberOr (data : MessageData) (k : JsString) (fallback : Json) : Json :=
  match Json.get data k with
  | none => fallback
  | some .null => fallback
  | some v => v

/-- What a dead-letter record is turned into, or none when `String` throws on its error. -/
def failureError (data : MessageData) : Option WaitError :=
  (Json.toText (memberOr data (js "error") (.str (js "Task failed after max retries")))).map
    fun errMsg =>
      let detail := match Json.get data (js "reason") with
        | some (.str (u :: reason)) => js " — " ++ (u :: reason)
        | _ => []
      let message := js "Agent failed: " ++ errMsg ++ detail
      if errMsg = js "emergency_stop" then .emergencyStop message else .error message

/-- A `CompletionRouter`, its waits, timers and signals. -/
structure Router where
  pendingResolve : OrderedMap JsString ℕ
  pendingReject : OrderedMap JsString ℕ
  timers : OrderedMap JsString ℕ
  completedSubscribed : Bool
  failedSubscribed : Bool
  /-- The calls of `subscribe` that are not answered yet. -/
  subscribing : List Queue
  waits : ℕ → Option Wait
  /-- The waits whose timer runs. -/
  armed : List ℕ
  aborted : ℕ → Option AbortReason
  /-- The abort listeners of a signal, as they were added. -/
  listeners : ℕ → List ℕ
  settlements : List (ℕ × Settlement)

namespace Router

def init : Router where
  pendingResolve := .empty
  pendingReject := .empty
  timers := .empty
  completedSubscribed := false
  failedSubscribed := false
  subscribing := []
  waits := fun _ => none
  armed := []
  aborted := fun _ => none
  listeners := fun _ => []
  settlements := []

/-- A call of the `resolve` or `reject` of a wait. -/
def settle (s : Router) (w : ℕ) (r : Settlement) : Router :=
  { s with settlements := s.settlements ++ [(w, r)] }

def Settled (s : Router) (w : ℕ) : Prop := w ∈ s.settlements.map Prod.fst

/-- `clearPending(taskId)`. -/
def clearPending (s : Router) (taskId : JsString) : Router :=
  { s with
    pendingResolve := s.pendingResolve.erase taskId
    pendingReject := s.pendingReject.erase taskId
    timers := s.timers.erase taskId
    armed := match s.timers.get taskId with
      | none => s.armed
      | some w => s.armed.filter fun x => x ≠ w }

/-- `rejectAllPending(err)`, over the entries there were when it was called. -/
def rejectAll (err : WaitError) (s : Router) (entries : List (JsString × ℕ)) : Router :=
  entries.foldl (fun s e => (s.clearPending e.1).settle e.2 (.rejected err)) s

def rejectAllPending (s : Router) (err : WaitError) : Router :=
  rejectAll err s s.pendingReject.entries

def setSubscribed (s : Router) (q : Queue) (b : Bool) : Router :=
  match q with
  | .completed => { s with completedSubscribed := b }
  | .failed => { s with failedSubscribed := b }

/-- The `failed` of `subscribeWithRecovery`. -/
def subscribeFailed (s : Router) (q : Queue) (message : JsString) : Router :=
  (s.setSubscribed q false).rejectAllPending
    (.error (js "Could not subscribe to " ++ q.name ++ js ": " ++ message))

/-- `subscribeWithRecovery` for a queue: `thrown` is the text of what the call of
`subscribe` throws, if it throws. -/
def subscribe (s : Router) (q : Queue) (thrown : Option JsString) : Router :=
  let s := s.setSubscribed q true
  match thrown with
  | none => { s with subscribing := s.subscribing ++ [q] }
  | some message => s.subscribeFailed q message

/-- `ensureSubscribed()`. -/
def ensureSubscribed (s : Router) (thrown : Queue → Option JsString) : Router :=
  let s := if s.completedSubscribed then s else s.subscribe .completed (thrown .completed)
  if s.failedSubscribed then s else s.subscribe .failed (thrown .failed)

/-- The abort listener of a wait, and likewise the callback of its timer: `err` is what it
rejects with. -/
def giveUp (s : Router) (w : ℕ) (err : Wait → WaitError) : Router :=
  match s.waits w with
  | none => s
  | some wt =>
      if (s.pendingResolve.get wt.taskId).isSome then
        (s.clearPending wt.taskId).settle w (.rejected (err wt))
      else s

/-- The entries, the timer and the abort listener a wait is registered with. -/
def register (s : Router) (w : ℕ) (wt : Wait) : Router :=
  { s with
    listeners := match wt.signal with
      | none => s.listeners
      | some sig => fun x => if x = sig then s.listeners x ++ [w] else s.listeners x
    pendingResolve := s.pendingResolve.set wt.taskId w
    pendingReject := s.pendingReject.set wt.taskId w
    timers := s.timers.set wt.taskId w
    armed := s.armed ++ [w] }

/-- The reason a wait's signal is aborted already. -/
def abortedAlready (s : Router) (wt : Wait) : Option AbortReason := wt.signal.bind s.aborted

/-- A call of `wait` gets its number. -/
def numbered (s : Router) (w : ℕ) (wt : Wait) : Router :=
  { s with waits := fun x => if x = w then some wt else s.waits x }

/-- `wait(taskId, timeoutMs, label, signal)`. -/
def wait (s : Router) (w : ℕ) (wt : Wait) (thrown : Queue → Option JsString) : Router :=
  let s := s.numbered w wt
  if (s.pendingResolve.get wt.taskId).isSome then s.settle w (.rejected wt.duplicateError)
  else
    match s.abortedAlready wt with
    | some reason => s.settle w (.rejected (abortError reason wt.label))
    | none => (s.register w wt).ensureSubscribed thrown

/-- The handler of the completed queue. -/
def onCompleted (s : Router) (taskId : JsString) (data : MessageData) : Router :=
  match s.pendingResolve.get taskId with
  | none => s
  | some w => (s.clearPending taskId).settle w (.resolved (completionText data))

/-- The handler of the failed queue. -/
def onFailed (s : Router) (taskId : JsString) (data : MessageData) : Router :=
  match s.pendingReject.get taskId with
  | none => s
  | some w =>
      match failureError data with
      | none => s.clearPending taskId
      | some err => (s.clearPending taskId).settle w (.rejected err)

/-- `controller.abort(reason)`: the listeners of the signal are called in order, once. -/
def abort (s : Router) (sig : ℕ) (reason : AbortReason) : Router :=
  (s.listeners sig).foldl (fun s w => s.giveUp w fun wt => abortError reason wt.label)
    { s with
      aborted := fun x => if x = sig then some reason else s.aborted x
      listeners := fun x => if x = sig then [] else s.listeners x }

end Router

inductive RouterEvent where
  | wait (w : ℕ) (wt : Wait) (thrown : Queue → Option JsString)
  | completed (taskId : JsString) (data : MessageData)
  | failed (taskId : JsString) (data : MessageData)
  | timer (w : ℕ)
  | abort (sig : ℕ) (reason : AbortReason)
  | subscribeRejected (q : Queue) (message : JsString)

namespace Router

def step (s : Router) : RouterEvent → Option Router
  | .wait w wt thrown => if (s.waits w).isSome then none else some (s.wait w wt thrown)
  | .completed taskId data => some (s.onCompleted taskId data)
  | .failed taskId data => some (s.onFailed taskId data)
  | .timer w =>
      if w ∈ s.armed then
        some ({ s with armed := s.armed.filter fun x => x ≠ w }.giveUp w Wait.timeoutError)
      else none
  | .abort sig reason =>
      if (s.aborted sig).isSome then none else some (s.abort sig reason)
  | .subscribeRejected q message =>
      if q ∈ s.subscribing then
        some ({ s with subscribing := s.subscribing.erase q }.subscribeFailed q message)
      else none

end Router

end Kaiban
