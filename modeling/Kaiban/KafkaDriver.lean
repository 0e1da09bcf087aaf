/-
The Kafka driver, and a completion router on two of them.

A `subscribe` of the driver makes three calls of its consumer, one after another, and any of
them may fail.  What the driver makes of the bytes of a message is left out: a message of the
router's is one its handler is called with.
-/
import Kaiban.Router

open JsString

namespace Kaiban

/-- The calls of the consumer a `subscribe` makes, in order. -/
inductive ConsumerCall where
  | connect
  | subscribe
  | run
  deriving DecidableEq

/-- A `KafkaDriver`. -/
structure KafkaDriver where
  producerConnected : Bool
  consumerConnected : Bool
  subscribedTopic : Option JsString
  deriving DecidableEq

inductive SubscribeError where
  /-- The guard of `subscribe`. -/
  | singleTopic
  | consumer (call : ConsumerCall) (message : JsString)
  deriving DecidableEq

def SubscribeError.message : SubscribeError → JsString
  | singleTopic => js "KafkaDriver supports a single topic per driver; create a separate " ++
      js "driver for additional topics"
  | consumer _ message => message

namespace KafkaDriver

def init : KafkaDriver := ⟨false, false, none⟩

/-- The driver once a call has succeeded, and the call it makes then. -/
def succeeded (d : KafkaDriver) (topic : JsString) : ConsumerCall →
    KafkaDriver × Option ConsumerCall
  | .connect => ({ d with consumerConnected := true }, some .subscribe)
  | .subscribe => ({ d with subscribedTopic := some topic }, some .run)
  | .run => (d, none)

/-- `subscribe(topic, handler)`: `failure` is what a call of the consumer fails with. -/
def subscribe (d : KafkaDriver) (topic : JsString) (failure : ConsumerCall → Option JsString) :
    Except SubscribeError Unit × KafkaDriver :=
  if d.subscribedTopic ≠ none then (.error .singleTopic, d)
  else
    match failure .connect with
    | some message => (.error (.consumer .connect message), d)
    | none =>
        let d := (d.succeeded topic .connect).1
        match failure .subscribe with
        | some message => (.error (.consumer .subscribe message), d)
        | none =>
            let d := (d.succeeded topic .subscribe).1
            match failure .run with
            | some message => (.error (.consumer .run message), d)
            | none => (.ok (), d)

/-- `unsubscribe(topic)`: `failure` is what `consumer.disconnect()` fails with. -/
def unsubscribe (d : KafkaDriver) (failure : Option JsString) :
    Except JsString Unit × KafkaDriver :=
  match if d.consumerConnected then failure else none with
  | some message => (.error message, d)
  | none => (.ok (), { d with consumerConnected := false, subscribedTopic := none })

/-- `disconnect()`. -/
def disconnect (d : KafkaDriver) (producerFailure failure : Option JsString) :
    Except JsString Unit × KafkaDriver :=
  match if d.producerConnected then producerFailure else none with
  | some message => (.error message, d)
  | none => { d with producerConnected := false }.unsubscribe failure

end KafkaDriver

/-! ### A router on two drivers -/

/-- How far a `subscribe` of a driver is. -/
inductive SubscribeCall where
  | awaits (call : ConsumerCall)
  /-- It was refused by the guard, which the router has not heard yet. -/
  | refused
  deriving DecidableEq

/-- The driver of a queue. -/
structure QueueChannel where
  driver : KafkaDriver
  call : Option SubscribeCall
  /-- The consumer runs: its messages come. -/
  running : Bool

namespace QueueChannel

def init : QueueChannel := ⟨.init, none, false⟩

/-- The router calls `subscribe`. -/
def begin (c : QueueChannel) : QueueChannel :=
  { c with call := some (if c.driver.subscribedTopic ≠ none then .refused else .awaits .connect) }

/-- A call of the consumer has succeeded. -/
def proceed (c : QueueChannel) (topic : JsString) (call : ConsumerCall) : QueueChannel :=
  let (driver, next) := c.driver.succeeded topic call
  ⟨driver, next.map SubscribeCall.awaits, c.running || next.isNone⟩

end QueueChannel

/-- `completedSubscribed`, `failedSubscribed`. -/
def Router.subscribed (s : Router) : Queue → Bool
  | .completed => s.completedSubscribed
  | .failed => s.failedSubscribed

/-- A router and its drivers, one for each queue. -/
structure KafkaRouter where
  router : Router
  channels : Queue → QueueChannel

inductive KafkaEvent where
  | wait (w : ℕ) (wt : Wait)
  | message (q : Queue) (taskId : JsString) (data : MessageData)
  | timer (w : ℕ)
  | abort (sig : ℕ) (reason : AbortReason)
  /-- The consumer of a queue answers a call, with a failure or not. -/
  | answered (q : Queue) (failure : Option JsString)
  /-- The router hears that the guard refused a `subscribe`. -/
  | refused (q : Queue)

namespace KafkaRouter

def init : KafkaRouter := ⟨.init, fun _ => .init⟩

/-- The driver of a queue changes. -/
def setChannel (s : KafkaRouter) (q : Queue) (c : QueueChannel) : KafkaRouter :=
  { s with channels := fun x => if x = q then c else s.channels x }

/-- The router after an event of its own: it calls `subscribe` where it sets its flag. -/
def withRouter (s : KafkaRouter) (r : Router) : KafkaRouter where
  router := r
  channels q :=
    if !s.router.subscribed q && r.subscribed q then (s.channels q).begin else s.channels q

/-- What the handler of a queue is called with. -/
def handled (taskId : JsString) (data : MessageData) : Queue → RouterEvent
  | .completed => .completed taskId data
  | .failed => .failed taskId data

/-- The `subscribe` of a queue is rejected. -/
def rejected (s : KafkaRouter) (q : Queue) (message : JsString) : Option KafkaRouter :=
  (s.router.step (.subscribeRejected q message)).map fun r =>
    { s with router := r }.setChannel q { s.channels q with call := none }

def step (s : KafkaRouter) : KafkaEvent → Option KafkaRouter
  | .wait w wt => (s.router.step (.wait w wt fun _ => none)).map s.withRouter
  | .message q taskId data =>
      if (s.channels q).running then
        (s.router.step (handled taskId data q)).map s.withRouter
      else none
  | .timer w => (s.router.step (.timer w)).map s.withRouter
  | .abort sig reason => (s.router.step (.abort sig reason)).map s.withRouter
  | .answered q failure =>
      match (s.channels q).call, failure with
      | some (.awaits call), none =>
          some (s.setChannel q ((s.channels q).proceed q.name call))
      | some (.awaits _), some message => s.rejected q message
      | _, _ => none
  | .refused q =>
      match (s.channels q).call with
      | some .refused => s.rejected q SubscribeError.singleTopic.message
      | _ => none

end KafkaRouter

end Kaiban
