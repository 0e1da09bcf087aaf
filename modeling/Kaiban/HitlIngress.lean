/-
The gateway's side of a board connection: decisions and requests for the state.

A decision is checked and counted in one go, and then forwarded in three commands, each sent
when Redis has answered the one before.  Every connection has its own two windows.

A command that fails may still have been carried out: what is kept of Redis here is what it
answered to.
-/
import Kaiban.HitlRounds

open JsString

namespace Kaiban

/-! ### What a board may send -/

/-- A unit of `TASK_ID_PATTERN`. -/
def isTaskIdUnit (u : CodeUnit) : Bool :=
  (unit 'A' ≤ u && u ≤ unit 'Z') || (unit 'a' ≤ u && u ≤ unit 'z') ||
    NumberText.isDigit u || u ∈ js "._:-"

/-- `TASK_ID_PATTERN.test(taskId)`. -/
def isTaskId (taskId : JsString) : Bool :=
  1 ≤ taskId.length && taskId.length ≤ 200 && taskId.all isTaskIdUnit

/-- `hitlPayloadError(payload, validDecisions)`, or the fields of a payload without an error. -/
def hitlPayload (validDecisions : List JsString) : Option Json →
    Except JsString (JsString × JsString)
  | some (.obj ms) =>
      match textMember ms (js "taskId"), textMember ms (js "decision") with
      | some taskId, some decision =>
          if !isTaskId taskId then .error (js "invalid taskId")
          else if decision ∉ validDecisions then
            .error (js "invalid decision value: " ++ decision)
          else .ok (taskId, decision)
      | _, _ => .error (js "invalid taskId or decision")
  | some (.arr _) => .error (js "invalid taskId or decision")
  | _ => .error (js "invalid payload")

/-- `DEFAULT_DECISIONS`. -/
def defaultDecisions : List JsString := [js "PUBLISH", js "REVISE", js "REJECT"]

/-! ### The windows -/

/-- `admit(sentAt, max, windowMs)` at the time `now`. -/
def admitAt (sentAt : List ℕ) (max windowMs now : ℕ) : Bool × List ℕ :=
  let sentAt := sentAt.dropWhile fun t => t + windowMs ≤ now
  if max ≤ sentAt.length then (false, sentAt) else (true, sentAt ++ [now])

/-- `HITL_MAX_PER_WINDOW` and `HITL_WINDOW_MS`. -/
def hitlMaxPerWindow : ℕ := 10

def hitlWindowMs : ℕ := 10000

/-- `SNAPSHOT_MAX_PER_WINDOW` and `SNAPSHOT_WINDOW_MS`. -/
def snapshotMaxPerWindow : ℕ := 5

def snapshotWindowMs : ℕ := 10000

/-! ### The connections -/

/-- What the board's callback is called with. -/
inductive HitlResponse where
  | ok
  | failed (error : JsString)
  deriving DecidableEq

/-- A decision that a board has sent. -/
structure HitlCall where
  socket : ℕ
  /-- `ackOf(ack)` is a function. -/
  hasAck : Bool
  /-- Why it is refused, or the task and the decision that are forwarded. -/
  request : Except JsString (JsString × JsString)
  /-- The command that Redis has not answered yet. -/
  next : ForwardStage
  responses : List HitlResponse

structure HitlGateway where
  sentAt : ℕ → List ℕ
  snapshotAt : ℕ → List ℕ
  calls : List HitlCall
  -- history: when a connection had a decision admitted or the state sent, and the commands
  -- that Redis has answered
  admitted : ℕ → List ℕ
  replayed : ℕ → List ℕ
  redis : List (ℕ × ForwardStage)

inductive HitlIngressEvent where
  /-- A board sends `HITL_SOCKET_EVENT`. -/
  | decision (socket : ℕ) (payload : Option Json) (hasAck : Bool) (now : ℕ)
  /-- A board sends `STATE_EVENT_REQUEST`. -/
  | requestState (socket : ℕ) (now : ℕ)
  /-- Redis answers the command of a call, or the command fails. -/
  | redis (i : ℕ) (ok : Bool)

/-- The reading of the clock. -/
def HitlIngressEvent.time : HitlIngressEvent → Option ℕ
  | .decision _ _ _ now | .requestState _ now => some now
  | .redis _ _ => none

/-- `ack?.(response)`. -/
def HitlCall.answer (c : HitlCall) (response : HitlResponse) : HitlCall :=
  { c with
    next := .ended
    responses := if c.hasAck then c.responses ++ [response] else c.responses }

namespace HitlGateway

def init : HitlGateway := ⟨fun _ => [], fun _ => [], [], fun _ => [], fun _ => [], []⟩

/-- `handleHitlDecision(socket, sentAt, payload, ack)`, up to the first command. -/
def handleHitlDecision (validDecisions : List JsString) (s : HitlGateway) (socket : ℕ)
    (payload : Option Json) (hasAck : Bool) (now : ℕ) : HitlGateway :=
  match hitlPayload validDecisions payload with
  | .error error =>
      let c : HitlCall := ⟨socket, hasAck, .error error, .ended, []⟩
      { s with calls := s.calls ++ [c.answer (.failed error)] }
  | .ok fields =>
      let (admitted, sentAt) := admitAt (s.sentAt socket) hitlMaxPerWindow hitlWindowMs now
      let s := { s with sentAt := fun k => if k = socket then sentAt else s.sentAt k }
      if admitted then
        { s with
          admitted := fun k => if k = socket then s.admitted k ++ [now] else s.admitted k
          calls := s.calls ++ [⟨socket, hasAck, .ok fields, .push, []⟩] }
      else
        let error := js "rate limited"
        let c : HitlCall := ⟨socket, hasAck, .error error, .ended, []⟩
        { s with calls := s.calls ++ [c.answer (.failed error)] }

/-- The board asks for the state. -/
def requestState (s : HitlGateway) (socket now : ℕ) : HitlGateway :=
  let (admitted, snapshotAt) :=
    admitAt (s.snapshotAt socket) snapshotMaxPerWindow snapshotWindowMs now
  let s := { s with snapshotAt := fun k => if k = socket then snapshotAt else s.snapshotAt k }
  if admitted then
    { s with replayed := fun k => if k = socket then s.replayed k ++ [now] else s.replayed k }
  else s

/-- `forwardHitlDecision(taskId, decision, ack)` goes on. -/
def forward (c : HitlCall) : Bool → HitlCall
  | false => c.answer (.failed (js "Redis write failed"))
  | true =>
      match c.next with
      | .push => { c with next := .expire }
      | .expire => { c with next := .publish }
      | .publish => c.answer .ok
      | .ended => c

def step (validDecisions : List JsString) (s : HitlGateway) :
    HitlIngressEvent → Option HitlGateway
  | .decision socket payload hasAck now =>
      some (s.handleHitlDecision validDecisions socket payload hasAck now)
  | .requestState socket now => some (s.requestState socket now)
  | .redis i ok =>
      match s.calls[i]? with
      | none => none
      | some c =>
          if c.next = .ended then none
          else some { s with
            calls := s.calls.set i (forward c ok)
            redis := if ok then s.redis ++ [(i, c.next)] else s.redis }

end HitlGateway

end Kaiban
