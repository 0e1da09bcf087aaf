/-
The rounds of human decisions: the gateway, the two ways a decision travels, and the waits.

The gateway pushes a decision on the task's list and then publishes it, each when Redis has
answered the one before.  A wait holds a subscription of its own and polls the list of its
task.  Waits come one after the other; the clients of an earlier one are gone.

A decision is known by its place among those submitted.  What a list loses, by expiry or to
a client that is gone, is given from outside.
-/
import Kaiban.Hitl

open JsString

namespace Kaiban

/-- Where a call of `forwardHitlDecision` is: what it does next. -/
inductive ForwardStage where
  | push
  | expire
  | publish
  | ended
  deriving DecidableEq

/-- A call of `forwardHitlDecision`, and the time of the envelope of its message. -/
structure HitlForward where
  taskId : JsString
  decision : JsString
  signedAt : ℕ
  stage : ForwardStage

/-- The message, `wrapSigned({ taskId, decision })`. -/
def HitlForward.msg (sg : Signing) (f : HitlForward) : JsString :=
  wrapSigned sg f.signedAt (.obj [(js "taskId", .str f.taskId), (js "decision", .str f.decision)])

structure HitlRounds (ρ : Type) where
  forwards : List HitlForward
  /-- The list of each task, pushed to at its head and popped at its end. -/
  lists : JsString → List ℕ
  /-- The last wait. -/
  wait : Option (HitlWait ρ)
  subscribed : Bool
  /-- Published to the subscription of the wait, and not handed to it yet. -/
  inbox : List ℕ
  /-- Popped by the poll of the wait, and not handed to it yet. -/
  reply : Option ℕ
  -- history: how many waits there were, and which of them a decision of the board resolved
  rounds : ℕ
  uses : List (ℕ × ℕ)

inductive HitlRoundsEvent (ρ : Type) where
  /-- `forwardHitlDecision(taskId, decision)`. -/
  | forward (taskId decision : JsString) (signedAt : ℕ)
  /-- The call's next command is carried out. -/
  | command (i : ℕ)
  /-- The call learns that its command failed. -/
  | fails (i : ℕ)
  /-- Only the newest items of the list are left. -/
  | forgotten (taskId : JsString) (left : ℕ)
  /-- `waitForHITLDecision(opts)`. -/
  | begins (opts : HitlOptions ρ)
  | subscribed
  /-- Redis pops the list for the wait's poll. -/
  | brpop
  /-- The subscriber hands the wait its next message. -/
  | message (now : ℕ)
  /-- The wait's `brpop` gives what was popped. -/
  | popped (now : ℕ)
  /-- Anything else happens to the wait. -/
  | waits (e : HitlEvent ρ)

namespace HitlRounds

variable {ρ : Type}

def init (ρ : Type) : HitlRounds ρ := ⟨[], fun _ => [], none, false, [], none, 0, []⟩

/-- A list changes. -/
def setList (s : HitlRounds ρ) (taskId : JsString) (items : List ℕ) : HitlRounds ρ :=
  { s with lists := fun k => if k = taskId then items else s.lists k }

/-- The call goes on to a stage. -/
def setStage (s : HitlRounds ρ) (i : ℕ) (stage : ForwardStage) : HitlRounds ρ :=
  { s with forwards := s.forwards.modify i fun f => { f with stage } }

/-- The next command of a call. -/
def command (s : HitlRounds ρ) (i : ℕ) (f : HitlForward) : Option (HitlRounds ρ) :=
  match f.stage with
  | .push => some ((s.setStage i .expire).setList f.taskId (i :: s.lists f.taskId))
  | .expire => some (s.setStage i .publish)
  | .publish =>
      some { s.setStage i .ended with inbox := if s.subscribed then s.inbox ++ [i] else s.inbox }
  | .ended => none

/-- The wait is handed the message of a decision. -/
def handed (sg : Signing) (s : HitlRounds ρ) (i : ℕ) (event : JsString → HitlEvent ρ) :
    Option (HitlRounds ρ) :=
  match s.wait, s.forwards[i]? with
  | some w, some f =>
      (w.step sg (event (f.msg sg))).map fun w' =>
        { s with wait := some w',
                 uses := if !w.resolved && w'.resolved then s.uses ++ [(s.rounds, i)] else s.uses }
  | _, _ => none

/-- No wait is open. -/
def idle (s : HitlRounds ρ) : Bool :=
  match s.wait with
  | none => true
  | some w => w.resolved

/-- A message of the board, which comes to a wait by the two paths alone. -/
def boardEvent : HitlEvent ρ → Bool
  | .message .. => true
  | .popped .. => true
  | _ => false

def step (sg : Signing) (s : HitlRounds ρ) : HitlRoundsEvent ρ → Option (HitlRounds ρ)
  | .forward taskId decision signedAt =>
      some { s with forwards := s.forwards ++ [⟨taskId, decision, signedAt, .push⟩] }
  | .command i =>
      match s.forwards[i]? with
      | none => none
      | some f => s.command i f
  | .fails i =>
      match s.forwards[i]? with
      | none => none
      | some _ => some (s.setStage i .ended)
  | .forgotten taskId left => some (s.setList taskId ((s.lists taskId).take left))
  | .begins opts =>
      if s.idle then
        some { s with wait := some (HitlWait.start opts), subscribed := false, inbox := [],
                      reply := none, rounds := s.rounds + 1 }
      else none
  | .subscribed => some { s with subscribed := true }
  | .brpop =>
      match s.wait, s.reply with
      | some w, none =>
          if w.poller = .polling then
            match (s.lists w.taskId).getLast? with
            | none => none
            | some i =>
                some { s.setList w.taskId (s.lists w.taskId).dropLast with reply := some i }
          else none
      | _, _ => none
  | .message now =>
      match s.inbox with
      | [] => none
      | i :: rest => handed sg { s with inbox := rest } i fun raw => .message raw now
  | .popped now =>
      match s.reply with
      | none => none
      | some i => handed sg { s with reply := none } i fun raw => .popped raw now
  | .waits e =>
      if boardEvent e then none
      else
        match s.wait with
        | none => none
        | some w => (w.step sg e).map fun w' => { s with wait := some w' }

end HitlRounds

end Kaiban
