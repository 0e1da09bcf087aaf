/-
Agents, their mailboxes, and an operator who replays what failed.

A mailbox keeps its messages, so that one may be delivered again and again.  Agents of one
id read one mailbox.  The operator picks dead letters by the delivery that left them, in any
order and as often as he likes, and what `replayDlq` publishes goes onto the mailboxes like
any other message; so a task may fail, be replayed and fail again without end.
-/
import Kaiban.DlqReplay
import Kaiban.Proofs.Actor.Reactions

open JsString

namespace Kaiban

/-- A message and the queue it was published on. -/
structure Mail where
  queue : JsString
  payload : Payload

/-- A message of `replayDlq(deps)`, published at `now`. -/
def ReplayMessage.mail (now : Decimal) (m : ReplayMessage) : Mail :=
  ⟨m.queue, m.payload.taskId, m.payload.agentId, m.payload.data, .finite now⟩

structure ReplayLoop where
  mail : List Mail
  agents : ℕ → Actor

inductive ReplayLoopEvent where
  /-- A client publishes a task. -/
  | dispatch (m : Mail)
  /-- Message `i` is delivered to agent `n`. -/
  | deliver (n d i : ℕ) (breakerOpen : Bool)
  | act (n d : ℕ) (a : Act)
  | emergencyStop (n : ℕ) (stoppedAt : Decimal)
  | stop (n : ℕ)
  /-- The operator replays what these deliveries left, each given as its agent and itself. -/
  | replay (poison : JsString → Bool) (picked : List (ℕ × ℕ)) (now : Decimal)

namespace ReplayLoop

def init : ReplayLoop := ⟨[], fun _ => Actor.init⟩

/-- The dead letters of a delivery. -/
def letters (s : ReplayLoop) (failed : ℕ × ℕ) : List DlqRecord :=
  ((s.agents failed.1).deliveries failed.2).elim [] fun del =>
    (deadLetters del.calls).map Record.dlqRecord

/-- A step of agent `n`. -/
def agent (cfg : ℕ → ActorConfig) (s : ReplayLoop) (n : ℕ) (e : ActorEvent) : Option ReplayLoop :=
  ((s.agents n).step (cfg n) e).map fun a =>
    { s with agents := fun x => if x = n then a else s.agents x }

/-- One event.  A member `__proto__` of a task would become the prototype of what a replay
restores, and such tasks are left out. -/
def step (cfg : ℕ → ActorConfig) (s : ReplayLoop) : ReplayLoopEvent → Option ReplayLoop
  | .dispatch m =>
      if Json.get m.payload.data (js "__proto__") = none then some { s with mail := s.mail ++ [m] }
      else none
  | .deliver n d i breakerOpen =>
      match s.mail[i]? with
      | none => none
      | some m =>
          if m.queue = defaultQueueFor (cfg n).id then
            s.agent cfg n (.deliver d m.payload breakerOpen)
          else none
  | .act n d a => s.agent cfg n (.act d a)
  | .emergencyStop n stoppedAt => s.agent cfg n (.emergencyStop stoppedAt)
  | .stop n => s.agent cfg n .stop
  | .replay poison picked now =>
      (replayDlq poison defaultQueueFor (picked.flatMap s.letters)).map fun r =>
        { s with mail := s.mail ++ r.2.map (ReplayMessage.mail now) }

end ReplayLoop

end Kaiban
