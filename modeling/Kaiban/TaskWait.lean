/-
How long a task takes: the wait of its caller, and an agent with a clock.

One delivery is watched from the start of its execution.  An attempt takes as long as its
handler does, up to its timer, and the back-off takes its time; every other stage of the
delivery is left as soon as it is entered, a publish included.  What happens to other
deliveries takes any time.
-/
import Kaiban.Actor

open JsString

namespace Kaiban

/-- `MAX_TIMER_MS`. -/
def maxTimerMs : Decimal := .ofInt 2147483647

/-- `RETRY_BASE_DELAY_MS`. -/
def retryBaseDelayMs : Decimal := .ofInt 100

/-- `TASK_WAIT_MARGIN_MS`. -/
def taskWaitMarginMs : Decimal := .ofInt 5000

/-- `taskWaitMs(attemptTimeoutMs, retryOnTimeout)`. -/
def taskWaitMs (attemptTimeoutMs : Decimal) (retryOnTimeout : Bool) : Decimal :=
  if !retryOnTimeout then min attemptTimeoutMs maxTimerMs
  else
    let total := retryAttempts • attemptTimeoutMs + taskWaitMarginMs
    let total := (List.range' 1 (retryAttempts - 1)).foldl
      (fun total attempt => total + attempt • retryBaseDelayMs) total
    min total maxTimerMs

/-! ### The clock -/

/-- A stage, as far as time goes. -/
inductive Phase where
  | guarded
  | starting (attempt : ℕ)
  | running (attempt : ℕ)
  /-- The race of the attempt is decided. -/
  | decided (attempt : ℕ)
  | publishing (attempt : ℕ)
  | backoff (attempt : ℕ)
  | recording
  | ended
  deriving DecidableEq

def Stage.phase : Stage → Phase
  | .firewall => .guarded
  | .gate => .guarded
  | .starting k => .starting k
  | .running k none => .running k
  | .running k (some _) => .decided k
  | .publishing k => .publishing k
  | .backoff k => .backoff k
  | .recording _ => .recording
  | .ended _ => .ended

/-- The time at which a phase that was entered at `since` is left at the latest. -/
def Phase.deadline (t : Decimal) (since : ℚ) : Phase → Option ℚ
  | .guarded => none
  | .starting _ => some since
  | .running _ => some (since + t)
  | .decided _ => some since
  | .publishing _ => some since
  | .backoff k => some (since + k * retryBaseDelayMs)
  | .recording => some since
  | .ended => none

/-- An agent, and the clock of one delivery. -/
structure Timed where
  actor : Actor
  now : ℚ
  /-- When the delivery entered its phase. -/
  since : ℚ
  /-- When its outcome was recorded. -/
  outcome : Option ℚ

inductive TimedEvent where
  | passes (now : ℚ)
  | event (e : ActorEvent)

/-- A timer of the delivery fires. -/
def ActorEvent.fires (d : ℕ) : ActorEvent → Bool
  | .act x .timer => x = d
  | .act x .delayed => x = d
  | _ => false

/-- A record of the delivery is published. -/
def ActorEvent.records (d : ℕ) : ActorEvent → Bool
  | .act x (.published (.ok ())) => x = d
  | _ => false

namespace Timed

/-- `executeWithRetries` is called. -/
def start (s : Actor) : Timed := ⟨s, 0, 0, none⟩

def phase (d : ℕ) (s : Actor) : Phase :=
  match s.deliveries d with
  | none => .guarded
  | some del => del.stage.phase

def deadline (cfg : ActorConfig) (d : ℕ) (w : Timed) : Option ℚ :=
  (phase d w.actor).deadline cfg.taskTimeoutMs w.since

/-- The agent is in another state at the same time. -/
def reacted (d : ℕ) (w : Timed) (e : ActorEvent) (s : Actor) : Timed where
  actor := s
  now := w.now
  since := if phase d s = phase d w.actor then w.since else w.now
  outcome := if e.records d then some w.now else w.outcome

/-- Time passes up to the deadline, and a timer fires when it is due. -/
def step (cfg : ActorConfig) (d : ℕ) (w : Timed) : TimedEvent → Option Timed
  | .passes now =>
      if w.now ≤ now ∧ ∀ due ∈ w.deadline cfg d, now ≤ due then some { w with now } else none
  | .event e =>
      if e.fires d = true → w.deadline cfg d = some w.now then
        (w.actor.step cfg e).map (w.reacted d e)
      else none

end Timed

end Kaiban
