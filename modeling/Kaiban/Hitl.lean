/-
The wait for a human decision.

A wait is one promise that the board, the terminal and an abort of the signal race for.  The
board's messages come by pub/sub and from the task's list, which a loop polls.  The terminal
asks a question until it is answered with a decision; the readline interface holds the
callback of the question it has asked.

Which clients are connected, when a client reports an error and when a poll ends is given
from outside.
-/
import Kaiban.Control
import Kaiban.Orchestrator

open JsString

namespace Kaiban

/-- `HitlDecision`. -/
inductive HitlDecision where
  | publish
  | revise
  | reject
  deriving DecidableEq

def HitlDecision.word : HitlDecision → JsString
  | publish => js "PUBLISH"
  | revise => js "REVISE"
  | reject => js "REJECT"

/-- What `finish` can be called with. -/
inductive HitlAnswer where
  | decision (d : HitlDecision)
  /-- The property of that name which every object has. -/
  | inherited (name : JsString)
  deriving DecidableEq

/-- `HITL_LIST_MAX_AGE_MS`. -/
def hitlListMaxAgeMs : Decimal := .ofInt 300000

/-- `MAX_CLOCK_SKEW_MS`, for the messages of pub/sub. -/
def maxClockSkewMs : Decimal := .ofInt 30000

/-- `BOARD_DECISION_MAP[word]`. -/
def boardDecision (word : JsString) : Option HitlAnswer :=
  if word = HitlDecision.publish.word then some (.decision .publish)
  else if word = HitlDecision.revise.word then some (.decision .revise)
  else if word = HitlDecision.reject.word then some (.decision .reject)
  else if word ∈ inheritedNames then some (.inherited word)
  else none

/-- `parsed.taskId` and `parsed.decision`, where both are texts. -/
def boardFields : Json → Option (JsString × JsString)
  | .obj ms =>
      match textMember ms (js "taskId"), textMember ms (js "decision") with
      | some taskId, some decision => some (taskId, decision)
      | _, _ => none
  | _ => none

/-- `handleBoardMessage(msg, taskId, finish, maxAgeMs)`: what it calls `finish` with. -/
def handleBoardMessage (sg : Signing) (fresh : Freshness) (taskId msg : JsString) :
    Option HitlAnswer :=
  match (unwrapVerified sg fresh msg).bind boardFields with
  | none => none
  | some (id, decision) =>
      match boardDecision decision with
      | none => none
      | some answer => if id = taskId then some answer else none

/-- The decision a line typed at the terminal stands for. -/
def terminalDecision (answer : JsString) : Option HitlDecision :=
  let a := JsNumber.trim answer
  if a = js "1" then some .publish
  else if a = js "2" then some .revise
  else if a = js "3" then some .reject
  else none

/-! ### A wait -/

/-- The readline interface: it is closed, and it holds the callback of a question. -/
structure Readline where
  closed : Bool
  pending : Bool
  deriving DecidableEq

/-- `HitlOptions`, for a signal whose reason is a `ρ`; `onView` only prints. -/
structure HitlOptions (ρ : Type) where
  taskId : JsString
  /-- `rl`, and whether it is closed already. -/
  rl : Option Bool
  /-- `signal`, and its reason if it is aborted already. -/
  signal : Option (Option ρ)

/-- Where `runPoller` is. -/
inductive HitlPoller where
  | polling
  /-- It waits 500 ms after an error. -/
  | pausing
  | ended
  deriving DecidableEq

/-- A call of `resolve` or `reject` of the promise. -/
inductive HitlSettlement (ρ : Type) where
  | resolves (answer : HitlAnswer)
  | rejects (reason : ρ)
  deriving DecidableEq

/-- A call of `waitForHITLDecision`. -/
structure HitlWait (ρ : Type) where
  taskId : JsString
  resolved : Bool
  poller : HitlPoller
  rl : Option Readline
  inputClosed : Bool
  /-- The signal, and the reason it was aborted with. -/
  signal : Option (Option ρ)
  settlements : List (HitlSettlement ρ)
  -- history: the questions the terminal was asked
  questions : ℕ

namespace HitlWait

variable {ρ : Type}

/-- `ask()`; `rl.question` throws on a closed interface. -/
def ask (w : HitlWait ρ) : HitlWait ρ :=
  match w.rl with
  | none => w
  | some rl =>
      if rl.closed then w
      else { w with rl := some { rl with pending := true }, questions := w.questions + 1 }

/-- `releasePrompt(rl)`.  The callback that gets the empty line finds the wait resolved and
returns; a closed interface throws. -/
def releasePrompt (w : HitlWait ρ) : HitlWait ρ :=
  { w with rl := w.rl.map fun rl => { rl with pending := rl.pending && rl.closed } }

/-- `settle()`, the release of the prompt, and the call of `resolve` or `reject`. -/
def settle (w : HitlWait ρ) (settlement : HitlSettlement ρ) : HitlWait ρ :=
  { releasePrompt { w with resolved := true } with settlements := w.settlements ++ [settlement] }

/-- `finish(decision)`. -/
def finish (w : HitlWait ρ) (answer : HitlAnswer) : HitlWait ρ :=
  if w.resolved then w else w.settle (.resolves answer)

/-- A board message is handled: `finish` is called, or it is not. -/
def board (w : HitlWait ρ) (answer : Option HitlAnswer) : HitlWait ρ :=
  match answer with
  | none => w
  | some a => w.finish a

/-- The condition of the polling loop is evaluated. -/
def poll (w : HitlWait ρ) : HitlWait ρ :=
  { w with poller := if w.resolved then .ended else .polling }

/-- `waitForHITLDecision(opts)`, up to the first thing that happens. -/
def start (opts : HitlOptions ρ) : HitlWait ρ :=
  match opts.signal with
  | some (some reason) =>
      ⟨opts.taskId, true, .ended, none, false, opts.signal, [.rejects reason], 0⟩
  | _ =>
      ask ⟨opts.taskId, false, .polling, opts.rl.map fun closed => ⟨closed, false⟩, false,
        opts.signal, [], 0⟩

end HitlWait

/-- What happens to a wait. -/
inductive HitlEvent (ρ : Type) where
  /-- The subscriber gets a message of the channel, at the given time. -/
  | message (raw : JsString) (now : ℕ)
  /-- `brpop` gives an item of the task's list. -/
  | popped (raw : JsString) (now : ℕ)
  /-- `brpop` gives nothing. -/
  | timedOut
  | brpopFailed
  /-- The 500 ms after an error are over. -/
  | retries
  /-- A client reports an error, or the subscription fails. -/
  | redisError
  /-- A line is typed at the terminal. -/
  | line (answer : JsString)
  /-- The readline interface closes. -/
  | inputEnds
  | abort (reason : ρ)

namespace HitlWait

variable {ρ : Type}

/-- The callback of the question. -/
def answered (w : HitlWait ρ) (answer : JsString) : HitlWait ρ :=
  if w.resolved || w.inputClosed then w
  else
    match terminalDecision answer with
    | some d => w.finish (.decision d)
    | none => w.ask

def step (sg : Signing) (w : HitlWait ρ) : HitlEvent ρ → Option (HitlWait ρ)
  | .message raw now =>
      if w.resolved then some w
      else some (w.board (handleBoardMessage sg (some (now, maxClockSkewMs)) w.taskId raw))
  | .popped raw now =>
      if w.poller = .polling then
        if w.resolved then some w.poll
        else
          some (w.board
            (handleBoardMessage sg (some (now, hitlListMaxAgeMs)) w.taskId raw)).poll
      else none
  | .timedOut => if w.poller = .polling then some w.poll else none
  | .brpopFailed =>
      if w.poller = .polling then
        some { w with poller := if w.resolved then .ended else .pausing }
      else none
  | .retries => if w.poller = .pausing then some w.poll else none
  | .redisError => some w
  | .line answer =>
      match w.rl with
      | none => none
      | some rl =>
          if rl.pending then
            some (answered { w with rl := some { rl with pending := false } } answer)
          else some w
  | .inputEnds =>
      match w.rl with
      | none => none
      | some rl =>
          if rl.closed then none
          else some { w with rl := some { rl with closed := true }, inputClosed := true }
  | .abort reason =>
      match w.signal with
      | some none =>
          let w := { w with signal := some (some reason) }
          some (if w.resolved then w else w.settle (.rejects reason))
      | _ => none

end HitlWait

end Kaiban
