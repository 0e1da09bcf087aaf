/-
The gateway's emergency stop ingress and its two rate limiters.

A call is answered in one go up to its first wait, and only that part touches the limiters.
What is outside comes with the call: what `jwt.verify` makes of the token, the readings of
the clock, the random id of the command and how Redis answers.
-/
import Kaiban.Control
import Kaiban.Lib.OrderedMap

open JsString

namespace Kaiban

/-! ### The limiter -/

/-- What a `SlidingWindowRateLimiter` is constructed with. -/
structure LimiterLimits where
  windowMs : ℕ
  maxRequests : ℕ
  maxKeys : ℕ

structure SlidingWindowRateLimiter where
  windows : OrderedMap JsString (List ℕ)
  lastSweepAt : ℕ

namespace SlidingWindowRateLimiter

def init : SlidingWindowRateLimiter := ⟨.empty, 0⟩

/-- The time is before `now - windowMs`. -/
def outside (l : LimiterLimits) (now t : ℕ) : Bool := t + l.windowMs < now

/-- `sweep(now)`. -/
def sweep (l : LimiterLimits) (s : SlidingWindowRateLimiter) (now : ℕ) :
    SlidingWindowRateLimiter :=
  if now < s.lastSweepAt + l.windowMs then s
  else
    { windows := s.windows.filter fun _ timestamps => !timestamps.getLast?.any (outside l now)
      lastSweepAt := now }

/-- `isAllowed(key)` at the time `now`.  The outdated times are shifted out of the array in
place, whatever the answer. -/
def isAllowed (l : LimiterLimits) (s : SlidingWindowRateLimiter) (key : JsString) (now : ℕ) :
    Bool × SlidingWindowRateLimiter :=
  let s := s.sweep l now
  let timestamps := ((s.windows.get key).getD []).dropWhile (outside l now)
  if l.maxRequests ≤ timestamps.length then
    (false, { s with windows := if key ∈ s.windows.keys then s.windows.set key timestamps
      else s.windows })
  else
    (true, { s with
      windows := ((s.windows.erase key).set key (timestamps ++ [now])).newest l.maxKeys })

end SlidingWindowRateLimiter

/-! ### The ingress -/

/-- `STOP_MAX_PER_WINDOW` in `STOP_WINDOW_MS`. -/
def stopLimits : LimiterLimits := ⟨10000, 5, 100000⟩

/-- `REFUSED_MAX_PER_WINDOW` in `STOP_WINDOW_MS`. -/
def refusedLimits : LimiterLimits := ⟨10000, 30, 100000⟩

/-- `MAX_REASON_LEN`. -/
def maxReasonLen : ℕ := 500

inductive RefusalStatus where
  | badRequest
  | unauthorized
  | tooManyRequests
  | serverError
  deriving DecidableEq

/-- A `Refusal`: the HTTP status and the error. -/
structure Refusal where
  status : RefusalStatus
  error : JsString
  deriving DecidableEq

/-- `StopAllOutcome`. -/
inductive StopAllOutcome where
  | ok (commandId : JsString) (issuedAt : ℕ) (saved : Bool)
  | refused (refusal : Refusal)
  deriving DecidableEq

/-- What is handed to Redis. -/
inductive RedisCall where
  /-- The script `SAVE_IF_LATER`, with its moment and its value. -/
  | save (moment value : JsString)
  | publish (channel message : JsString)

/-- One call of `stopAll(token, body, clientKey)`. -/
structure StopCall where
  token : Option JsString
  /-- What `jwt.verify` gives for the token, `none` when it throws. -/
  verified : Option Json
  body : Option Json
  clientKey : JsString
  /-- The limiter's reading of the clock. -/
  clock : ℕ
  /-- `randomUUID()`. -/
  commandId : JsString
  commandId_size : commandId.length = 36
  /-- `this.now()` for the command and for its ack. -/
  moment : ℕ
  ackAt : ℕ
  /-- The readings of the clock in the two envelopes. -/
  signedAt : ℕ
  ackSignedAt : ℕ
  /-- Whether the script says it saved the value, `none` when it fails. -/
  saved : Option Bool
  published : Bool

/-- `verifyBoardToken(token)`: the members of its payload, `none` when it throws. -/
def StopCall.boardToken (c : StopCall) : Option (List (JsString × Json)) :=
  match c.verified with
  | some (.obj payload) =>
      if textMember payload (js "role") = some (js "board-viewer") then some payload else none
  | _ => none

/-- `authenticate(token)`.  `boardSecret` is `BOARD_JWT_SECRET`, empty when it is not set. -/
def authenticate (boardSecret : JsString) (c : StopCall) : Except Refusal JsString :=
  if boardSecret = [] then
    .error ⟨.unauthorized, js "Emergency stop needs board authentication (BOARD_JWT_SECRET)"⟩
  else if c.token.getD [] = [] then .error ⟨.unauthorized, js "Missing board token"⟩
  else
    match c.boardToken with
    | none => .error ⟨.unauthorized, js "Invalid or expired board token"⟩
    | some payload =>
        match textMember payload (js "sub") with
        | some (u :: sub) => .ok (u :: sub)
        | _ => .ok (js "board")

/-- `body["reason"]`, when the body is an object that has one. -/
def bodyReason : Option Json → Option Json
  | some (.obj ms) => Json.get ms (js "reason")
  | _ => none

/-- `reasonOf(body)`, `none` when the reason is invalid. -/
def reasonOf (body : Option Json) : Option (Option JsString) :=
  match bodyReason body with
  | none => some none
  | some (.str reason) =>
      if reason = [] then some none
      else if maxReasonLen < reason.length then none
      else some (some reason)
  | some _ => none

/-- A command that was not checked yet. -/
structure NewStopCommand where
  commandId : JsString
  issuedBy : JsString
  issuedAt : ℕ
  reason : Option JsString

/-- `createStopAllCommand(issuedBy, reason, now)`. -/
def createStopAllCommand (commandId issuedBy : JsString) (reason : Option JsString) (now : ℕ) :
    NewStopCommand :=
  ⟨commandId, issuedBy, now, reason.filter fun r => r ≠ []⟩

def reasonMembers (reason : Option JsString) : List (JsString × Json) :=
  match reason with
  | none => []
  | some r => [(js "reason", .str r)]

def NewStopCommand.members (cmd : NewStopCommand) : List (JsString × Json) :=
  [(js "commandId", .str cmd.commandId), (js "command", .str (js "STOP_ALL")),
    (js "issuedBy", .str cmd.issuedBy), (js "issuedAt", .num (JsNumber.ofInt cmd.issuedAt))]
  ++ reasonMembers cmd.reason

/-- `CONTROL_CHANNEL` and `STATE_CHANNEL`. -/
def controlChannel : JsString := js "kaiban-control"

def stateChannel : JsString := js "kaiban-state-events"

/-- `issueStopAll(redis, cmd)`: whether it was saved, `none` when it throws, and what was
handed to Redis. -/
def issueStopAll (sg : Signing) (c : StopCall) (cmd : NewStopCommand) :
    Option Bool × List RedisCall :=
  match parseStopAllCommand (.obj cmd.members) with
  | none => (none, [])
  | some valid =>
      let save := RedisCall.save (NumberText.numberText (Decimal.ofInt cmd.issuedAt))
        (sealStopCommand sg valid)
      match c.saved with
      | none => (none, [save])
      | some saved =>
          let calls := [save, .publish controlChannel (wrapSigned sg c.signedAt (.obj cmd.members))]
          if c.published then (some saved, calls) else (none, calls)

/-- The message of `announce(cmd)`. -/
def announcement (sg : Signing) (c : StopCall) (cmd : NewStopCommand) : RedisCall :=
  .publish stateChannel (wrapSigned sg c.ackSignedAt (.obj [(js "control", .obj (
    [(js "commandId", .str cmd.commandId), (js "issuedAt", .num (JsNumber.ofInt cmd.issuedAt)),
      (js "issuedBy", .str cmd.issuedBy)] ++ reasonMembers cmd.reason ++
    [(js "nodeId", .str (js "gateway")), (js "outcome", .str (js "issued")),
      (js "aborted", .num (JsNumber.ofInt 0)), (js "at", .num (JsNumber.ofInt c.ackAt))]))]))

/-- What a call came to. -/
structure StopAnswer where
  call : StopCall
  /-- The token's subject, if it was authenticated. -/
  subject : Option JsString
  /-- It got past the limiter. -/
  passed : Bool
  outcome : StopAllOutcome
  sent : List RedisCall

structure EmergencyStopIngress where
  limiter : SlidingWindowRateLimiter
  refusedLimiter : SlidingWindowRateLimiter

def tooManyRequests : Refusal := ⟨.tooManyRequests, js "Too Many Requests"⟩

namespace EmergencyStopIngress

def init : EmergencyStopIngress := ⟨.init, .init⟩

/-- The rest of `stopAll`, for a call that got past the limiter. -/
def issue (sg : Signing) (c : StopCall) (subject : JsString) : StopAllOutcome × List RedisCall :=
  match reasonOf c.body with
  | none => (.refused ⟨.badRequest, js "reason must be a string of at most 500 characters"⟩, [])
  | some reason =>
      let cmd := createStopAllCommand c.commandId subject reason c.moment
      match issueStopAll sg c cmd with
      | (none, calls) => (.refused ⟨.serverError, js "Redis write failed"⟩, calls)
      | (some saved, calls) =>
          (.ok cmd.commandId cmd.issuedAt saved, calls ++ [announcement sg c cmd])

/-- `stopAll(token, body, clientKey)`. -/
def stopAll (sg : Signing) (boardSecret : JsString) (s : EmergencyStopIngress) (c : StopCall) :
    StopAnswer × EmergencyStopIngress :=
  match authenticate boardSecret c with
  | .error refusal =>
      let (allowed, refusedLimiter) := s.refusedLimiter.isAllowed refusedLimits c.clientKey c.clock
      (⟨c, none, false, .refused (if allowed then refusal else tooManyRequests), []⟩,
        { s with refusedLimiter := refusedLimiter })
  | .ok subject =>
      let (allowed, limiter) := s.limiter.isAllowed stopLimits subject c.clock
      let s := { s with limiter := limiter }
      if allowed then
        let (outcome, sent) := issue sg c subject
        (⟨c, some subject, true, outcome, sent⟩, s)
      else (⟨c, some subject, false, .refused tooManyRequests, []⟩, s)

/-- The answers to some calls, one after the other. -/
def answers (sg : Signing) (boardSecret : JsString) :
    EmergencyStopIngress → List StopCall → List StopAnswer
  | _, [] => []
  | s, c :: rest =>
      (s.stopAll sg boardSecret c).1 :: answers sg boardSecret (s.stopAll sg boardSecret c).2 rest

end EmergencyStopIngress

end Kaiban
