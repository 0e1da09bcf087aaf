/-
The gateway's front door: which requests reach what is behind it.

A request is taken at the moment it touches a limiter.  That is its arrival, or, for an
emergency stop over HTTP, the end of its body: the stop route parses before it asks.  The
boards' sockets hand their emergency stops to the same ingress.

What comes with a request is outside: the client's address, the readings of the clock, what
`jwt.verify` makes of the token, what the body parser gives and how the checks of a probe end.
-/
import Kaiban.AgentStatusTracker
import Kaiban.StopIngress

open JsString

namespace Kaiban

/-! ### The probes -/

structure ProbeCheckResult where
  name : JsString
  ok : Bool
  error : Option JsString

structure ProbeResult where
  ready : Bool
  checks : List ProbeCheckResult

/-- `runCheck(c)`, of a check that returns or throws an error with a message. -/
def runCheck (c : JsString × Except JsString Bool) : ProbeCheckResult :=
  match c.2 with
  | .ok ok => ⟨c.1, ok, none⟩
  | .error message => ⟨c.1, false, some message⟩

/-- What `buildReadinessProbe(deps)` answers when its checks end so. -/
def readinessProbe (checks : List (JsString × Except JsString Bool)) : ProbeResult :=
  ⟨(checks.map runCheck).all ProbeCheckResult.ok, checks.map runCheck⟩

/-- What `buildStartupProbe(deps)` answers. -/
def startupProbe (started : Bool) : ProbeResult := ⟨started, [⟨js "startup", started, none⟩]⟩

/-- `READY`. -/
def ready : ProbeResult := ⟨true, []⟩

def ProbeCheckResult.toJson (c : ProbeCheckResult) : Json :=
  .obj ([(js "name", .str c.name), (js "ok", .bool c.ok)] ++
    c.error.toList.map fun message => (js "error", .str message))

def ProbeResult.toJson (p : ProbeResult) : Json :=
  .obj [(js "ready", .bool p.ready), (js "checks", .arr (p.checks.map ProbeCheckResult.toJson))]

/-! ### Requests and answers -/

inductive ProbeRoute where
  | health
  | ready
  | startup
  deriving DecidableEq

def ProbeRoute.path : ProbeRoute → JsString
  | .health => js "/health"
  | .ready => js "/ready"
  | .startup => js "/startup"

/-- The route of a request, with what its handler reads. -/
inductive HttpRoute where
  /-- The text of the time, for the answer. -/
  | health (timestamp : JsString)
  | ready (checks : List (JsString × Except JsString Bool))
  | startup (started : Bool)
  | agentCard
  /-- The tracker as it is by then. -/
  | agentStatus (agentId : JsString) (tracker : AgentStatusTracker)
  /-- A request that the handler of `/a2a/rpc` answers. -/
  | rpc
  /-- A `POST`, or a `GET` or `DELETE`. -/
  | mcp (post : Bool)
  /-- What the ingress reads besides the request. -/
  | stopAll (c : StopCall)
  /-- A board's emergency stop on its socket. -/
  | boardStop (c : StopCall)
  | unknown

structure HttpRequest where
  route : HttpRoute
  /-- `clientIpOf(req)`. -/
  clientIp : JsString
  clock : ℕ
  /-- `req.headers["authorization"]`. -/
  authorization : Option JsString
  /-- What `jwt.verify` gives for the token of the header, `none` when it throws. -/
  verified : Option Json
  /-- The parsed body, or the status that the parser's error has. -/
  body : Except (Option ℕ) (Option Json)

/-- `GatewayAppDeps`, as far as they are set or not. -/
structure GatewayAppDeps where
  readinessProbe : Bool
  startupProbe : Bool
  mcpHandler : Bool
  emergencyStop : Bool
  /-- `A2A_JWT_SECRET` is set. -/
  a2aSecret : Bool

inductive GatewayAnswer where
  /-- `apiOk(data)`. -/
  | ok (status : ℕ) (data : Json)
  /-- `apiError(message)`. -/
  | error (status : ℕ) (message : JsString)
  /-- It is the SDK's to answer: the card, or a call with its body. -/
  | agentCard
  | rpc (body : Option Json)
  /-- It is the MCP handler's to answer. -/
  | mcpPost (body : Option Json)
  | mcpSession
  /-- A board is answered on its socket. -/
  | ack (response : Json)
  | silent

/-- `res.status(429).json(apiError("Too Many Requests"))`. -/
def tooMany : GatewayAnswer := .error 429 (js "Too Many Requests")

/-- `handleError(err, …)`, of an error with the given status. -/
def handleError : Option ℕ → GatewayAnswer
  | some status =>
      if status = 413 then .error 413 (js "Payload Too Large")
      else if 400 ≤ status ∧ status < 500 then .error status (js "Bad Request")
      else .error 500 (js "Internal Server Error")
  | none => .error 500 (js "Internal Server Error")

/-- `header.slice("Bearer ".length)`, when the header starts so. -/
def bearerToken (header : Option JsString) : Option JsString :=
  match header with
  | some text => if js "Bearer " <+: text then some (text.drop 7) else none
  | none => none

/-- `verifyA2AToken(authHeader)` does not throw, when the secret is set. -/
def verifyA2AToken (header : Option JsString) (verified : Option Json) : Bool :=
  match bearerToken header, verified with
  | some _, some (.obj payload) => textMember payload (js "role") = some (js "a2a-client")
  | _, _ => false

/-! ### The gateway -/

/-- The limits of `rateLimiter`. -/
def gatewayLimits : LimiterLimits := ⟨60000, 100, 100000⟩

/-- The limits of `healthRateLimiter`. -/
def probeLimits : LimiterLimits := ⟨60000, 120, 100000⟩

/-- The key of a client on a probe route. -/
def probeKey (route : ProbeRoute) (clientIp : JsString) : JsString :=
  route.path ++ js "|" ++ clientIp

structure GatewayApp where
  rateLimiter : SlidingWindowRateLimiter
  healthRateLimiter : SlidingWindowRateLimiter
  ingress : EmergencyStopIngress

namespace GatewayApp

def init : GatewayApp := ⟨.init, .init, .init⟩

/-- `rateLimit(req, res, next)`, with what follows it. -/
def rateLimit (s : GatewayApp) (r : HttpRequest) (next : GatewayAnswer) :
    GatewayAnswer × GatewayApp :=
  let (allowed, rateLimiter) := s.rateLimiter.isAllowed gatewayLimits r.clientIp r.clock
  (if allowed then next else tooMany, { s with rateLimiter := rateLimiter })

/-- `healthRateLimit(route, req, res, next)`, with what follows it. -/
def healthRateLimit (s : GatewayApp) (route : ProbeRoute) (r : HttpRequest)
    (next : GatewayAnswer) : GatewayAnswer × GatewayApp :=
  let (allowed, healthRateLimiter) :=
    s.healthRateLimiter.isAllowed probeLimits (probeKey route r.clientIp) r.clock
  (if allowed then next else tooMany, { s with healthRateLimiter := healthRateLimiter })

/-- `requireA2AAuth(req, res, next)` lets the request through. -/
def authorized (deps : GatewayAppDeps) (r : HttpRequest) : Bool :=
  !deps.a2aSecret || verifyA2AToken r.authorization r.verified

/-- What is between the limiter and a handler: the token, then the body. -/
def secured (deps : GatewayAppDeps) (r : HttpRequest) (handler : Option Json → GatewayAnswer) :
    GatewayAnswer :=
  if authorized deps r then
    match r.body with
    | .error status => handleError status
    | .ok body => handler body
  else .error 401 (js "Unauthorized")

def handleHealth (timestamp : JsString) : GatewayAnswer :=
  .ok 200 (.obj [(js "status", .str (js "ok")), (js "timestamp", .str timestamp)])

/-- `handleProbe(probe, …)`, of what the probe answers. -/
def handleProbe (result : ProbeResult) : GatewayAnswer :=
  .ok (if result.ready then 200 else 503) result.toJson

def handleAgentStatus (agentId : JsString) (tracker : AgentStatusTracker) : GatewayAnswer :=
  .ok 200 (.obj [(js "agentId", .str agentId),
    (js "status", .str (tracker.getStatus agentId).text),
    (js "seen", .bool (tracker.hasSeen agentId))])

def handleNotFound : GatewayAnswer := .error 404 (js "Not Found")

def refusalStatus : RefusalStatus → ℕ
  | .badRequest => 400
  | .unauthorized => 401
  | .tooManyRequests => 429
  | .serverError => 500

def issuedMembers (commandId : JsString) (issuedAt : ℕ) (saved : Bool) :
    List (JsString × Json) :=
  [(js "commandId", .str commandId), (js "issuedAt", .num (JsNumber.ofInt issuedAt)),
    (js "saved", .bool saved)]

/-- The answer of `handleStopAll(ingress, req, res)`. -/
def stopAnswer : StopAllOutcome → GatewayAnswer
  | .ok commandId issuedAt saved => .ok 202 (.obj (issuedMembers commandId issuedAt saved))
  | .refused refusal => .error (refusalStatus refusal.status) refusal.error

/-- The answer of the socket's `handleStopAll(control, socket, payload, ack)`. -/
def stopAck : StopAllOutcome → GatewayAnswer
  | .ok commandId issuedAt saved =>
      .ack (.obj ((js "ok", .bool true) :: issuedMembers commandId issuedAt saved))
  | .refused refusal => .ack (.obj [(js "ok", .bool false), (js "error", .str refusal.error)])

/-- What `handleStopAll` hands to the ingress. -/
def stopCallOf (r : HttpRequest) (body : Option Json) (c : StopCall) : StopCall :=
  { c with
    token := bearerToken r.authorization
    verified := r.verified
    body := body
    clientKey := r.clientIp
    clock := r.clock }

/-- `ingress.stopAll(token, body, clientKey)`, answered in the way of the route. -/
def stop (sg : Signing) (boardSecret : JsString) (s : GatewayApp) (c : StopCall)
    (answer : StopAllOutcome → GatewayAnswer) : GatewayAnswer × GatewayApp :=
  (answer (s.ingress.stopAll sg boardSecret c).1.outcome,
    { s with ingress := (s.ingress.stopAll sg boardSecret c).2 })

/-- What becomes of a request. -/
def handle (deps : GatewayAppDeps) (sg : Signing) (boardSecret : JsString) (s : GatewayApp)
    (r : HttpRequest) : GatewayAnswer × GatewayApp :=
  match r.route with
  | .health timestamp => s.healthRateLimit .health r (handleHealth timestamp)
  | .ready checks => s.healthRateLimit .ready r
      (handleProbe (if deps.readinessProbe then Kaiban.readinessProbe checks else Kaiban.ready))
  | .startup started => s.healthRateLimit .startup r
      (handleProbe (if deps.startupProbe then Kaiban.startupProbe started else Kaiban.ready))
  | .agentCard => (.agentCard, s)
  | .agentStatus agentId tracker => s.rateLimit r (handleAgentStatus agentId tracker)
  | .rpc => s.rateLimit r (secured deps r .rpc)
  | .mcp post =>
      if deps.mcpHandler then
        s.rateLimit r (secured deps r fun body => if post then .mcpPost body else .mcpSession)
      else s.rateLimit r handleNotFound
  | .stopAll c =>
      if deps.emergencyStop then
        match r.body with
        | .error status => (handleError status, s)
        | .ok body => stop sg boardSecret s (stopCallOf r body c) stopAnswer
      else s.rateLimit r handleNotFound
  | .boardStop c =>
      if deps.emergencyStop then stop sg boardSecret s c stopAck else (.silent, s)
  | .unknown => s.rateLimit r handleNotFound

/-- Some requests with their answers, one after the other. -/
def serve (deps : GatewayAppDeps) (sg : Signing) (boardSecret : JsString) :
    GatewayApp → List HttpRequest → List (HttpRequest × GatewayAnswer)
  | _, [] => []
  | s, r :: rest =>
      (r, (s.handle deps sg boardSecret r).1) ::
        serve deps sg boardSecret (s.handle deps sg boardSecret r).2 rest

end GatewayApp

end Kaiban
