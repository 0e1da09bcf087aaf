/-
The front door over a whole trace of requests.

Every client has a window of its own, and one more on each of the probe routes.  The gateway
keeps the windows in two maps that are swept and cut, and with no more of them in use than the
maps may hold, it answers as one that counts what it let through: a request is turned away
exactly when its window is full, and is answered as if it came alone otherwise.

The emergency stop is in none of these windows.  Its answers are those of its ingress, whatever
other requests come in between.
-/
import Kaiban.GatewayApp
import Kaiban.Proofs.RateLimiter

open JsString

namespace Kaiban

/-! ### One limiter -/

namespace SlidingWindowRateLimiter

variable {l : LimiterLimits} {keys : Finset JsString} {granted : JsString → List ℕ}
  {s : SlidingWindowRateLimiter} {last now : ℕ}

/-- **A limiter lets through what the naive one does.** -/
theorem isAllowed_iff (h : Tracks l keys granted s last) (hnow : last ≤ now) (key : JsString) :
    (s.isAllowed l key now).1 = true ↔
      (granted key).countP (fun t => now ≤ t + l.windowMs) < l.maxRequests := by
  rw [(h.later hnow).sweep.countP_eq key, isAllowed_eq]
  unfold isAllowedUnswept
  split
  · next hfull => exact iff_of_false (by simp) (not_lt.mpr hfull)
  · next hroom => exact iff_of_true rfl (not_le.mp hroom)

end SlidingWindowRateLimiter

/-! ### The windows -/

/-- The window a request is counted in. -/
inductive Bucket where
  | client (clientIp : JsString)
  | probe (route : ProbeRoute) (clientIp : JsString)
  deriving DecidableEq

namespace Bucket

/-- How many requests it lets through in a minute. -/
def max : Bucket → ℕ
  | client _ => 100
  | probe _ _ => 120

/-- The key it has in its limiter. -/
def key : Bucket → JsString
  | client clientIp => clientIp
  | probe route clientIp => probeKey route clientIp

end Bucket

theorem probeKey_take (route : ProbeRoute) (clientIp : JsString) :
    (probeKey route clientIp).take 2 = route.path.take 2 := by
  cases route <;> rfl

/-- No two probe routes or clients share a key. -/
theorem probeKey_inj {route route' : ProbeRoute} {ip ip' : JsString}
    (h : probeKey route ip = probeKey route' ip') : route = route' ∧ ip = ip' := by
  have htake : route.path.take 2 = route'.path.take 2 := by
    rw [← probeKey_take route ip, h, probeKey_take]
  have hroute : route = route' := by
    revert htake
    cases route <;> cases route' <;> decide
  subst hroute
  exact ⟨rfl, List.append_cancel_left h⟩

/-- It is the limiter's refusal. -/
def GatewayAnswer.isTooMany : GatewayAnswer → Bool
  | .error status message => status = 429 ∧ message = js "Too Many Requests"
  | _ => false

/-- It is handed to the A2A or the MCP handler. -/
def GatewayAnswer.isHandedOn : GatewayAnswer → Bool
  | .rpc _ | .mcpPost _ | .mcpSession => true
  | _ => false

namespace GatewayApp

variable {deps : GatewayAppDeps} {sg : Signing} {boardSecret : JsString}

/-- The window of a request, if it is counted in one. -/
def bucket (deps : GatewayAppDeps) (r : HttpRequest) : Option Bucket :=
  match r.route with
  | .health _ => some (.probe .health r.clientIp)
  | .ready _ => some (.probe .ready r.clientIp)
  | .startup _ => some (.probe .startup r.clientIp)
  | .agentCard | .boardStop _ => none
  | .stopAll _ => if deps.emergencyStop then none else some (.client r.clientIp)
  | .agentStatus _ _ | .rpc | .mcp _ | .unknown => some (.client r.clientIp)

/-- The call that a request makes of the ingress. -/
def stopCall (deps : GatewayAppDeps) (r : HttpRequest) : Option StopCall :=
  if deps.emergencyStop then
    match r.route, r.body with
    | .stopAll c, .ok body => some (stopCallOf r body c)
    | .boardStop c, _ => some c
    | _, _ => none
  else none

/-- How the client is told what its stop came to. -/
def stopReply (r : HttpRequest) (outcome : StopAllOutcome) : GatewayAnswer :=
  match r.route with
  | .boardStop _ => stopAck outcome
  | _ => stopAnswer outcome

/-! ### One request -/

theorem handleError_isTooMany (status : Option ℕ) : (handleError status).isTooMany = false := by
  have htext : (js "Bad Request" = js "Too Many Requests") = False := by decide
  unfold handleError
  split
  · split
    · rfl
    · split
      · simp [GatewayAnswer.isTooMany, htext]
      · rfl
  · rfl

theorem handleError_isHandedOn (status : Option ℕ) : (handleError status).isHandedOn = false := by
  unfold handleError
  split
  · split
    · rfl
    · split <;> rfl
  · rfl

/-- What comes after the limiter: it is not the limiter's answer, and a handler's only with the
token. -/
structure Follows (deps : GatewayAppDeps) (r : HttpRequest) (next : GatewayAnswer) : Prop where
  own : next.isTooMany = false
  allowed : next.isHandedOn = true → authorized deps r = true

theorem follows_own {r : HttpRequest} {next : GatewayAnswer} (h : next.isTooMany = false)
    (hown : next.isHandedOn = false) : Follows deps r next :=
  ⟨h, fun hhanded => absurd (hown.symm.trans hhanded) (by simp)⟩

theorem follows_error {r : HttpRequest} (status : Option ℕ) :
    Follows deps r (handleError status) :=
  follows_own (handleError_isTooMany status) (handleError_isHandedOn status)

theorem follows_secured (deps : GatewayAppDeps) (r : HttpRequest)
    {handler : Option Json → GatewayAnswer} (h : ∀ body, (handler body).isTooMany = false) :
    Follows deps r (secured deps r handler) := by
  unfold secured
  split
  · next hauthorized =>
      split
      · exact follows_error _
      · exact ⟨h _, fun _ => hauthorized⟩
  · exact follows_own rfl rfl

/-- What a request does, which is one of four things whatever the gateway holds. -/
inductive Handling (deps : GatewayAppDeps) (sg : Signing) (boardSecret : JsString)
    (r : HttpRequest) : Prop
  | client (hbucket : bucket deps r = some (.client r.clientIp)) (hstop : stopCall deps r = none)
      (next : GatewayAnswer) (hnext : Follows deps r next)
      (hhandle : ∀ s, handle deps sg boardSecret s r = s.rateLimit r next)
  | probe (route : ProbeRoute) (hbucket : bucket deps r = some (.probe route r.clientIp))
      (hstop : stopCall deps r = none) (next : GatewayAnswer) (hnext : Follows deps r next)
      (hhandle : ∀ s, handle deps sg boardSecret s r = s.healthRateLimit route r next)
  | stop (hbucket : bucket deps r = none) (c : StopCall) (hstop : stopCall deps r = some c)
      (hhandle : ∀ s, handle deps sg boardSecret s r = s.stop sg boardSecret c (stopReply r))
  | free (hbucket : bucket deps r = none) (hstop : stopCall deps r = none) (next : GatewayAnswer)
      (hnext : Follows deps r next)
      (hhandle : ∀ s, handle deps sg boardSecret s r = (next, s))

theorem handling (deps : GatewayAppDeps) (sg : Signing) (boardSecret : JsString)
    (r : HttpRequest) : Handling deps sg boardSecret r := by
  obtain ⟨route, clientIp, clock, authorization, verified, body⟩ := r
  cases route with
  | health timestamp =>
      exact .probe .health rfl (by simp [stopCall]) _ (follows_own rfl rfl) fun _ => rfl
  | ready checks =>
      exact .probe .ready rfl (by simp [stopCall]) _ (follows_own rfl rfl) fun _ => rfl
  | startup started =>
      exact .probe .startup rfl (by simp [stopCall]) _ (follows_own rfl rfl) fun _ => rfl
  | agentCard => exact .free rfl (by simp [stopCall]) _ (follows_own rfl rfl) fun _ => rfl
  | agentStatus agentId tracker =>
      exact .client rfl (by simp [stopCall]) _ (follows_own rfl rfl) fun _ => rfl
  | rpc =>
      exact .client rfl (by simp [stopCall]) _ (follows_secured deps _ fun _ => rfl) fun _ => rfl
  | mcp post =>
      cases hmcp : deps.mcpHandler with
      | false =>
          refine .client rfl (by simp [stopCall]) handleNotFound (follows_own rfl rfl) fun s => ?_
          simp [handle, hmcp]
      | true =>
          have hnext (body : Option Json) :
              (if post then GatewayAnswer.mcpPost body else .mcpSession).isTooMany = false := by
            cases post <;> rfl
          refine .client rfl (by simp [stopCall]) _
            (follows_secured deps ⟨.mcp post, clientIp, clock, authorization, verified, body⟩
              hnext) fun s => ?_
          simp [handle, hmcp]
  | stopAll c =>
      cases hstop : deps.emergencyStop with
      | false =>
          refine .client (by simp [bucket, hstop]) (by simp [stopCall, hstop]) handleNotFound
            (follows_own rfl rfl) fun s => ?_
          simp [handle, hstop]
      | true =>
          cases body with
          | error status =>
              refine .free (by simp [bucket, hstop]) (by simp [stopCall]) (handleError status)
                (follows_error status) fun s => ?_
              simp [handle, hstop]
          | ok body =>
              refine .stop (by simp [bucket, hstop]) _ (by simp [stopCall, hstop]; rfl) fun s => ?_
              simp only [handle, hstop, if_true]
              rfl
  | boardStop c =>
      cases hstop : deps.emergencyStop with
      | false =>
          refine .free rfl (by simp [stopCall, hstop]) .silent (follows_own rfl rfl) fun s => ?_
          simp [handle, hstop]
      | true =>
          refine .stop rfl c (by simp [stopCall, hstop]) fun s => ?_
          simp only [handle, hstop, if_true]
          rfl
  | unknown =>
      exact .client rfl (by simp [stopCall]) _ (follows_own rfl rfl) fun _ => rfl

theorem stopReply_isHandedOn (r : HttpRequest) (outcome : StopAllOutcome) :
    (stopReply r outcome).isHandedOn = false := by
  unfold stopReply
  split <;> cases outcome <;> rfl

/-! ### What was let through -/

/-- The clock of the requests that some windows let through, in order. -/
def passed (deps : GatewayAppDeps) (p : Bucket → Bool)
    (served : List (HttpRequest × GatewayAnswer)) : List ℕ :=
  (served.filter fun x => (bucket deps x.1).any p && !x.2.isTooMany).map fun x => x.1.clock

variable {p : Bucket → Bool} {served : List (HttpRequest × GatewayAnswer)}

theorem passed_of_bucket {r : HttpRequest} {b : Bucket} (hbucket : bucket deps r = some b)
    (hp : p b = true) (a : GatewayAnswer) :
    passed deps p (served ++ [(r, a)]) =
      if a.isTooMany then passed deps p served else passed deps p served ++ [r.clock] := by
  unfold passed
  rw [List.filter_append, List.map_append]
  cases ha : a.isTooMany <;> simp [hbucket, hp, ha]

theorem passed_of_other {r : HttpRequest} (h : ∀ b, bucket deps r = some b → p b = false)
    (a : GatewayAnswer) : passed deps p (served ++ [(r, a)]) = passed deps p served := by
  unfold passed
  rw [List.filter_append, List.map_append]
  cases hbucket : bucket deps r with
  | none => simp [hbucket]
  | some b => simp [hbucket, h b hbucket]

/-- The window with the given key, among those of the probes. -/
def isProbe (key : JsString) : Bucket → Bool
  | .client _ => false
  | .probe route clientIp => probeKey route clientIp = key

theorem isProbe_key (route : ProbeRoute) (clientIp : JsString) :
    isProbe (probeKey route clientIp) = fun x => decide (x = .probe route clientIp) := by
  funext x
  cases x with
  | client ip => simp [isProbe]
  | probe route' ip =>
      rw [Bool.eq_iff_iff, isProbe, decide_eq_true_eq, decide_eq_true_eq]
      constructor
      · intro h
        obtain ⟨rfl, rfl⟩ := probeKey_inj h
        rfl
      · intro h
        obtain ⟨rfl, rfl⟩ := Bucket.probe.inj h
        rfl

open SlidingWindowRateLimiter (Tracks grant)

/-- Both limiters have kept count of what was served. -/
structure Counted (deps : GatewayAppDeps) (keys : Finset JsString)
    (served : List (HttpRequest × GatewayAnswer)) (last : ℕ) (s : GatewayApp) : Prop where
  clients : Tracks gatewayLimits keys
    (fun ip => passed deps (fun x => x = .client ip) served) s.rateLimiter last
  probes : Tracks probeLimits keys
    (fun key => passed deps (isProbe key) served) s.healthRateLimiter last

theorem counted_init (keys : Finset JsString) : Counted deps keys [] 0 init :=
  ⟨SlidingWindowRateLimiter.tracks_init _ _, SlidingWindowRateLimiter.tracks_init _ _⟩

variable {keys : Finset JsString} {last : ℕ} {s : GatewayApp} {r : HttpRequest}

/-- A request that is in neither kind of window leaves the count as it is. -/
theorem Counted.other (h : Counted deps keys served last s) (hnow : last ≤ r.clock)
    (hbucket : bucket deps r = none) (a : GatewayAnswer) (ingress : EmergencyStopIngress) :
    Counted deps keys (served ++ [(r, a)]) r.clock { s with ingress := ingress } := by
  have hsame (p : Bucket → Bool) : passed deps p (served ++ [(r, a)]) = passed deps p served :=
    passed_of_other (fun b hb => absurd (hbucket.symm.trans hb) (by simp)) a
  refine ⟨?_, ?_⟩
  · simp only [hsame]
    exact h.clients.later hnow
  · simp only [hsame]
    exact h.probes.later hnow

theorem Counted.client (h : Counted deps keys served last s) (hnow : last ≤ r.clock)
    (hfew : keys.card ≤ 100000) (hbucket : bucket deps r = some (.client r.clientIp))
    (hkey : r.clientIp ∈ keys) {next : GatewayAnswer} (hnext : next.isTooMany = false) :
    Counted deps keys (served ++ [(r, (s.rateLimit r next).1)]) r.clock
      (s.rateLimit r next).2 := by
  have htracks := SlidingWindowRateLimiter.tracks_isAllowed h.clients hnow hkey hfew
  have htooMany : (s.rateLimit r next).1.isTooMany =
      !(s.rateLimiter.isAllowed gatewayLimits r.clientIp r.clock).1 := by
    unfold rateLimit
    dsimp only
    split
    · next hallowed => rw [hnext, hallowed]; rfl
    · next hrefused => rw [Bool.not_eq_true] at hrefused; rw [hrefused]; rfl
  refine ⟨?_, ?_⟩
  · refine cast (congrArg (fun granted => Tracks gatewayLimits keys granted _ r.clock) ?_) htracks
    funext ip
    unfold grant
    by_cases hip : ip = r.clientIp
    · subst hip
      rw [passed_of_bucket hbucket (by simp), htooMany]
      cases (s.rateLimiter.isAllowed gatewayLimits r.clientIp r.clock).1 <;> simp
    · rw [if_neg fun hboth => hip hboth.1, passed_of_other fun b hb => ?_]
      obtain rfl := Option.some.inj (hbucket.symm.trans hb)
      simpa using fun hsame => hip hsame.symm
  · have hsame (key : JsString) :
        passed deps (isProbe key) (served ++ [(r, (s.rateLimit r next).1)])
          = passed deps (isProbe key) served := by
      refine passed_of_other (fun b hb => ?_) _
      obtain rfl := Option.some.inj (hbucket.symm.trans hb)
      rfl
    simp only [hsame]
    exact h.probes.later hnow

theorem Counted.probe (h : Counted deps keys served last s) (hnow : last ≤ r.clock)
    (hfew : keys.card ≤ 100000) {route : ProbeRoute}
    (hbucket : bucket deps r = some (.probe route r.clientIp))
    (hkey : probeKey route r.clientIp ∈ keys) {next : GatewayAnswer}
    (hnext : next.isTooMany = false) :
    Counted deps keys (served ++ [(r, (s.healthRateLimit route r next).1)]) r.clock
      (s.healthRateLimit route r next).2 := by
  have htracks := SlidingWindowRateLimiter.tracks_isAllowed h.probes hnow hkey hfew
  have htooMany : (s.healthRateLimit route r next).1.isTooMany =
      !(s.healthRateLimiter.isAllowed probeLimits (probeKey route r.clientIp) r.clock).1 := by
    unfold healthRateLimit
    dsimp only
    split
    · next hallowed => rw [hnext, hallowed]; rfl
    · next hrefused => rw [Bool.not_eq_true] at hrefused; rw [hrefused]; rfl
  refine ⟨?_, ?_⟩
  · have hsame (ip : JsString) :
        passed deps (fun x => x = .client ip) (served ++ [(r, (s.healthRateLimit route r next).1)])
          = passed deps (fun x => x = .client ip) served := by
      refine passed_of_other (fun b hb => ?_) _
      obtain rfl := Option.some.inj (hbucket.symm.trans hb)
      rfl
    simp only [hsame]
    exact h.clients.later hnow
  · refine cast (congrArg (fun granted => Tracks probeLimits keys granted _ r.clock) ?_) htracks
    funext key
    unfold grant
    by_cases heq : key = probeKey route r.clientIp
    · subst heq
      rw [passed_of_bucket hbucket (by simp [isProbe]), htooMany]
      cases (s.healthRateLimiter.isAllowed probeLimits (probeKey route r.clientIp) r.clock).1 <;>
        simp
    · rw [if_neg fun hboth => heq hboth.1, passed_of_other fun b hb => ?_]
      obtain rfl := Option.some.inj (hbucket.symm.trans hb)
      simpa [isProbe] using fun hsame => heq hsame.symm

/-! ### A trace -/

/-- How a request is answered after some others. -/
structure ServedAs (deps : GatewayAppDeps) (sg : Signing) (boardSecret : JsString)
    (before : List (HttpRequest × GatewayAnswer)) (x : HttpRequest × GatewayAnswer) : Prop where
  /-- It is turned away when the minute up to it is full, and otherwise answered as if it came
  alone. -/
  counted : ∀ b, bucket deps x.1 = some b →
    x.2 = if (passed deps (fun y => y = b) before).countP (fun t => x.1.clock ≤ t + 60000) < b.max
      then (init.handle deps sg boardSecret x.1).1 else tooMany
  /-- What is in no window is answered as if it came alone, except an emergency stop. -/
  free : bucket deps x.1 = none → stopCall deps x.1 = none →
    x.2 = (init.handle deps sg boardSecret x.1).1
  /-- No call gets to a handler without its token. -/
  secured : x.2.isHandedOn = true → authorized deps x.1 = true

theorem init_isAllowed (l : LimiterLimits) (hsome : 0 < l.maxRequests) (key : JsString)
    (now : ℕ) : (SlidingWindowRateLimiter.init.isAllowed l key now).1 = true :=
  (SlidingWindowRateLimiter.isAllowed_iff
    (SlidingWindowRateLimiter.tracks_init l ∅) (Nat.zero_le now) key).mpr hsome

theorem init_rateLimit (next : GatewayAnswer) : (init.rateLimit r next).1 = next :=
  if_pos (init_isAllowed gatewayLimits (by decide) r.clientIp r.clock)

theorem init_healthRateLimit (route : ProbeRoute) (next : GatewayAnswer) :
    (init.healthRateLimit route r next).1 = next :=
  if_pos (init_isAllowed probeLimits (by decide) (probeKey route r.clientIp) r.clock)

/-- One request is served as it should, and the count goes on. -/
theorem Counted.handle (sg : Signing) (boardSecret : JsString)
    (h : Counted deps keys served last s) (hnow : last ≤ r.clock) (hfew : keys.card ≤ 100000)
    (hkeys : ∀ b, bucket deps r = some b → b.key ∈ keys) :
    ServedAs deps sg boardSecret served (r, (s.handle deps sg boardSecret r).1) ∧
      Counted deps keys (served ++ [(r, (s.handle deps sg boardSecret r).1)]) r.clock
        (s.handle deps sg boardSecret r).2 := by
  cases handling deps sg boardSecret r with
  | client hbucket hstop next hnext hhandle =>
      have hiff := SlidingWindowRateLimiter.isAllowed_iff h.clients hnow r.clientIp
      rw [hhandle]
      refine ⟨⟨fun b hb => ?_, fun hnone => ?_, fun hhanded => ?_⟩,
        h.client hnow hfew hbucket (hkeys _ hbucket) hnext.own⟩
      · obtain rfl := Option.some.inj (hbucket.symm.trans hb)
        dsimp only
        rw [hhandle, init_rateLimit]
        exact if_congr hiff rfl rfl
      · exact absurd (hbucket.symm.trans hnone) (by simp)
      · refine hnext.allowed ?_
        unfold rateLimit at hhanded
        dsimp only at hhanded
        split at hhanded
        · exact hhanded
        · exact absurd hhanded (by simp [tooMany, GatewayAnswer.isHandedOn])
  | probe route hbucket hstop next hnext hhandle =>
      have hiff := SlidingWindowRateLimiter.isAllowed_iff h.probes hnow (probeKey route r.clientIp)
      rw [hhandle]
      refine ⟨⟨fun b hb => ?_, fun hnone => ?_, fun hhanded => ?_⟩,
        h.probe hnow hfew hbucket (hkeys _ hbucket) hnext.own⟩
      · obtain rfl := Option.some.inj (hbucket.symm.trans hb)
        dsimp only
        rw [hhandle, init_healthRateLimit, ← isProbe_key]
        exact if_congr hiff rfl rfl
      · exact absurd (hbucket.symm.trans hnone) (by simp)
      · refine hnext.allowed ?_
        unfold healthRateLimit at hhanded
        dsimp only at hhanded
        split at hhanded
        · exact hhanded
        · exact absurd hhanded (by simp [tooMany, GatewayAnswer.isHandedOn])
  | stop hbucket c hstop hhandle =>
      rw [hhandle]
      refine ⟨⟨fun b hb => ?_, fun _ hnone => ?_, fun hhanded => ?_⟩,
        h.other hnow hbucket _ _⟩
      · exact absurd (hbucket.symm.trans hb) (by simp)
      · exact absurd (hstop.symm.trans hnone) (by simp)
      · exact absurd ((stopReply_isHandedOn r _).symm.trans hhanded) (by simp)
  | free hbucket hstop next hnext hhandle =>
      rw [hhandle]
      refine ⟨⟨fun b hb => ?_, fun _ _ => ?_, hnext.allowed⟩, h.other hnow hbucket _ s.ingress⟩
      · exact absurd (hbucket.symm.trans hb) (by simp)
      · dsimp only
        rw [hhandle]

/-- A trace of requests is served as it should. -/
theorem Counted.serve (sg : Signing) (boardSecret : JsString) (hfew : keys.card ≤ 100000) :
    ∀ {rs : List HttpRequest} {served : List (HttpRequest × GatewayAnswer)} {last : ℕ}
      {s : GatewayApp}, Counted deps keys served last s →
      (last :: rs.map HttpRequest.clock).Pairwise (· ≤ ·) →
      (∀ r ∈ rs, ∀ b, bucket deps r = some b → b.key ∈ keys) →
      (∀ before x after, serve deps sg boardSecret s rs = before ++ x :: after →
        ServedAs deps sg boardSecret (served ++ before) x) ∧
      ∃ last s', Counted deps keys (served ++ serve deps sg boardSecret s rs) last s' := by
  intro rs
  induction rs with
  | nil =>
      intro served last s h _ _
      refine ⟨fun before x after heq => ?_, last, s, ?_⟩
      · exact absurd heq (by simp [GatewayApp.serve])
      · rw [GatewayApp.serve, List.append_nil]
        exact h
  | cons r rest ih =>
      intro served last s h hsorted hkeys
      rw [List.map_cons, List.pairwise_cons] at hsorted
      obtain ⟨hserved, hcounted⟩ := h.handle sg boardSecret
        (hsorted.1 r.clock List.mem_cons_self) hfew (hkeys r List.mem_cons_self)
      obtain ⟨hall, hend⟩ := ih hcounted hsorted.2
        fun x hx => hkeys x (List.mem_cons_of_mem r hx)
      rw [GatewayApp.serve]
      refine ⟨fun before x after heq => ?_, ?_⟩
      · cases before with
        | nil =>
            obtain ⟨rfl, -⟩ := List.cons.inj heq
            rw [List.append_nil]
            exact hserved
        | cons first before =>
            obtain ⟨rfl, hrest⟩ := List.cons.inj heq
            rw [List.append_cons]
            exact hall before x after hrest
      · obtain ⟨now, s', hs'⟩ := hend
        rw [List.append_assoc] at hs'
        exact ⟨now, s', hs'⟩

/-- The answers to the emergency stops, as the ingress alone gives them. -/
theorem stops_alone (sg : Signing) (boardSecret : JsString) :
    ∀ (rs : List HttpRequest) (s : GatewayApp),
      ((serve deps sg boardSecret s rs).filter fun x => (stopCall deps x.1).isSome).map Prod.snd =
        List.zipWith (fun r a => stopReply r a.outcome)
          (rs.filter fun r => (stopCall deps r).isSome)
          (s.ingress.answers sg boardSecret (rs.filterMap (stopCall deps))) := by
  intro rs
  induction rs with
  | nil => intro s; rfl
  | cons r rest ih =>
      intro s
      have hskip (hstop : stopCall deps r = none) (a : GatewayAnswer) (next : GatewayApp)
          (hingress : next.ingress = s.ingress) :
          (((r, a) :: serve deps sg boardSecret next rest).filter
              fun x => (stopCall deps x.1).isSome).map Prod.snd =
            List.zipWith (fun r a => stopReply r a.outcome)
              ((r :: rest).filter fun r => (stopCall deps r).isSome)
              (s.ingress.answers sg boardSecret ((r :: rest).filterMap (stopCall deps))) := by
        rw [List.filter_cons_of_neg (by simp [hstop]), List.filter_cons_of_neg (by simp [hstop]),
          List.filterMap_cons_none hstop, ih, hingress]
      rw [serve]
      cases handling deps sg boardSecret r with
      | client hbucket hstop next hnext hhandle =>
          rw [hhandle]
          exact hskip hstop _ _ rfl
      | probe route hbucket hstop next hnext hhandle =>
          rw [hhandle]
          exact hskip hstop _ _ rfl
      | free hbucket hstop next hnext hhandle =>
          rw [hhandle]
          exact hskip hstop _ _ rfl
      | stop hbucket c hstop hhandle =>
          rw [hhandle, List.filter_cons_of_pos (by simp [hstop]),
            List.filter_cons_of_pos (by simp [hstop]), List.filterMap_cons_some hstop,
            List.map_cons, ih, EmergencyStopIngress.answers, List.zipWith_cons_cons]
          rfl

/-- The windows that a trace uses. -/
def buckets (deps : GatewayAppDeps) (rs : List HttpRequest) : Finset Bucket :=
  (rs.filterMap (bucket deps)).toFinset

/-- **The gateway answers as one that counts what it let through, no window lets more through
than it may in any minute, and its emergency stops are answered as if nothing else came.** -/
theorem requests_served :
    ∀ (deps : GatewayAppDeps) (sg : Signing) (boardSecret : JsString) (rs : List HttpRequest),
      (rs.map HttpRequest.clock).Pairwise (· ≤ ·) → (buckets deps rs).card ≤ 100000 →
      (∀ before x after, serve deps sg boardSecret init rs = before ++ x :: after →
        ServedAs deps sg boardSecret before x) ∧
      (∀ b t, ((passed deps (fun y => y = b) (serve deps sg boardSecret init rs)).filter
        fun x => t ≤ x ∧ x ≤ t + 60000).length ≤ b.max) ∧
      ((serve deps sg boardSecret init rs).filter
          fun x => (stopCall deps x.1).isSome).map Prod.snd =
        List.zipWith (fun r a => stopReply r a.outcome)
          (rs.filter fun r => (stopCall deps r).isSome)
          (EmergencyStopIngress.init.answers sg boardSecret (rs.filterMap (stopCall deps))) := by
  intro deps sg boardSecret rs hsorted hfew
  have hzero : (0 :: rs.map HttpRequest.clock).Pairwise (· ≤ ·) :=
    List.pairwise_cons.mpr ⟨fun t _ => Nat.zero_le t, hsorted⟩
  have hkeys : ∀ r ∈ rs, ∀ b, bucket deps r = some b →
      b.key ∈ (buckets deps rs).image Bucket.key := by
    intro r hr b hb
    refine Finset.mem_image_of_mem Bucket.key ?_
    exact List.mem_toFinset.mpr (List.mem_filterMap.mpr ⟨r, hr, hb⟩)
  obtain ⟨hall, last, s, hcounted⟩ := (counted_init ((buckets deps rs).image Bucket.key)).serve
    sg boardSecret (Finset.card_image_le.trans hfew) hzero hkeys
  refine ⟨hall, fun b t => ?_, stops_alone sg boardSecret rs init⟩
  rw [List.nil_append] at hcounted
  cases b with
  | client clientIp => exact (hcounted.clients.sparse clientIp).window_le t
  | probe route clientIp =>
      have hsparse := hcounted.probes.sparse (probeKey route clientIp)
      rw [isProbe_key] at hsparse
      exact hsparse.window_le t

/-- A gateway with all that may be set. -/
def allSet : GatewayAppDeps := ⟨true, true, true, true, true⟩

/-- A hundred and one calls of one client in as many milliseconds, then one of another client
and an emergency stop. -/
def flood : List HttpRequest :=
  let call (clientIp : JsString) (clock : ℕ) (route : HttpRoute) : HttpRequest :=
    ⟨route, clientIp, clock, some (js "Bearer token"),
      some (.obj [(js "role", .str (js "a2a-client"))]), .ok none⟩
  (List.range 101).map (fun n => call (js "10.0.0.1") n .rpc) ++
    [call (js "10.0.0.2") 101 .rpc,
      call (js "10.0.0.1") 102 (.boardStop (EmergencyStopIngress.callOf (js "operator")))]

theorem requests_served_flood :
    ((serve allSet fixedSigning (js "secret") init flood).map fun x => x.2.isTooMany) =
      List.replicate 100 false ++ [true, false, false] ∧
    ∀ b t, ((passed allSet (fun y => y = b)
      (serve allSet fixedSigning (js "secret") init flood)).filter
        fun x => t ≤ x ∧ x ≤ t + 60000).length ≤ b.max := by
  refine ⟨by decide +kernel, ?_⟩
  exact (requests_served allSet fixedSigning (js "secret") flood (by decide +kernel)
    (by decide +kernel)).2.1

end GatewayApp

end Kaiban
