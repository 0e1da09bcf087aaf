/-
The agent registry with its kill-switch, and an agent whose gate asks it.

The gate waits for each validator before it asks the next one, so the registry may be
written between two of them: an evaluation is a list of validators still to be asked, and
the kill-switch reads the registry when its turn comes.  What the other validators answer
is given with the event.
-/
import Kaiban.ActionGate

open JsString

namespace Kaiban

/-! ### The registry -/

/-- `AgentRegistration`. -/
structure AgentRegistration where
  agentId : JsString
  expiresAt : Option JsString
  invocationLimit : Option JsNumber
  scope : Option (List GateOperation)

structure AgentRecord where
  registration : AgentRegistration
  invocations : ℕ
  revokedReason : Option JsString

/-- `AgentRegistry`, as its map from ids to records. -/
structure AgentRegistry where
  records : JsString → Option AgentRecord

/-- `RegistryStatus`. -/
structure RegistryStatus where
  active : Bool
  reason : JsString

/-- `REVOKED_PREFIX`. -/
def revokedPrefix : JsString := js "revoked: "

namespace AgentRegistry

def empty : AgentRegistry := ⟨fun _ => none⟩

def set (r : AgentRegistry) (id : JsString) (record : AgentRecord) : AgentRegistry :=
  ⟨fun x => if x = id then some record else r.records x⟩

/-- `register(reg)`. -/
def register (r : AgentRegistry) (reg : AgentRegistration) : AgentRegistry :=
  r.set reg.agentId ⟨reg, 0, none⟩

/-- `revoke(agentId, reason)`. -/
def revoke (r : AgentRegistry) (agentId : JsString) (reason : Option JsString) : AgentRegistry :=
  match r.records agentId with
  | some record =>
      r.set agentId { record with revokedReason := some (reason.getD (js "revoked")) }
  | none => r

/-- `recordInvocation(agentId)`. -/
def recordInvocation (r : AgentRegistry) (agentId : JsString) : AgentRegistry :=
  match r.records agentId with
  | some record => r.set agentId { record with invocations := record.invocations + 1 }
  | none => r

end AgentRegistry

/-- `isExpired(record, now)`.  `parseDate` is `Date.parse`, `none` for `NaN`. -/
def AgentRecord.isExpired (parseDate : JsString → Option ℤ) (record : AgentRecord)
    (now : Option JsString) : Bool :=
  match record.registration.expiresAt, now with
  | some expiresAt, some now =>
      match parseDate expiresAt, parseDate now with
      | some expiry, some current => expiry < current
      | _, _ => true
  | _, _ => false

/-- `overLimit(record)`. -/
def AgentRecord.overLimit (record : AgentRecord) : Bool :=
  match record.registration.invocationLimit with
  | some (.finite limit) => 0 < limit && limit ≤ Decimal.ofInt record.invocations
  | _ => false

/-- `outOfScope(record, operation)`. -/
def AgentRecord.outOfScope (record : AgentRecord) (operation : Option GateOperation) : Bool :=
  match operation, record.registration.scope with
  | some operation, some scope => operation ∉ scope
  | _, _ => false

/-- `inactive(reason)`. -/
def inactive (reason : JsString) : RegistryStatus := ⟨false, reason⟩

/-- `status(agentId, opts)`. -/
def AgentRegistry.status (parseDate : JsString → Option ℤ) (r : AgentRegistry)
    (agentId : JsString) (now : Option JsString) (operation : Option GateOperation) :
    RegistryStatus :=
  match r.records agentId with
  | none => inactive (js "not registered")
  | some record =>
      match record.revokedReason with
      | some reason => inactive (revokedPrefix ++ reason)
      | none =>
          if record.isExpired parseDate now then inactive (js "expired")
          else if record.overLimit then inactive (js "invocation limit reached")
          else if record.outOfScope operation then inactive (js "operation out of scope")
          else ⟨true, js "active"⟩

/-- `toAction(status)`. -/
def toAction (status : RegistryStatus) : GateAction :=
  if status.active then .allow
  else if revokedPrefix.isPrefixOf status.reason then .terminate
  else .block

/-- `asValidator()`, asked when the clock says `now`. -/
def AgentRegistry.asValidator (parseDate : JsString → Option ℤ) (now : JsString) :
    GateValidator AgentRegistry where
  name := js "kill-switch"
  check ctx r :=
    let result := r.status parseDate ctx.agentId (some now) (some ctx.operation)
    (.ok ⟨toAction result, result.reason, js "kill-switch"⟩, r)

/-! ### An agent under the registry -/

/-- A validator of the gate. -/
inductive Guard where
  | killSwitch
  | other (name : JsString)
  deriving DecidableEq

structure GovernedConfig where
  options : AdmissionGateOptions
  enabled : Bool
  guards : List Guard
  parseDate : JsString → Option ℤ

/-- The validator behind a guard.  `answer` is what any other validator does. -/
def Guard.validator (gc : GovernedConfig) (now : JsString)
    (answer : Except Thrown GateVerdict) : Guard → GateValidator AgentRegistry
  | .killSwitch => AgentRegistry.asValidator gc.parseDate now
  | .other name => ⟨name, fun _ r => (answer, r)⟩

/-- An evaluation under way. -/
structure Evaluation where
  context : GateContext
  /-- The validators still to be asked. -/
  waiting : List Guard
  verdicts : List GateVerdict
  /-- The error that ended the evaluation. -/
  thrown : Option Thrown

structure GovernedActor where
  actor : Actor
  registry : AgentRegistry
  /-- The evaluation of a delivery, once it has begun. -/
  evaluations : ℕ → Option Evaluation
  /-- The decisions given to the audit sink, each with its delivery. -/
  audit : List (ℕ × GateDecision)

def GovernedActor.init : GovernedActor := ⟨.init, .empty, fun _ => none, []⟩

inductive GovernedEvent where
  | register (reg : AgentRegistration)
  | revoke (agentId : JsString) (reason : Option JsString)
  | recordInvocation (agentId : JsString)
  /-- The gate begins with a delivery. -/
  | opened (d : ℕ)
  /-- The next validator is asked, at `now`. -/
  | asked (d : ℕ) (now : JsString) (answer : Except Thrown GateVerdict)
  /-- All validators have answered.  `audit` is what the audit sink throws, if it does. -/
  | decided (d : ℕ) (audit : Option Thrown)
  /-- Any other reaction of the agent. -/
  | actor (e : ActorEvent)

/-- One turn of the loop over the validators. -/
def Evaluation.ask (gc : GovernedConfig) (r : AgentRegistry) (now : JsString)
    (answer : Except Thrown GateVerdict) (ev : Evaluation) : Option Evaluation :=
  match ev.thrown, ev.waiting with
  | none, guard :: rest =>
      match (runValidator (guard.validator gc now answer) ev.context r).1 with
      | .ok verdict => some { ev with waiting := rest, verdicts := ev.verdicts ++ [verdict] }
      | .error e => some { ev with waiting := rest, thrown := some e }
  | _, _ => none

/-- The end of `evaluate(ctx)`: what it gives, and the decision it records. -/
def Evaluation.decide (gc : GovernedConfig) (audit : Option Thrown) (ev : Evaluation) :
    Option (Except Thrown Verdict × Option GateDecision) :=
  match ev.thrown, ev.waiting with
  | some e, _ => some (.error e, none)
  | none, [] =>
      let decision := decideGate ev.context ev.verdicts
      if gc.enabled then
        match audit with
        | some e => some (.error e, none)
        | none => some (.ok (admissionVerdict decision), some decision)
      else some (.ok (admissionVerdict decision), none)
  | none, _ :: _ => none

namespace GovernedActor

def setEvaluation (s : GovernedActor) (d : ℕ) (ev : Evaluation) : GovernedActor :=
  { s with evaluations := fun x => if x = d then some ev else s.evaluations x }

def step (cfg : ActorConfig) (gc : GovernedConfig) (s : GovernedActor) :
    GovernedEvent → Option GovernedActor
  | .register reg => some { s with registry := s.registry.register reg }
  | .revoke id reason => some { s with registry := s.registry.revoke id reason }
  | .recordInvocation id => some { s with registry := s.registry.recordInvocation id }
  | .opened d =>
      match s.actor.deliveries d, s.evaluations d with
      | some ⟨p, .gate, _⟩, none =>
          some (s.setEvaluation d
            ⟨gateContext gc.options p, if gc.enabled then gc.guards else [], [], none⟩)
      | _, _ => none
  | .asked d now answer =>
      match s.evaluations d with
      | some ev => (ev.ask gc s.registry now answer).map (s.setEvaluation d)
      | none => none
  | .decided d audit =>
      match (s.evaluations d).bind (Evaluation.decide gc audit) with
      | some (verdict, decision) =>
          (s.actor.step cfg (.act d (.gate verdict))).map fun a =>
            { s with actor := a, audit := s.audit ++ decision.toList.map fun x => (d, x) }
      | none => none
  | .actor e =>
      if e.isGate then none else (s.actor.step cfg e).map fun a => { s with actor := a }

end GovernedActor

end Kaiban
