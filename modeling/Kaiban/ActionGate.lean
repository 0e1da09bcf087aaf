/-
The action gate, and the guard an actor makes of it.

The gate runs every validator in turn and takes the most severe verdict.  A validator is a
step on a state of its own choice, such as the store of a rate limiter.
-/
import Kaiban.RateCostLimiter
import Mathlib.Data.List.Sort

open JsString

namespace Kaiban

/-- `GateAction`, from the least to the most severe. -/
inductive GateAction where
  | allow
  | degrade
  | escalate
  | block
  | terminate
  deriving DecidableEq

/-- `GATE_ACTION_SEVERITY`. -/
def GateAction.severity : GateAction → ℕ
  | allow => 0
  | degrade => 1
  | escalate => 2
  | block => 3
  | terminate => 4

def GateAction.name : GateAction → JsString
  | allow => js "allow"
  | degrade => js "degrade"
  | escalate => js "escalate"
  | block => js "block"
  | terminate => js "terminate"

/-- `GateOperation`. -/
inductive GateOperation where
  | toolCall
  | outboundMessage
  | memoryWrite
  deriving DecidableEq

/-- `GateContext`. -/
structure GateContext where
  operation : GateOperation
  agentId : JsString
  tenantId : Option JsString
  payload : MessageData
  estimatedCostUnits : Option ℤ

/-- `GateVerdict`. -/
structure GateVerdict where
  action : GateAction
  reason : JsString
  validator : JsString

/-- `GateValidator`. -/
structure GateValidator (σ : Type) where
  name : JsString
  check : GateContext → σ → Except Thrown GateVerdict × σ

/-- `GateDecision`. -/
structure GateDecision where
  action : GateAction
  verdicts : List GateVerdict
  context : GateContext

/-! ### The gate -/

variable {σ : Type}

/-- What `String(err)` throws on a value that has no text. -/
def noTextError : Thrown := .error (js "Cannot convert object to primitive value")

/-- `runValidator(validator, ctx)`: a validator that throws blocks. -/
def runValidator (v : GateValidator σ) (ctx : GateContext) (st : σ) :
    Except Thrown GateVerdict × σ :=
  match v.check ctx st with
  | (.ok verdict, st) => (.ok verdict, st)
  | (.error e, st) =>
      match e.text with
      | some reason => (.ok ⟨.block, js "validator error: " ++ reason, v.name⟩, st)
      | none => (.error noTextError, st)

/-- The loop over the validators. -/
def runValidators (ctx : GateContext) : List (GateValidator σ) → σ →
    Except Thrown (List GateVerdict) × σ
  | [], st => (.ok [], st)
  | v :: rest, st =>
      match runValidator v ctx st with
      | (.error e, st) => (.error e, st)
      | (.ok verdict, st) =>
          match runValidators ctx rest st with
          | (.error e, st) => (.error e, st)
          | (.ok verdicts, st) => (.ok (verdict :: verdicts), st)

/-- `orderBySeverity(verdicts)`: the sort is stable. -/
def orderBySeverity (verdicts : List GateVerdict) : List GateVerdict :=
  verdicts.insertionSort fun a b => b.action.severity ≤ a.action.severity

/-- The decision over some verdicts. -/
def decideGate (ctx : GateContext) (verdicts : List GateVerdict) : GateDecision :=
  let ordered := orderBySeverity verdicts
  ⟨match ordered with
    | [] => .allow
    | v :: _ => v.action, ordered, ctx⟩

/-- `evaluate(ctx)`.  `audit` is what the audit sink throws, if it does. -/
def evaluateGate (enabled : Bool) (validators : List (GateValidator σ)) (audit : Option Thrown)
    (ctx : GateContext) (st : σ) : Except Thrown GateDecision × σ :=
  if enabled then
    match runValidators ctx validators st with
    | (.error e, st) => (.error e, st)
    | (.ok verdicts, st) =>
        match audit with
        | some e => (.error e, st)
        | none => (.ok (decideGate ctx verdicts), st)
  else (.ok ⟨.allow, [], ctx⟩, st)

/-! ### The cost validator -/

/-- `COST_ACTION`. -/
def costAction : AdmissionDecision → GateAction
  | .allow => .allow
  | .degrade => .degrade
  | .reject => .block

/-- `defaultScope(ctx)`. -/
def defaultScope (ctx : GateContext) : BudgetScope :=
  ⟨ctx.tenantId.filter fun id => id ≠ [], some ctx.agentId⟩

/-- The scope and the units a cost validator reserves for a context. -/
def costScope (scopeFor : Option (GateContext → BudgetScope)) (ctx : GateContext) : BudgetScope :=
  match scopeFor with
  | some f => f ctx
  | none => defaultScope ctx

def costUnits (ctx : GateContext) : ℤ := ctx.estimatedCostUnits.getD 0

/-- `costValidator(reservation, scopeFor)`. -/
def costValidator (r : CostReservation) (scopeFor : Option (GateContext → BudgetScope)) :
    GateValidator LimiterStore where
  name := js "cost-reservation"
  check ctx st :=
    match CostReservation.admitCall r (costScope scopeFor ctx) (costUnits ctx) st with
    | (.error e, st) => (.error e, st)
    | (.ok result, st) => (.ok ⟨costAction result.decision, result.reason, js "cost-reservation"⟩,
      st)

/-! ### The actor's guard -/

/-- `PASSING_ACTIONS.has(action)`. -/
def GateAction.passes : GateAction → Bool
  | allow | degrade => true
  | escalate | block | terminate => false

/-- `AdmissionGateOptions`. -/
structure AdmissionGateOptions where
  operation : Option GateOperation
  tenantIdOf : Option (Payload → Option JsString)
  estimatedCostUnitsOf : Option (Payload → Option ℤ)

/-- The context `buildAdmissionGate` makes of a payload. -/
def gateContext (opts : AdmissionGateOptions) (p : Payload) : GateContext where
  operation := opts.operation.getD .toolCall
  agentId := p.agentId
  tenantId := opts.tenantIdOf.bind fun f => f p
  payload := p.data
  estimatedCostUnits := opts.estimatedCostUnitsOf.bind fun f => f p

/-- What the guard of `buildAdmissionGate` answers on a decision. -/
def admissionVerdict (decision : GateDecision) : Verdict :=
  if decision.action.passes then ⟨true, none⟩
  else ⟨false, some (js "gate:" ++ decision.action.name)⟩

/-- `evaluate(payload)` of the guard. -/
def admissionGate (opts : AdmissionGateOptions) (enabled : Bool)
    (validators : List (GateValidator σ)) (audit : Option Thrown) (p : Payload) (st : σ) :
    Except Thrown Verdict × σ :=
  match evaluateGate enabled validators audit (gateContext opts p) st with
  | (.error e, st) => (.error e, st)
  | (.ok decision, st) => (.ok (admissionVerdict decision), st)

/-- The event is the verdict of a gate. -/
def ActorEvent.isGate : ActorEvent → Bool
  | .act _ (.gate _) => true
  | _ => false

end Kaiban
