/-
The policy engine, a validator that goes by rules.

The terms of a rule are looked for in the JSON text of the payload, all of it in lower case.
-/
import Kaiban.AuditedGate
import Kaiban.Lib.LowerCase

open JsString

namespace Kaiban

/-- `PolicyRule`.  A policy file may name any operation. -/
structure PolicyRule where
  id : JsString
  operation : Option JsString
  agentId : Option JsString
  matchAny : Option (List JsString)
  effect : GateAction
  reason : Option JsString

/-- `PolicySet`. -/
structure PolicySet where
  default : GateAction
  rules : List PolicyRule

namespace PolicyEngine

def operationMatches (rule : PolicyRule) (ctx : GateContext) : Bool :=
  rule.operation.all fun operation => operation = ctx.operation.name

def agentMatches (rule : PolicyRule) (ctx : GateContext) : Bool :=
  rule.agentId.all fun agentId => agentId = ctx.agentId

/-- `s.includes(t)`. -/
def includes (s t : JsString) : Bool := t <:+: s

variable (T : CaseTables)

def payloadMatches (rule : PolicyRule) (haystack : JsString) : Bool :=
  rule.matchAny.all fun terms => terms.any fun term => includes haystack (T.toLowerCase term)

/-- `ruleMatches(rule, ctx, haystack)`. -/
def ruleMatches (rule : PolicyRule) (ctx : GateContext) (haystack : JsString) : Bool :=
  operationMatches rule ctx && agentMatches rule ctx && payloadMatches T rule haystack

/-- The text the terms are looked for in. -/
def haystack (ctx : GateContext) : JsString :=
  T.toLowerCase (Json.stringify (.obj ctx.payload))

/-- `check(ctx)`. -/
def check (policies : PolicySet) (ctx : GateContext) : GateVerdict :=
  match policies.rules.find? fun rule => ruleMatches T rule ctx (haystack T ctx) with
  | some rule => ⟨rule.effect, rule.reason.getD rule.id, js "policy"⟩
  | none => ⟨policies.default, js "no policy matched", js "policy"⟩

/-- The engine as a validator of the gate. -/
def validator {σ : Type} (policies : PolicySet) : GateValidator σ :=
  ⟨js "policy", fun ctx st => (.ok (check T policies ctx), st)⟩

end PolicyEngine

end Kaiban
