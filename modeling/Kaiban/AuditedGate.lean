/-
The action gate with an audit log for its sink.

The log holds the JSON of each decision.
-/
import Kaiban.ActionGate
import Kaiban.AuditLog

open JsString

namespace Kaiban

def GateOperation.name : GateOperation → JsString
  | toolCall => js "tool-call"
  | outboundMessage => js "outbound-message"
  | memoryWrite => js "memory-write"

def GateVerdict.toJson (v : GateVerdict) : Json :=
  .obj [(js "action", .str v.action.name), (js "reason", .str v.reason),
    (js "validator", .str v.validator)]

/-- The members of a context in the order `buildAdmissionGate` writes them. -/
def GateContext.toJson (ctx : GateContext) : Json :=
  .obj ([(js "operation", .str ctx.operation.name), (js "agentId", .str ctx.agentId),
      (js "payload", .obj ctx.payload)]
    ++ (ctx.tenantId.map fun id => (js "tenantId", Json.str id)).toList
    ++ (ctx.estimatedCostUnits.map fun n =>
      (js "estimatedCostUnits", Json.num (JsNumber.ofInt n))).toList)

def GateDecision.toJson (d : GateDecision) : Json :=
  .obj [(js "action", .str d.action.name),
    (js "verdicts", .arr (d.verdicts.map GateVerdict.toJson)), (js "context", d.context.toJson)]

variable {σ : Type}

/-- `evaluate(ctx)` at the time `timestamp` of the gate's clock, and the log afterwards. -/
def auditedGate (sha : Sha256) (enabled : Bool) (validators : List (GateValidator σ))
    (ctx : GateContext) (timestamp : JsString) (st : σ) (log : AuditLog) :
    (Except Thrown GateDecision × σ) × AuditLog :=
  match evaluateGate enabled validators none ctx st with
  | (.error e, st) => ((.error e, st), log)
  | (.ok decision, st) =>
      ((.ok decision, st),
        if enabled then log.append sha decision.toJson timestamp else log)

end Kaiban
