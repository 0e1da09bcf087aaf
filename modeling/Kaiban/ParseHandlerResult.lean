/-
How the callers of a workflow read the text a step completed with.

The text of a handler's result object gives its answer and its usage.  Every other text is
itself the answer, and so is one of whose members some conversion throws.
-/
import Kaiban.Budget

open JsString

namespace Kaiban

/-- `HandlerResult`, as `parseHandlerResult` returns it. -/
structure ParsedHandlerResult where
  answer : JsString
  inputTokens : Decimal
  outputTokens : Decimal
  estimatedCost : Decimal
  deriving DecidableEq

/-- `toSafeNumber(x)`, with `none` for the error `Number` throws. -/
def toSafeNumber : Option Json → Option Decimal
  | none => some 0
  | some .null => some 0
  | some v => (Json.toNumber v).map fun n =>
      match n with
      | .finite d => d
      | _ => 0

/-- The result object, when the value has an answer and every member converts. -/
def parsedMembers (ms : List (JsString × Json)) : Option ParsedHandlerResult := do
  let answer ← Json.get ms (js "answer")
  let text ← textOrEmpty (some answer)
  let input ← toSafeNumber (Json.get ms (js "inputTokens"))
  let output ← toSafeNumber (Json.get ms (js "outputTokens"))
  let cost ← toSafeNumber (Json.get ms (js "estimatedCost"))
  return ⟨text, input, output, cost⟩

/-- `parseHandlerResult(raw)`. -/
def parseHandlerResult (raw : JsString) : ParsedHandlerResult :=
  let plain : ParsedHandlerResult := ⟨raw, 0, 0, 0⟩
  match Json.parse raw with
  | some (.obj ms) => (parsedMembers ms).getD plain
  | _ => plain

end Kaiban
