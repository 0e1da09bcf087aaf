/-
A completion on its way from the agent to the orchestrator.

The agent caps its message, a driver carries the message as JSON, the router turns the
result into a text, and the orchestrator reads the spend off that text.
-/
import Kaiban.Budget
import Kaiban.Outbound

open JsString

namespace Kaiban

/-- What a driver delivers of the data it was given. -/
def transported (data : MessageData) : Option MessageData :=
  match Json.parse (Json.stringify (.obj data)) with
  | some (.obj ms) => some ms
  | _ => none

/-- `String(result)` of a JSON value, which throws for an object with a member named
`toString`. -/
def valueText (result : Json) : Except Unit JsString :=
  match Json.toText result with
  | none => .error ()
  | some t => .ok t

/-- The text the router resolves a wait with. -/
def completionText (data : MessageData) : JsString :=
  match Json.get data (js "result") with
  | some (.str s) => s
  | none => Json.stringify (.str [])
  | some .null => Json.stringify (.str [])
  | some v => Json.stringify v

/-- The spend the orchestrator accounts for a step whose handler returned `result`.  It
is `none` when no completion arrives, or when the text it carries names no spend. -/
def accountedSpend (result : Json) : Option SpendTotals :=
  match capDataSize (completedData result) (valueText result) with
  | .error () => none
  | .ok data => (transported data).bind fun received =>
      spendOfHandlerResult (.str (completionText received))

/-- What a text result may take, as JSON, in a message that was capped. -/
def textBudget : ℕ := (resultBudget (completedData .null)).toNat

end Kaiban
