/-
The heuristic firewall.

A pattern is given by its source and by the texts it matches.
-/
import Kaiban.ActionGate
import Kaiban.Budget

open JsString

namespace Kaiban

/-- A regular expression of `INJECTION_PATTERNS`. -/
structure InjectionPattern where
  source : JsString
  test : JsString → Bool

/-- `HeuristicFirewall.evaluate(payload)`.  A field that has no text makes it reject. -/
def heuristicFirewall (injectionPatterns : List InjectionPattern) (p : Payload) :
    Except Thrown Verdict :=
  match textOrEmpty (Json.get p.data (js "instruction")),
    textOrEmpty (Json.get p.data (js "context")) with
  | some instruction, some context =>
      let combined := instruction ++ js "\n" ++ context
      match injectionPatterns.find? fun pattern => pattern.test combined with
      | some pattern =>
          .ok ⟨false, some (js "Blocked by semantic firewall: matched injection pattern \"" ++
            pattern.source ++ js "\"")⟩
      | none => .ok ⟨true, none⟩
  | _, _ => .error noTextError

end Kaiban
