/-
The ceilings of spend, as the environment sets them.

A variable is a positive number or the word `unlimited`; anything else leaves the default.
A cap is the number its text stands for, before it is rounded to a double, and so it is one
exactly when that double is neither zero nor infinite.

The variables that were warned about are kept for the whole process.
-/
import Kaiban.Budget
import Kaiban.Lib.LowerCase

open JsString

namespace Kaiban

/-- `UNLIMITED_SENTINEL`. -/
def unlimitedSentinel : JsString := js "unlimited"

/-- `DEFAULT_MAX_WORKFLOW_COST_USD`. -/
def defaultMaxWorkflowCostUsd : JsNumber := .finite (Decimal.ofParts 5 (-1))

/-- `DEFAULT_MAX_TOKEN_BUDGET`. -/
def defaultMaxTokenBudget : JsNumber := JsNumber.ofInt 200000

/-- `DEFAULT_MAX_TASK_TOKEN_BUDGET`. -/
def defaultMaxTaskTokenBudget : JsNumber := JsNumber.ofInt 50000

/-- The double next to a number is positive and finite: halves go to zero below the least
double, and to infinity above the greatest. -/
def isPositiveDouble (d : Decimal) : Bool :=
  1 < (d : ℚ) * 2 ^ 1075 && (d : ℚ) < 2 ^ 1024 - 2 ^ 970

/-- `Number.isFinite(parsed) && parsed > 0`, with the number. -/
def positiveNumber : JsNumber → Option Decimal
  | .finite d => if isPositiveDouble d then some d else none
  | _ => none

/-- `raw?.trim() ?? ""`. -/
def capEnvText (raw : Option JsString) : JsString := JsNumber.trim (raw.getD [])

variable (T : CaseTables)

/-- `parseCapEnv(name, raw, fallback)`, with the variables that were warned about. -/
def parseCapEnv (warned : List JsString) (name : JsString) (raw : Option JsString)
    (fallback : JsNumber) : JsNumber × List JsString :=
  if capEnvText raw = [] then (fallback, warned)
  else if T.toLowerCase (capEnvText raw) = unlimitedSentinel then (.posInfinity, warned)
  else
    match positiveNumber (JsNumber.ofText (capEnvText raw)) with
    | some d => (.finite d, warned)
    | none => (fallback, if name ∈ warned then warned else warned ++ [name])

/-- `SpendCaps`. -/
structure SpendCaps where
  maxWorkflowCostUsd : JsNumber
  maxWorkflowTokens : JsNumber
  maxTokenBudget : JsNumber
  maxTaskTokenBudget : JsNumber

/-- A variable, and the cap it leaves when it sets none. -/
structure CapVariable where
  name : JsString
  fallback : JsNumber

namespace CapVariable

def maxWorkflowCostUsd : CapVariable := ⟨js "MAX_WORKFLOW_COST_USD", defaultMaxWorkflowCostUsd⟩

def maxWorkflowTokens : CapVariable := ⟨js "MAX_WORKFLOW_TOKENS", .posInfinity⟩

def maxTokenBudget : CapVariable := ⟨js "MAX_TOKEN_BUDGET", defaultMaxTokenBudget⟩

def maxTaskTokenBudget : CapVariable := ⟨js "MAX_TASK_TOKEN_BUDGET", defaultMaxTaskTokenBudget⟩

/-- The variable, read from an environment. -/
def read (v : CapVariable) (warned : List JsString) (env : JsString → Option JsString) :
    JsNumber × List JsString :=
  parseCapEnv T warned v.name (env v.name) v.fallback

end CapVariable

/-- `resolveSpendCaps(env)`. -/
def resolveSpendCaps (warned : List JsString) (env : JsString → Option JsString) :
    SpendCaps × List JsString :=
  let cost := CapVariable.maxWorkflowCostUsd.read T warned env
  let tokens := CapVariable.maxWorkflowTokens.read T cost.2 env
  let agent := CapVariable.maxTokenBudget.read T tokens.2 env
  let task := CapVariable.maxTaskTokenBudget.read T agent.2 env
  (⟨cost.1, tokens.1, agent.1, task.1⟩, task.2)

/-- `workflowBudgetFromEnv(env)`. -/
def workflowBudgetFromEnv (warned : List JsString) (env : JsString → Option JsString) :
    WorkflowBudget × List JsString :=
  let caps := resolveSpendCaps T warned env
  (⟨caps.1.maxWorkflowTokens, caps.1.maxWorkflowCostUsd⟩, caps.2)

end Kaiban
