/-
Which model a step is routed to, and what the tokens of a step cost.

Amounts are exact rationals.  A count of tokens may be negative, and the cached ones may be
more than there are.
-/
import Kaiban.Lib.Text
import Mathlib.Algebra.Order.Field.Rat
import Mathlib.Data.List.Lex
import Mathlib.Data.Rat.Floor

open JsString

namespace Kaiban

/-- `clamp(value, min, max)`. -/
def clamp (value lo hi : ℚ) : ℚ := min (max value lo) hi

/-- `Math.round(x)`: halves are rounded up. -/
def mathRound (x : ℚ) : ℤ := ⌊x + 1 / 2⌋

/-- `ModelPricing`. -/
structure ModelPricing where
  inputPer1k : ℚ
  outputPer1k : ℚ
  cacheDiscount : Option ℚ

/-! ### Routing -/

/-- `ModelCandidate`. -/
structure ModelCandidate where
  id : JsString
  pricing : ModelPricing
  capability : ℚ
  contextWindow : ℚ

/-- `RoutingRequest`. -/
structure RoutingRequest where
  minCapability : ℚ
  estimatedTokens : ℚ
  budgetPressure : ℚ

/-- `RoutingDecision`. -/
structure RoutingDecision where
  modelId : Option JsString
  reason : JsString
  deriving DecidableEq

/-- `costProxy(candidate)`. -/
def costProxy (candidate : ModelCandidate) : ℚ :=
  candidate.pricing.inputPer1k + candidate.pricing.outputPer1k

/-- `score(candidate, pressure)`. -/
def score (candidate : ModelCandidate) (pressure : ℚ) : ℚ :=
  candidate.capability * (1 - pressure) - costProxy candidate * pressure

/-- `isEligible(candidate, req)`. -/
def isEligible (candidate : ModelCandidate) (req : RoutingRequest) : Bool :=
  req.minCapability ≤ candidate.capability && req.estimatedTokens ≤ candidate.contextWindow

/-- `preferred(a, b, pressure)`. -/
def preferred (a b : ModelCandidate) (pressure : ℚ) : Bool :=
  let scoreDelta := score a pressure - score b pressure
  if scoreDelta ≠ 0 then 0 < scoreDelta
  else if a.capability ≠ b.capability then b.capability < a.capability
  else
    let costDelta := costProxy a - costProxy b
    if costDelta ≠ 0 then costDelta < 0 else a.id < b.id

/-- `pickBest(eligible, pressure)`, of a list that is not empty. -/
def pickBest (first : ModelCandidate) (rest : List ModelCandidate) (pressure : ℚ) :
    ModelCandidate :=
  rest.foldl (fun best candidate => if preferred candidate best pressure then candidate else best)
    first

/-- `routeModel(req, candidates)`. -/
def routeModel (req : RoutingRequest) (candidates : List ModelCandidate) : RoutingDecision :=
  match candidates.filter fun candidate => isEligible candidate req with
  | [] => ⟨none, js "no candidate meets capability/context requirements"⟩
  | first :: rest =>
      let pressure := clamp req.budgetPressure 0 1
      ⟨some (pickBest first rest pressure).id,
        if 1 / 2 ≤ pressure then js "right-sized under budget pressure"
        else js "capability-first selection"⟩

/-! ### Prompt-cache accounting -/

/-- `TokenUsage`. -/
structure TokenUsage where
  inputTokens : ℚ
  outputTokens : ℚ
  cachedInputTokens : Option ℚ

/-- `CostBreakdown`. -/
structure CostBreakdown where
  costUnits : ℤ
  cacheSavings : ℤ
  deriving DecidableEq

/-- `nonNegative(value)`. -/
def nonNegative : Option ℚ → ℚ
  | some value => if 0 < value then value else 0
  | none => 0

/-- `priceUsage(usage, pricing)`. -/
def priceUsage (usage : TokenUsage) (pricing : ModelPricing) : CostBreakdown :=
  let inputTokens := nonNegative (some usage.inputTokens)
  let outputTokens := nonNegative (some usage.outputTokens)
  let cached := clamp (nonNegative usage.cachedInputTokens) 0 inputTokens
  let uncachedInput := inputTokens - cached
  let discount := pricing.cacheDiscount.getD 1
  let inputCost := uncachedInput / 1000 * pricing.inputPer1k +
    cached / 1000 * pricing.inputPer1k * discount
  let outputCost := outputTokens / 1000 * pricing.outputPer1k
  ⟨mathRound (inputCost + outputCost),
    mathRound (cached / 1000 * pricing.inputPer1k * (1 - discount))⟩

end Kaiban
