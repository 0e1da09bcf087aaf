/-
Spend: what a step costs, and when a workflow has spent too much.

Everything that enters a total goes through `cleanSpendAmount`, which turns whatever a
handler reported into an amount, a number that is finite and not negative.  A running total
is rounded whenever an amount is added to it, and it can become infinite.  How numbers round
is a parameter: they are doubles, and for some results they are taken to be exact.
-/
import Kaiban.Lib.Double
import Kaiban.Lib.Number
import Mathlib.Algebra.Order.Nonneg.Basic

open JsString

namespace Kaiban

/-- A number of tokens or of dollars that has been cleaned, as it was given; the number the
language has for it is `Amount.number`. -/
abbrev Amount := {d : Decimal // 0 ≤ d}

/-- A spend as a caller or an extractor reports it. -/
structure SpendDelta where
  totalTokens : JsNumber
  estimatedCost : JsNumber
  deriving DecidableEq

/-- A spend that has been cleaned. -/
@[ext] structure SpendTotals where
  totalTokens : Amount
  estimatedCost : Amount
  deriving DecidableEq

namespace SpendTotals

def zero : SpendTotals := ⟨0, 0⟩

/-- The exact sum.  What the orchestrator adds up is `RunningTotals.add`. -/
def add (a b : SpendTotals) : SpendTotals :=
  ⟨a.totalTokens + b.totalTokens, a.estimatedCost + b.estimatedCost⟩

instance : Zero SpendTotals := ⟨zero⟩

instance : Add SpendTotals := ⟨add⟩

@[simp] theorem zero_totalTokens : (0 : SpendTotals).totalTokens = 0 := rfl

@[simp] theorem zero_estimatedCost : (0 : SpendTotals).estimatedCost = 0 := rfl

@[simp] theorem add_totalTokens (a b : SpendTotals) :
    (a + b).totalTokens = a.totalTokens + b.totalTokens := rfl

@[simp] theorem add_estimatedCost (a b : SpendTotals) :
    (a + b).estimatedCost = a.estimatedCost + b.estimatedCost := rfl

instance : AddCommMonoid SpendTotals where
  add_assoc a b c := SpendTotals.ext (add_assoc _ _ _) (add_assoc _ _ _)
  zero_add a := SpendTotals.ext (zero_add _) (zero_add _)
  add_zero a := SpendTotals.ext (add_zero _) (add_zero _)
  add_comm a b := SpendTotals.ext (add_comm _ _) (add_comm _ _)
  nsmul := nsmulRec

end SpendTotals

/-- A converted number as an amount; `none` is a conversion that threw. -/
def cleanNumber : Option JsNumber → Amount
  | some (.finite d) => if h : 0 < d then ⟨d, h.le⟩ else 0
  | _ => 0

/-- `cleanSpendAmount(x)`; a missing member is `none`. -/
def cleanSpendAmount : Option Json → Amount
  | none => cleanNumber (some (JsNumber.ofInt 0))
  | some .null => cleanNumber (some (JsNumber.ofInt 0))
  | some v => cleanNumber (Json.toNumber v)

/-! ### Running totals -/

/-- A running total; `⊤` is `Infinity`. -/
abbrev Total := WithTop Amount

/-- How numbers round, and how they are printed. -/
class Arithmetic where
  /-- The number next to an amount. -/
  round : Amount → Total
  /-- What is printed for a number. -/
  printed : Amount → Amount
  round_zero : round 0 = (0 : Amount)
  round_mono : ∀ {a b : Amount}, a ≤ b → round a ≤ round b
  round_round : ∀ {a b : Amount}, round a = b → round b = b
  round_printed : ∀ {a : Amount}, round a = a → round (printed a) = a

/-- The numbers of the language. -/
@[reducible] def Arithmetic.double : Arithmetic where
  round := Double.round
  printed := Double.shortest
  round_zero := Double.round_zero
  round_mono := Double.round_mono
  round_round := Double.round_round
  round_printed := Double.round_shortest

/-- Numbers that never round. -/
@[reducible] def Arithmetic.exact : Arithmetic where
  round a := a
  printed a := a
  round_zero := rfl
  round_mono := WithTop.coe_le_coe.mpr
  round_round := fun _ => rfl
  round_printed := id

section

variable [Arithmetic]

/-- The number an amount stands for.  One beyond all numbers is not finite and counts as
zero. -/
def Amount.number (a : Amount) : Amount := (Arithmetic.round a).untopD 0

/-- `total + amount`. -/
def Total.add (t : Total) (a : Amount) : Total :=
  match t with
  | some x => Arithmetic.round (x + a)
  | none => ⊤

/-- The total as a number of the language. -/
def Total.toNumber : Total → JsNumber
  | some x => .finite (Arithmetic.printed x).val
  | none => .posInfinity

/-- `total.toFixed(places)`. -/
def Total.toFixed (places : ℕ) : Total → JsString
  | some x =>
      if 10 ^ 21 ≤ (x.val : ℚ) then NumberText.numberText (Arithmetic.printed x).val
      else JsNumber.toFixed places x.val
  | none => js "Infinity"

/-- What a workflow has spent. -/
@[ext] structure RunningTotals where
  totalTokens : Total
  estimatedCost : Total
  deriving DecidableEq

/-- Totals that have not overflowed. -/
def SpendTotals.running (s : SpendTotals) : RunningTotals := ⟨s.totalTokens, s.estimatedCost⟩

instance : Zero RunningTotals := ⟨SpendTotals.running 0⟩

/-- The totals with a spend added. -/
def RunningTotals.add (t : RunningTotals) (a : SpendTotals) : RunningTotals :=
  ⟨t.totalTokens.add a.totalTokens, t.estimatedCost.add a.estimatedCost⟩

def cleanSpendTotals (delta : SpendDelta) : SpendTotals :=
  ⟨(cleanNumber (some delta.totalTokens)).number, (cleanNumber (some delta.estimatedCost)).number⟩

/-! ### Ceilings -/

/-- `WorkflowBudget`.  Infinity is no ceiling. -/
structure WorkflowBudget where
  maxTokens : JsNumber
  maxCostUsd : JsNumber

/-- The ceiling, when there is one to reach. -/
def isCapped (ceiling : JsNumber) : Option Amount :=
  let c := (cleanNumber (some ceiling)).number
  if 0 < c then some c else none

/-- `overBudgetReason(totals, budget)`. -/
def overBudgetReason (totals : RunningTotals) (budget : WorkflowBudget) : Option JsString :=
  match (isCapped budget.maxTokens).filter
      fun c : Amount => (c : Total) ≤ totals.totalTokens with
  | some c =>
      some (js "token budget exceeded (" ++ totals.totalTokens.toNumber.text
        ++ js " >= " ++ (Total.toNumber c).text ++ js ")")
  | none =>
      match (isCapped budget.maxCostUsd).filter
          fun c : Amount => (c : Total) ≤ totals.estimatedCost with
      | some c =>
          some (js "cost budget exceeded ($" ++ totals.estimatedCost.toFixed 4
            ++ js " >= $" ++ Total.toFixed 2 c ++ js ")")
      | none => none

/-- Some ceiling of the budget is a positive number the totals reach. -/
def OverBudget (totals : RunningTotals) (budget : WorkflowBudget) : Prop :=
  (∃ c, isCapped budget.maxTokens = some c ∧ c ≤ totals.totalTokens) ∨
    ∃ c, isCapped budget.maxCostUsd = some c ∧ c ≤ totals.estimatedCost

end

/-! ### What a handler result costs -/

/-- The names of the usage members. -/
def usageNames : List JsString := [js "inputTokens", js "outputTokens", js "estimatedCost"]

/-- `spendOfHandlerResult` of a value that is not a text. -/
def spendOfValue : Json → Option SpendTotals
  | .obj ms =>
      if usageNames.all fun k => (Json.get ms k).isNone then none
      else some
        ⟨cleanSpendAmount (Json.get ms (js "inputTokens"))
            + cleanSpendAmount (Json.get ms (js "outputTokens")),
          cleanSpendAmount (Json.get ms (js "estimatedCost"))⟩
  | _ => none

/-- `spendOfHandlerResult(result)`. -/
def spendOfHandlerResult : Json → Option SpendTotals
  | .str s => (Json.parse s).bind spendOfValue
  | v => spendOfValue v

/-! ### The saved spend -/

/-- `WorkflowStopReason` is `budget_exceeded`, so a saved stop is its detail. -/
structure PersistedSpend where
  totals : SpendTotals
  stop : Option JsString

section

variable [Arithmetic]

/-- The `result` text of the reserved entry. -/
def persistedText (totals : RunningTotals) (stop : Option JsString) : JsString :=
  Json.stringify (.obj
    [(js "totalTokens", .num totals.totalTokens.toNumber),
      (js "estimatedCost", .num totals.estimatedCost.toNumber),
      (js "stop", match stop with
        | none => .null
        | some detail => .obj [(js "reason", .str (js "budget_exceeded")),
            (js "detail", .str detail)])])

/-- A member of a value; a value that is no object has none. -/
def member (v : Option Json) (k : JsString) : Option Json :=
  match v with
  | some (.obj ms) => Json.get ms k
  | _ => none

/-- `String(v ?? "")`, with `none` for the error it throws. -/
def textOrEmpty : Option Json → Option JsString
  | none => some []
  | some .null => some []
  | some v => Json.toText v

/-- `parsePersistedSpend` of the reserved entry's text, or of no entry.  It is `none`
when the saved detail does not convert to a text. -/
def parsePersistedSpend (entry : Option JsString) : Option PersistedSpend :=
  let raw := entry.bind Json.parse
  let totals : SpendTotals :=
    ⟨(cleanSpendAmount (member raw (js "totalTokens"))).number,
      (cleanSpendAmount (member raw (js "estimatedCost"))).number⟩
  let stop := member raw (js "stop")
  match member stop (js "reason") with
  | some (.str r) =>
      if r = js "budget_exceeded" then
        (textOrEmpty (member stop (js "detail"))).map fun detail => ⟨totals, some detail⟩
      else some ⟨totals, none⟩
  | _ => some ⟨totals, none⟩

end

end Kaiban
