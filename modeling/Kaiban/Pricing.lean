/-
What the tokens of a model cost.

Amounts are exact rationals.  The table is an object, so a model of the name of a member
every object has finds that member instead of a price.  The warnings are left out.
-/
import Kaiban.Lib.LowerCase
import Kaiban.Lib.StableSort
import Kaiban.Orchestrator
import Mathlib.Algebra.Order.Field.Rat

open JsString

namespace Kaiban

/-- `Price`: dollars for a million tokens. -/
structure Price where
  input : ℚ
  output : ℚ
  deriving DecidableEq

/-- `MODEL_PRICING`. -/
def modelPricing : List (JsString × Price) :=
  [(js "gpt-4o", ⟨5 / 2, 10⟩),
    (js "gpt-4o-mini", ⟨15 / 100, 6 / 10⟩),
    (js "gpt-4-turbo", ⟨10, 30⟩),
    (js "gpt-3.5-turbo", ⟨1 / 2, 3 / 2⟩),
    (js "claude-3-5-sonnet-20241022", ⟨3, 15⟩),
    (js "claude-3-5-haiku-20241022", ⟨8 / 10, 4⟩),
    (js "claude-3-haiku-20240307", ⟨25 / 100, 125 / 100⟩),
    (js "openai/gpt-4o", ⟨5 / 2, 10⟩),
    (js "openai/gpt-4o-mini", ⟨15 / 100, 6 / 10⟩),
    (js "anthropic/claude-3-haiku", ⟨25 / 100, 125 / 100⟩),
    (js "google/gemini-flash-1.5", ⟨75 / 1000, 3 / 10⟩),
    (js "default", ⟨1, 3⟩)]

def defaultPrice : Price := ⟨1, 3⟩

/-! ### Names -/

def isHyphen (u : CodeUnit) : Bool := u = unit '-'

/-- `[-:]`. -/
def isSeparator (u : CodeUnit) : Bool := u = unit '-' || u = unit ':'

/-- What follows `n` digits. -/
def afterDigits : ℕ → JsString → Option JsString
  | 0, s => some s
  | _ + 1, [] => none
  | n + 1, u :: s => if NumberText.isDigit u then afterDigits n s else none

/-- What follows a hyphen, if there is one. -/
def afterHyphen : JsString → JsString
  | [] => []
  | u :: s => if isHyphen u then s else u :: s

/-- `[-:]\d{4}-?\d{2}-?\d{2}`. -/
def isDateSuffix : JsString → Bool
  | [] => false
  | u :: s =>
      isSeparator u && (((afterDigits 4 s).bind fun s => afterDigits 2 (afterHyphen s)).bind
        fun s => afterDigits 2 (afterHyphen s)) = some []

/-- `[-:]v\d+`. -/
def isVersionSuffix : JsString → Bool
  | u :: v :: d :: s =>
      isSeparator u && v = unit 'v' && (d :: s).all NumberText.isDigit
  | _ => false

/-- The text up to the longest end of it that has the form. -/
def dropSuffix (form : JsString → Bool) : JsString → JsString
  | [] => []
  | u :: s => if form (u :: s) then [] else u :: dropSuffix form s

/-- `.replace(/^[^/]+\//, "")`. -/
def dropProvider (s : JsString) : JsString :=
  match s.dropWhile fun u => u ≠ unit '/' with
  | [] => s
  | _ :: rest => if s.head? = some (unit '/') then s else rest

variable (T : CaseTables)

/-- `normalizeModel(model)`. -/
def normalizeModel (model : JsString) : JsString :=
  dropSuffix isVersionSuffix (dropSuffix isDateSuffix (dropProvider (T.toLowerCase model)))

/-! ### Prices -/

/-- An entry of `NORMALIZED_PRICING`. -/
structure NormalizedPrice where
  key : JsString
  norm : JsString
  price : Price

/-- `NORMALIZED_PRICING`: the longest first. -/
def normalizedPricing : List NormalizedPrice :=
  StableSort.byKey (fun e => e.norm.length)
    ((modelPricing.filter fun m => m.1 ≠ js "default").map fun m =>
      ⟨m.1, normalizeModel T m.1, m.2⟩)

/-- What reading a property of `MODEL_PRICING` finds: a price, or a member every object has. -/
inductive PricingEntry where
  | price (p : Price)
  | inherited (name : JsString)
  deriving DecidableEq

/-- `MODEL_PRICING[model]`. -/
def pricingOf (model : JsString) : Option PricingEntry :=
  match modelPricing.find? fun m => m.1 = model with
  | some m => some (.price m.2)
  | none => if model ∈ inheritedNames then some (.inherited model) else none

/-- `resolvePricing(model)`. -/
def resolvePricing (model : JsString) : PricingEntry :=
  match pricingOf model with
  | some exact => exact
  | none =>
      let normalized := normalizeModel T model
      match (normalizedPricing T).find? fun e => e.norm = normalized with
      | some same => .price same.price
      | none =>
          match (normalizedPricing T).find? fun e => (e.norm ++ js "-").isPrefixOf normalized with
          | some longer => .price longer.price
          | none => .price defaultPrice

/-- `estimateCost(model, inputTokens, outputTokens)`, with `none` for `NaN`. -/
def estimateCost (model : JsString) (inputTokens outputTokens : ℚ) : Option ℚ :=
  match resolvePricing T model with
  | .price p => some (inputTokens / 1000000 * p.input + outputTokens / 1000000 * p.output)
  | .inherited _ => none

end Kaiban
