/-
Rate and cost budgets, and the admission that reserves against them.

Each scope has a counter in a store that others use too.  A `consume` adds its units and
is rejected when the counter is then above the limit: the addition stays.  A `reward`
takes units back.  Either may fail with an error of the store.

What others do between two calls, and which calls fail, is given from outside, a `Fate`
for each call.
-/
import Kaiban.Actor
import Mathlib.Algebra.Order.Field.Rat
import Mathlib.Order.WithBot

open JsString

namespace Kaiban

/-- `BudgetScope`. -/
structure BudgetScope where
  tenantId : Option JsString
  agentId : Option JsString

/-- `EconomicsConfig`. -/
structure EconomicsConfig where
  enabled : Bool
  maxRequestsPerWindow : ℤ
  maxCostPerWindow : ℤ
  globalCostCeiling : ℤ
  degradeThreshold : ℚ

inductive Concern where
  | rate
  | cost
  deriving DecidableEq

inductive Tier where
  | global
  | tenant
  | agent
  deriving DecidableEq

/-- A counter: the limiter's `keyPrefix` and the key. -/
structure LimiterKey where
  concern : Concern
  tier : Tier
  key : JsString
  deriving DecidableEq

/-- `LimiterTarget`. -/
structure LimiterTarget where
  key : LimiterKey
  points : ℤ

/-- `LimiterReservation`; `remaining` is `⊤` where nothing is limited. -/
structure LimiterReservation where
  ok : Bool
  remaining : WithTop ℤ
  utilization : ℚ

/-- `UNLIMITED`. -/
def LimiterReservation.unlimited : LimiterReservation := ⟨true, ⊤, 0⟩

/-- `REJECTED`. -/
def LimiterReservation.rejected : LimiterReservation := ⟨false, 0, 1⟩

/-! ### The store -/

/-- What comes before a call, and whether the call fails. -/
structure Fate where
  others : LimiterKey → ℤ
  error : Option Thrown

structure LimiterStore where
  counters : LimiterKey → ℤ
  /-- The fates of the next calls; after these nobody interferes and none fails. -/
  fates : List Fate
  -- history: what the calls have added, less what they have taken back
  account : LimiterKey → ℤ

namespace LimiterStore

def add (f : LimiterKey → ℤ) (k : LimiterKey) (units : ℤ) : LimiterKey → ℤ :=
  fun x => if x = k then f x + units else f x

/-- What comes before the next call. -/
def before (st : LimiterStore) : LimiterStore :=
  match st.fates with
  | [] => st
  | fate :: rest =>
      { st with counters := fun k => st.counters k + fate.others k, fates := rest }

/-- The error of the next call. -/
def error (st : LimiterStore) : Option Thrown := st.fates.head?.bind Fate.error

def charge (st : LimiterStore) (k : LimiterKey) (units : ℤ) : LimiterStore :=
  { st with counters := add st.counters k units, account := add st.account k units }

end LimiterStore

/-- `RateLimiterRes`. -/
structure RateLimiterRes where
  remainingPoints : ℤ
  consumedPoints : ℤ

/-- `consumeOne(target, units)`: none when the counter is above the limit. -/
def consumeOne (target : LimiterTarget) (units : ℤ) (st : LimiterStore) :
    Except Thrown (Option RateLimiterRes) × LimiterStore :=
  match st.error with
  | some e => (.error e, st.before)
  | none =>
      let st := st.before.charge target.key units
      let consumed := st.counters target.key
      if target.points < consumed then (.ok none, st)
      else (.ok (some ⟨max (target.points - consumed) 0, consumed⟩), st)

/-- `limiter.reward(key, units)` of each target in turn, as in `compensate(consumed, units)`
and in `releaseCost(scope, units)`. -/
def compensate (units : ℤ) : List LimiterTarget → LimiterStore → Except Thrown Unit × LimiterStore
  | [], st => (.ok (), st)
  | target :: rest, st =>
      match st.error with
      | some e => (.error e, st.before)
      | none => compensate units rest (st.before.charge target.key (-units))

/-- The loop of `consumeTargets(targets, units)`. -/
def consumeTargets (units : ℤ) : List LimiterTarget → List LimiterTarget → WithTop ℤ → ℚ →
    LimiterStore → Except Thrown LimiterReservation × LimiterStore
  | [], _, remaining, utilization, st => (.ok ⟨true, remaining, utilization⟩, st)
  | target :: rest, consumed, remaining, utilization, st =>
      match consumeOne target units st with
      | (.error e, st) => (.error e, st)
      | (.ok none, st) =>
          match compensate units consumed st with
          | (.error e, st) => (.error e, st)
          | (.ok (), st) => (.ok .rejected, st)
      | (.ok (some res), st) =>
          consumeTargets units rest (consumed ++ [target]) (min remaining (res.remainingPoints : ℤ))
            (max utilization ((res.consumedPoints : ℚ) / target.points)) st

/-- `buildTargets(concern, scope, globalLimit, scopeLimit)`. -/
def buildTargets (cfg : EconomicsConfig) (concern : Concern) (scope : BudgetScope)
    (globalLimit scopeLimit : ℤ) : List LimiterTarget :=
  if cfg.enabled then
    (if 0 < globalLimit then [⟨⟨concern, .global, js "global"⟩, globalLimit⟩] else []) ++
      (match scope.tenantId with
        | some id => if 0 < scopeLimit then [⟨⟨concern, .tenant, id⟩, scopeLimit⟩] else []
        | none => []) ++
      (match scope.agentId with
        | some id => if 0 < scopeLimit then [⟨⟨concern, .agent, id⟩, scopeLimit⟩] else []
        | none => [])
  else []

/-- `rateTargets(scope)`. -/
def rateTargets (cfg : EconomicsConfig) (scope : BudgetScope) : List LimiterTarget :=
  buildTargets cfg .rate scope cfg.maxRequestsPerWindow cfg.maxRequestsPerWindow

/-- `costTargets(scope)`. -/
def costTargets (cfg : EconomicsConfig) (scope : BudgetScope) : List LimiterTarget :=
  buildTargets cfg .cost scope cfg.globalCostCeiling cfg.maxCostPerWindow

/-- What a reservation against some targets gives. -/
def consumeAll (targets : List LimiterTarget) (units : ℤ) (st : LimiterStore) :
    Except Thrown LimiterReservation × LimiterStore :=
  if targets = [] then (.ok .unlimited, st) else consumeTargets units targets [] ⊤ 0 st

/-- `consumeRequest(scope)`. -/
def consumeRequest (cfg : EconomicsConfig) (scope : BudgetScope) (st : LimiterStore) :
    Except Thrown LimiterReservation × LimiterStore := consumeAll (rateTargets cfg scope) 1 st

/-- `reserveCost(scope, units)`. -/
def reserveCost (cfg : EconomicsConfig) (scope : BudgetScope) (units : ℤ) (st : LimiterStore) :
    Except Thrown LimiterReservation × LimiterStore := consumeAll (costTargets cfg scope) units st

/-- `releaseCost(scope, units)`. -/
def releaseCost (cfg : EconomicsConfig) (scope : BudgetScope) (units : ℤ) (st : LimiterStore) :
    Except Thrown Unit × LimiterStore := compensate units (costTargets cfg scope) st

/-! ### Admission -/

/-- `AdmissionDecision`. -/
inductive AdmissionDecision where
  | allow
  | degrade
  | reject
  deriving DecidableEq

/-- `AdmissionResult`. -/
structure AdmissionResult where
  decision : AdmissionDecision
  remaining : WithTop ℤ
  utilization : ℚ
  reason : JsString

/-- A `CostReservation`, and the config of the limiter it reserves against. -/
structure CostReservation where
  config : EconomicsConfig
  limiter : EconomicsConfig

/-- `admit(scope, units)`. -/
def CostReservation.admitCall (r : CostReservation) (scope : BudgetScope) (units : ℤ)
    (st : LimiterStore) : Except Thrown AdmissionResult × LimiterStore :=
  if r.config.enabled then
    match consumeRequest r.limiter scope st with
    | (.error e, st) => (.error e, st)
    | (.ok rate, st) =>
        if rate.ok then
          match reserveCost r.limiter scope units st with
          | (.error e, st) => (.error e, st)
          | (.ok cost, st) =>
              if cost.ok then
                (.ok (if r.config.degradeThreshold ≤ cost.utilization
                  then ⟨.degrade, cost.remaining, cost.utilization,
                    js "budget pressure ≥ degrade threshold"⟩
                  else ⟨.allow, cost.remaining, cost.utilization, js "within budget"⟩), st)
              else (.ok ⟨.reject, cost.remaining, cost.utilization,
                js "cost budget exceeded (pre-exec)"⟩, st)
        else (.ok ⟨.reject, 0, 1, js "request rate exceeded"⟩, st)
  else (.ok ⟨.allow, ⊤, 0, js "economics disabled"⟩, st)

/-- `release(scope, units)`. -/
def CostReservation.release (r : CostReservation) (scope : BudgetScope) (units : ℤ)
    (st : LimiterStore) : Except Thrown Unit × LimiterStore := releaseCost r.limiter scope units st

end Kaiban
