/-
The sliding-window circuit breaker.

It keeps the times of its failures and a flag.  Every reading of the clock comes with the call
that makes it; a failure is recorded at one reading and the list pruned at a second.
-/
import Kaiban.Lib.Number

open JsString

namespace Kaiban

/-- What a `SlidingWindowBreaker` is constructed with. -/
structure BreakerLimits where
  threshold : ℕ
  windowMs : Decimal
  threshold_pos : 1 ≤ threshold
  window_pos : 0 < windowMs

/-- The constructor: limits, or the message of its `RangeError`. -/
def BreakerLimits.create (threshold windowMs : JsNumber) : Except JsString BreakerLimits :=
  match threshold with
  | .finite n =>
      if hn : n.val.den = 1 ∧ 1 ≤ n.val.num then
        match windowMs with
        | .finite w =>
            if hw : 0 < w then
              .ok ⟨n.val.num.toNat, w, Int.toNat_le_toNat hn.2, hw⟩
            else .error (js "Circuit breaker window must be a positive number of ms, got "
              ++ windowMs.text)
        | _ => .error (js "Circuit breaker window must be a positive number of ms, got "
            ++ windowMs.text)
      else .error (js "Circuit breaker threshold must be an integer >= 1, got " ++ threshold.text)
  | _ => .error (js "Circuit breaker threshold must be an integer >= 1, got " ++ threshold.text)

structure SlidingWindowBreaker where
  failures : List Decimal
  opened : Bool

namespace SlidingWindowBreaker

variable (l : BreakerLimits)

def init : SlidingWindowBreaker := ⟨[], false⟩

/-- `pruneOldFailures()` at the time `now`. -/
def pruneOldFailures (s : SlidingWindowBreaker) (now : Decimal) : SlidingWindowBreaker :=
  { s with failures := s.failures.filter fun ts => now - l.windowMs < ts }

/-- The flag is taken back when too few failures are left. -/
def closeIfFew (s : SlidingWindowBreaker) : SlidingWindowBreaker :=
  if s.opened ∧ s.failures.length < l.threshold then { s with opened := false } else s

/-- `recordSuccess()`. -/
def recordSuccess (s : SlidingWindowBreaker) (now : Decimal) : SlidingWindowBreaker :=
  (s.pruneOldFailures l now).closeIfFew l

/-- `recordFailure()`, with the readings of its push and of its pruning. -/
def recordFailure (s : SlidingWindowBreaker) (now later : Decimal) : SlidingWindowBreaker :=
  let s := { s with failures := s.failures ++ [now] }.pruneOldFailures l later
  if ¬ s.opened ∧ l.threshold ≤ s.failures.length then { s with opened := true } else s

/-- `isOpen()`. -/
def isOpen (s : SlidingWindowBreaker) (now : Decimal) : Bool × SlidingWindowBreaker :=
  let s := (s.pruneOldFailures l now).closeIfFew l
  (s.opened, s)

end SlidingWindowBreaker

/-- A call of the breaker, with its readings of the clock. -/
inductive BreakerCall where
  | recordSuccess (now : Decimal)
  | recordFailure (now later : Decimal)
  | isOpen (now : Decimal)

namespace BreakerCall

/-- What the clock read. -/
def readings : BreakerCall → List Decimal
  | recordSuccess now => [now]
  | recordFailure now later => [now, later]
  | isOpen now => [now]

/-- When a failure was recorded. -/
def failureTime : BreakerCall → Option Decimal
  | recordFailure now _ => some now
  | _ => none

end BreakerCall

namespace SlidingWindowBreaker

variable (l : BreakerLimits)

def step (s : SlidingWindowBreaker) : BreakerCall → SlidingWindowBreaker
  | .recordSuccess now => s.recordSuccess l now
  | .recordFailure now later => s.recordFailure l now later
  | .isOpen now => (s.isOpen l now).2

/-- The breaker after some calls. -/
def after (calls : List BreakerCall) : SlidingWindowBreaker := calls.foldl (step l) init

end SlidingWindowBreaker

end Kaiban
