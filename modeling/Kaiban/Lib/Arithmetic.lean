/-
Sums and comparisons of numbers.

A sum with no value is `nan`, and `nan` compares to nothing.  Sums of finite numbers are
exact.
-/
import Kaiban.Lib.Number

namespace JsNumber

/-- `a + b`. -/
def add : JsNumber → JsNumber → JsNumber
  | .nan, _ => .nan
  | _, .nan => .nan
  | .posInfinity, .negInfinity => .nan
  | .negInfinity, .posInfinity => .nan
  | .posInfinity, _ => .posInfinity
  | _, .posInfinity => .posInfinity
  | .negInfinity, _ => .negInfinity
  | _, .negInfinity => .negInfinity
  | .finite a, .finite b => .finite (a + b)

/-- `a <= b`. -/
def le : JsNumber → JsNumber → Bool
  | .nan, _ => false
  | _, .nan => false
  | .negInfinity, _ => true
  | _, .posInfinity => true
  | .posInfinity, _ => false
  | _, .negInfinity => false
  | .finite a, .finite b => a ≤ b

theorem le_trans {a b c : JsNumber} (hab : le a b = true) (hbc : le b c = true) :
    le a c = true := by
  cases a <;> cases b <;> cases c <;> simp_all [le]
  exact hab.trans hbc

end JsNumber
