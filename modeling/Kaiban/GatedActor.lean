/-
An agent behind an admission gate that reserves cost.

The gate of a delivery asks some validators, then the cost validator, then others.  What
these others answer, what the counters hold, what happens to the calls of the limiter and
whether the audit sink throws is given with the event, and is written down beside what the
gate left on the account of the delivery.
-/
import Kaiban.ActionGate

open JsString

namespace Kaiban

/-- A validator that does not use the limiter, with its answer. -/
structure OtherValidator where
  name : JsString
  answer : Except Thrown GateVerdict

def OtherValidator.validator (v : OtherValidator) : GateValidator LimiterStore :=
  ⟨v.name, fun _ st => (v.answer, st)⟩

structure GateConfig where
  options : AdmissionGateOptions
  enabled : Bool
  reservation : CostReservation
  scopeFor : Option (GateContext → BudgetScope)

/-- What a gate evaluation is given. -/
structure Gating where
  first : List OtherValidator
  last : List OtherValidator
  audit : Option Thrown
  counters : LimiterKey → ℤ
  fates : List Fate

/-- The store as the gate finds it, with nothing on the account of the delivery. -/
def Gating.store (g : Gating) : LimiterStore := ⟨g.counters, g.fates, fun _ => 0⟩

def Gating.validators (g : Gating) (gc : GateConfig) : List (GateValidator LimiterStore) :=
  g.first.map OtherValidator.validator ++ costValidator gc.reservation gc.scopeFor ::
    g.last.map OtherValidator.validator

/-- The guard's answer for a payload, and the store afterwards. -/
def Gating.evaluate (g : Gating) (gc : GateConfig) (p : Payload) :
    Except Thrown Verdict × LimiterStore :=
  admissionGate gc.options gc.enabled (g.validators gc) g.audit p g.store

structure GatedActor where
  actor : Actor
  -- history: what the gate of a delivery was given, and left on its account
  gatings : ℕ → Option (Gating × (LimiterKey → ℤ))

def GatedActor.init : GatedActor := ⟨.init, fun _ => none⟩

inductive GatedEvent where
  | gate (d : ℕ) (g : Gating)
  /-- Any other reaction of the agent. -/
  | actor (e : ActorEvent)

namespace GatedActor

/-- The units held in a scope on account of a delivery. -/
def held (s : GatedActor) (d : ℕ) (k : LimiterKey) : ℤ :=
  match s.gatings d with
  | none => 0
  | some (_, account) => account k

def step (cfg : ActorConfig) (gc : GateConfig) (s : GatedActor) : GatedEvent → Option GatedActor
  | .gate d g =>
      match s.actor.deliveries d with
      | none => none
      | some del =>
          let (verdict, store) := g.evaluate gc del.payload
          (s.actor.step cfg (.act d (.gate verdict))).map fun a =>
            { actor := a
              gatings := fun x => if x = d then some (g, store.account) else s.gatings x }
  | .actor e =>
      if e.isGate then none else (s.actor.step cfg e).map fun a => { s with actor := a }

end GatedActor

end Kaiban
