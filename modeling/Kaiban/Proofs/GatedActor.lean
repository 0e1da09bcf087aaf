/-
Deliveries that are refused with a reservation in hand.

A gate answers a delivery once, and what it leaves on the account of the delivery stays:
no reaction of the agent gives anything back.  So a refused delivery holds nothing exactly
when its gate did not come to charge a scope.
-/
import Kaiban.Proofs.Actor.Reactions
import Kaiban.Proofs.Reservation

open JsString

namespace Kaiban

variable {gc : GateConfig} {cfg : ActorConfig}

/-! ### The store after a gate -/

/-- The validator does not throw a value without a text. -/
def OtherValidator.Settles (v : OtherValidator) : Prop := ∀ e, v.answer = .error e → e.text ≠ none

theorem runValidators_append {σ : Type} (ctx : GateContext) (vs ws : List (GateValidator σ))
    (st : σ) :
    (runValidators ctx (vs ++ ws) st).2 =
      match runValidators ctx vs st with
      | (.error _, st) => st
      | (.ok _, st) => (runValidators ctx ws st).2 := by
  induction vs generalizing st with
  | nil => rfl
  | cons v rest ih =>
      rw [List.cons_append, runValidators, runValidators]
      rcases runValidator v ctx st with ⟨answer, after⟩
      cases answer with
      | error e => rfl
      | ok verdict =>
          dsimp only
          have hrest := ih after
          rcases hall : runValidators ctx (rest ++ ws) after with ⟨all, last⟩
          rcases hsome : runValidators ctx rest after with ⟨some, middle⟩
          rw [hall, hsome] at hrest
          cases some with
          | error e => cases all <;> exact hrest
          | ok verdicts => cases all <;> exact hrest

/-- The other validators leave the store alone, and fail only on a value without a text. -/
theorem runValidators_others (ctx : GateContext) (vs : List OtherValidator) (st : LimiterStore) :
    ((∀ v ∈ vs, v.Settles) ∧
      ∃ verdicts, runValidators ctx (vs.map OtherValidator.validator) st = (.ok verdicts, st)) ∨
    ((¬ ∀ v ∈ vs, v.Settles) ∧
      ∃ e, runValidators ctx (vs.map OtherValidator.validator) st = (.error e, st)) := by
  induction vs with
  | nil => exact .inl ⟨by simp, [], rfl⟩
  | cons v rest ih =>
      have hv : (v.Settles ∧ ∃ verdict, runValidator v.validator ctx st = (.ok verdict, st)) ∨
          (¬ v.Settles ∧ ∃ e, runValidator v.validator ctx st = (.error e, st)) := by
        unfold runValidator OtherValidator.validator OtherValidator.Settles
        cases v.answer with
        | ok verdict => exact .inl ⟨by simp, verdict, rfl⟩
        | error e =>
            dsimp only
            cases htext : e.text with
            | none => exact .inr ⟨by simp [htext], noTextError, rfl⟩
            | some reason => exact .inl ⟨by simp [htext], _, rfl⟩
      rw [List.map_cons, runValidators]
      rcases hv with ⟨hsettles, verdict, heq⟩ | ⟨hnot, e, heq⟩
      · rw [heq]
        dsimp only
        rcases ih with ⟨hall, verdicts, hrest⟩ | ⟨hnot, e, hrest⟩
        · rw [hrest]
          exact .inl ⟨List.forall_mem_cons.mpr ⟨hsettles, hall⟩, _, rfl⟩
        · rw [hrest]
          refine .inr ⟨fun hall => hnot fun w hw => hall w (by simp [hw]), e, rfl⟩
      · rw [heq]
        exact .inr ⟨fun hall => hnot (hall v (by simp)), e, rfl⟩

theorem runValidator_cost (r : CostReservation) (scopeFor : Option (GateContext → BudgetScope))
    (ctx : GateContext) (st : LimiterStore) :
    (runValidator (costValidator r scopeFor) ctx st).2
      = (CostReservation.admitCall r (costScope scopeFor ctx) (costUnits ctx) st).2 := by
  unfold runValidator costValidator
  dsimp only
  rcases CostReservation.admitCall r (costScope scopeFor ctx) (costUnits ctx) st
    with ⟨result, after⟩
  cases result with
  | ok result => rfl
  | error e =>
      dsimp only
      split <;> rfl

/-- The gate has come to charge a scope for a payload. -/
structure Gating.Charges (g : Gating) (gc : GateConfig) (p : Payload) : Prop where
  enabled : gc.enabled = true
  reached : ∀ v ∈ g.first, v.Settles
  admits : Admits gc.reservation (costScope gc.scopeFor (gateContext gc.options p))
    (costUnits (gateContext gc.options p)) g.store

/-- The store after a gate that is enabled. -/
theorem evaluate_store (g : Gating) (p : Payload) (henabled : gc.enabled = true) :
    (g.evaluate gc p).2
      = (runValidators (gateContext gc.options p) (g.validators gc) g.store).2 := by
  unfold Gating.evaluate admissionGate evaluateGate
  rw [if_pos henabled]
  rcases runValidators (gateContext gc.options p) (g.validators gc) g.store with ⟨verdicts, after⟩
  cases verdicts with
  | error e => rfl
  | ok verdicts =>
      dsimp only
      cases g.audit <;> rfl

/-- **A gate leaves no units behind exactly when it does not charge.** -/
theorem evaluate_account_iff (g : Gating) (gc : GateConfig) (p : Payload) :
    (∀ k, k.concern = .cost → (g.evaluate gc p).2.account k = 0) ↔ ¬ g.Charges gc p := by
  by_cases henabled : gc.enabled = true
  · rw [evaluate_store g p henabled]
    let scope := costScope gc.scopeFor (gateContext gc.options p)
    let units := costUnits (gateContext gc.options p)
    have hadmit := admit_account_iff gc.reservation scope units g.store
    unfold Gating.validators
    rw [runValidators_append]
    rcases runValidators_others (gateContext gc.options p) g.first g.store with
      ⟨hall, verdicts, heq⟩ | ⟨hnot, e, heq⟩
    · have hlast : (runValidators (gateContext gc.options p)
          (costValidator gc.reservation gc.scopeFor :: g.last.map OtherValidator.validator)
            g.store).2 = (CostReservation.admitCall gc.reservation scope units g.store).2 := by
        rw [← runValidator_cost, runValidators]
        rcases runValidator (costValidator gc.reservation gc.scopeFor) (gateContext gc.options p)
          g.store with ⟨answer, after⟩
        cases answer with
        | error e => rfl
        | ok verdict =>
            dsimp only
            rcases runValidators_others (gateContext gc.options p) g.last after with
              ⟨-, verdicts, hrest⟩ | ⟨-, e, hrest⟩ <;> rw [hrest]
      rw [heq]
      dsimp only
      rw [hlast]
      constructor
      · intro hnone hcharges
        exact hadmit.mp hnone hcharges.admits
      · intro hnot k hk
        exact hadmit.mpr (fun hadmits => hnot ⟨henabled, hall, hadmits⟩) k hk
    · rw [heq]
      exact ⟨fun _ hcharges => hnot hcharges.reached, fun _ k _ => rfl⟩
  · refine ⟨fun _ hcharges => henabled hcharges.enabled, fun _ k _ => ?_⟩
    unfold Gating.evaluate admissionGate evaluateGate
    rw [if_neg henabled]
    rfl

/-! ### A gate answers once -/

namespace GatedActor

variable {s s' : GatedActor}

/-- What is written down of a gate is what it left, and its delivery is past it. -/
def Booked (gc : GateConfig) (s : GatedActor) : Prop :=
  ∀ d g account, s.gatings d = some (g, account) → ∃ del, s.actor.deliveries d = some del ∧
    account = (g.evaluate gc del.payload).2.account ∧ del.PastGate

theorem booked_actor {a : Actor} {e : ActorEvent} (h : Booked gc s)
    (hstep : s.actor.step cfg e = some a) : Booked gc { s with actor := a } := by
  intro d g account hg
  obtain ⟨del, hd, haccount, hpast⟩ := h d g account hg
  obtain ⟨del', hd', hpayload⟩ := Actor.payload_step hstep hd
  refine ⟨del', hd', by rw [hpayload]; exact haccount, ?_⟩
  rcases Actor.step_change hstep d with hsame | ⟨p, b, -, hnone, -⟩ |
    ⟨x, old, new, -, hold, hr, hnew⟩ |
    ⟨err, old, -, hold, hnew⟩
  · obtain rfl : del = del' := Option.some.inj ((hsame.trans hd).symm.trans hd')
    exact hpast
  · exact absurd (hd.symm.trans hnone) (by simp)
  · obtain rfl : del = old := Option.some.inj (hd.symm.trans hold)
    obtain rfl : new = del' := Option.some.inj (hnew.symm.trans hd')
    exact hr.pastGate (.inl hpast)
  · obtain rfl : del = old := Option.some.inj (hd.symm.trans hold)
    obtain rfl : del.abort err = del' := Option.some.inj (hnew.symm.trans hd')
    exact Delivery.abort_pastGate hpast err

/-- Every step keeps the books. -/
theorem booked_step {e : GatedEvent} (h : Booked gc s) (hstep : s.step cfg gc e = some s') :
    Booked gc s' := by
  cases e with
  | actor e =>
      simp only [step, Option.ite_none_left_eq_some] at hstep
      obtain ⟨-, hstep⟩ := hstep
      obtain ⟨a, ha, rfl⟩ := Option.map_eq_some_iff.mp hstep
      exact booked_actor h ha
  | gate d g =>
      simp only [step] at hstep
      split at hstep
      · exact absurd hstep (by simp)
      · rename_i del hd
        obtain ⟨a, ha, rfl⟩ := Option.map_eq_some_iff.mp hstep
        intro x g' account hx
        by_cases hxd : x = d
        · subst hxd
          obtain ⟨rfl, rfl⟩ := Prod.mk.inj (Option.some.inj ((if_pos rfl).symm.trans hx))
          obtain ⟨new, hr, hnew⟩ := Actor.act_step ha hd
          exact ⟨new, hnew, by rw [hr.payload], hr.pastGate (.inr ⟨_, rfl⟩)⟩
        · exact booked_actor h ha x g' account ((if_neg hxd).symm.trans hx)

/-! ### Refused deliveries -/

/-- A delivery that has ended with a published record and whose handler was never called. -/
structure Refused (s : GatedActor) (d : ℕ) (del : Delivery) (ending : Ending) : Prop where
  delivered : s.actor.deliveries d = some del
  ended : del.stage = .ended ending
  recorded : ending ≠ .ignored ∧ ending ≠ .failed
  unrun : del.invocations = 0

/-- **A refused delivery holds no cost exactly when its gate, if it came to one, did not
charge.** -/
theorem refused_holds_nothing_iff {es : List GatedEvent} {s : GatedActor}
    (hrun : Steps.run (step cfg gc) init es = some s) {d : ℕ} {del : Delivery} {ending : Ending}
    (hrefused : Refused s d del ending) :
    (∀ k, k.concern = .cost → s.held d k = 0) ↔
      ∀ g account, s.gatings d = some (g, account) → ¬ g.Charges gc del.payload := by
  have hbooked : Booked gc s :=
    Steps.invariant (fun s e s' h hstep => booked_step h hstep) (by simp [Booked, init]) hrun
  unfold held
  cases hg : s.gatings d with
  | none => simp
  | some entry =>
      obtain ⟨g, account⟩ := entry
      obtain ⟨del', hd', haccount, -⟩ := hbooked d g account hg
      obtain rfl : del = del' := Option.some.inj (hrefused.delivered.symm.trans hd')
      have hiff := evaluate_account_iff g gc del.payload
      rw [← haccount] at hiff
      constructor
      · intro hnone g' account' hsame
        obtain ⟨rfl, rfl⟩ := Prod.mk.inj (Option.some.inj hsame)
        exact hiff.mp hnone
      · intro hnot
        exact hiff.mpr (hnot g account rfl)

/-- An agent with a gate and nothing else. -/
def gatedConfig : ActorConfig := ⟨js "writer", js "9f86d081", false, false, true, false, 0, false⟩

def gatedTask : Payload := ⟨js "task-1", js "writer", [], .finite 0⟩

/-- Ten units for each agent, and a gate that asks so many for a task. -/
def tenUnits : EconomicsConfig := ⟨true, 0, 10, 0, 1⟩

def costGate (units : Option ℤ) : GateConfig where
  options := ⟨none, none, some fun _ => units⟩
  enabled := true
  reservation := ⟨tenUnits, tenUnits⟩
  scopeFor := none

/-- A policy that blocks every task, before the cost validator. -/
def blockedGating : Gating :=
  ⟨[⟨js "policy-engine", .ok ⟨.block, js "denied", js "policy-engine"⟩⟩], [], none, fun _ => 0, []⟩

def blockedEvents : List GatedEvent :=
  [.actor (.deliver 0 gatedTask false), .gate 0 blockedGating,
    .actor (.act 0 (.published (.ok ())))]

/-- The delivery at its gate. -/
def atGate : GatedActor :=
  ⟨Actor.init.setDelivery 0 (processTask gatedConfig ⟨false, none⟩ gatedTask false), fun _ => none⟩

theorem blocked_run {gc : GateConfig} {reason : Option JsString} {store : LimiterStore}
    (h : blockedGating.evaluate gc gatedTask = (.ok ⟨false, reason⟩, store)) :
    ∃ s del, Steps.run (step gatedConfig gc) init blockedEvents = some s ∧
      Refused s 0 del .blockedByGate ∧ del.payload = gatedTask ∧
      s.gatings 0 = some (blockedGating, store.account) := by
  have hgate : ∃ t del, atGate.step gatedConfig gc (.gate 0 blockedGating) = some t ∧
      t.actor.deliveries 0 = some del ∧ del.stage = .recording .blockedByGate ∧
      del.invocations = 0 ∧ del.payload = gatedTask ∧
      t.gatings 0 = some (blockedGating, store.account) := by
    have hat : atGate.actor.deliveries 0
        = some (processTask gatedConfig ⟨false, none⟩ gatedTask false) := rfl
    have hpayload : (processTask gatedConfig ⟨false, none⟩ gatedTask false).payload
        = gatedTask := rfl
    simp only [step, hat, hpayload, h]
    exact ⟨_, _, rfl, rfl, rfl, rfl, rfl, rfl⟩
  obtain ⟨t, del, hstep, hd, hstage, hunrun, hpayload, hbooked⟩ := hgate
  obtain ⟨a, ha, hd'⟩ : ∃ a, t.actor.step gatedConfig (.act 0 (.published (.ok ()))) = some a ∧
      a.deliveries 0 = some (del.recorded gatedConfig .blockedByGate) := by
    have hreact : del.step gatedConfig t.actor.signals (.published (.ok ()))
        = some (del.recorded gatedConfig .blockedByGate) := by
      unfold Delivery.step
      rw [hstage]
    simp only [Actor.step, hd, hreact]
    exact ⟨_, rfl, rfl⟩
  refine ⟨{ t with actor := a }, _, ?_, ⟨hd', rfl, by simp, ?_⟩, ?_, hbooked⟩
  · refine Steps.run_cons_some.mpr ⟨atGate, rfl, Steps.run_cons_some.mpr ⟨t, hstep,
      Steps.run_cons_some.mpr ⟨_, ?_, rfl⟩⟩⟩
    show (t.actor.step gatedConfig (.act 0 (.published (.ok ())))).map _ = _
    rw [ha]
    rfl
  · rw [Delivery.recorded_invocations, hunrun]
  · rw [Delivery.recorded_payload, hpayload]

/-- The policy blocks, whatever the cost validator says. -/
theorem blockedGating_blocks (units : Option ℤ) (h : (match (blockedGating.evaluate (costGate units)
      gatedTask).1 with
      | .ok verdict => verdict.allowed
      | .error _ => true) = false) :
    ∃ reason store, blockedGating.evaluate (costGate units) gatedTask
      = (.ok ⟨false, reason⟩, store) := by
  rcases heval : blockedGating.evaluate (costGate units) gatedTask with ⟨answer, store⟩
  rw [heval] at h
  cases answer with
  | error e => exact absurd h (by simp)
  | ok verdict =>
      obtain ⟨allowed, reason⟩ := verdict
      obtain rfl : allowed = false := h
      exact ⟨reason, store, rfl⟩

/-- A task that no units are estimated for holds nothing once it is blocked. -/
theorem refused_holds_nothing_unestimated :
    ∃ s del, Steps.run (step gatedConfig (costGate none)) init blockedEvents = some s ∧
      Refused s 0 del .blockedByGate ∧ ∀ k, k.concern = .cost → s.held 0 k = 0 := by
  obtain ⟨reason, store, heval⟩ := blockedGating_blocks none (by decide +kernel)
  obtain ⟨s, del, hrun, hrefused, hpayload, hbooked⟩ := blocked_run heval
  refine ⟨s, del, hrun, hrefused, (refused_holds_nothing_iff hrun hrefused).mpr ?_⟩
  intro g account hg hcharges
  obtain ⟨rfl, rfl⟩ := Prod.mk.inj (Option.some.inj (hbooked.symm.trans hg))
  rw [hpayload] at hcharges
  exact hcharges.admits.units rfl

/-- **A task that a policy blocks keeps the units that were reserved for it.** -/
theorem blocked_task_holds_units :
    ∃ s del, Steps.run (step gatedConfig (costGate (some 5))) init blockedEvents = some s ∧
      Refused s 0 del .blockedByGate ∧ s.held 0 ⟨.cost, .agent, js "writer"⟩ = 5 := by
  obtain ⟨reason, store, heval⟩ := blockedGating_blocks (some 5) (by decide +kernel)
  obtain ⟨s, del, hrun, hrefused, -, hbooked⟩ := blocked_run heval
  refine ⟨s, del, hrun, hrefused, ?_⟩
  unfold held
  rw [hbooked]
  show store.account ⟨.cost, .agent, js "writer"⟩ = 5
  rw [← show (blockedGating.evaluate (costGate (some 5)) gatedTask).2 = store by rw [heval]]
  rfl

end GatedActor

end Kaiban
