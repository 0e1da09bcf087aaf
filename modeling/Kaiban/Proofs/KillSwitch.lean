/-
A revoked agent and its deliveries.

The kill-switch is asked once for each gate evaluation, at some point between the first
validator and the last.  What it needs is that the id it is asked about is not active at
that point.  For a delivery addressed to the agent that is the revoked id itself, as long as
nothing registers it again in the meantime.  For a delivery addressed to every agent the
gate asks about the wildcard and not about the agent, so there the kill-switch stops nothing
that the wildcard's own registration allows.
-/
import Kaiban.Registry
import Kaiban.Proofs.ActionGate
import Kaiban.Proofs.Actor.Reactions

open JsString

namespace Kaiban

variable {cfg : ActorConfig} {gc : GovernedConfig}

/-! ### The most severe verdict -/

theorem decideGate_terminate (ctx : GateContext) {verdicts : List GateVerdict}
    (h : ∃ v ∈ verdicts, v.action = .terminate) :
    (decideGate ctx verdicts).action = .terminate := by
  obtain ⟨v, hv, hterminate⟩ := h
  have hsevere := (decideGate_aggregates ctx verdicts).severe v hv
  rw [hterminate] at hsevere
  cases haction : (decideGate ctx verdicts).action <;> rw [haction] at hsevere <;>
    simp [GateAction.severity] at hsevere ⊢

/-- A verdict that does not pass is not outvoted. -/
theorem decideGate_refuses (ctx : GateContext) {verdicts : List GateVerdict}
    (h : ∃ v ∈ verdicts, v.action.passes = false) :
    (decideGate ctx verdicts).action.passes = false := by
  obtain ⟨v, hv, hrefuses⟩ := h
  have hsevere := (decideGate_aggregates ctx verdicts).severe v hv
  cases haction : (decideGate ctx verdicts).action <;> rw [haction] at hsevere <;>
    cases hverdict : v.action <;> rw [hverdict] at hsevere hrefuses <;>
    simp_all [GateAction.severity, GateAction.passes]

/-! ### What revoking leaves -/

namespace AgentRegistry

/-- The agent is registered and revoked. -/
def Revoked (r : AgentRegistry) (id : JsString) : Prop :=
  ∃ record reason, r.records id = some record ∧ record.revokedReason = some reason

theorem set_self (r : AgentRegistry) (id : JsString) (record : AgentRecord) :
    (r.set id record).records id = some record := if_pos rfl

theorem set_ne (r : AgentRegistry) {id x : JsString} (record : AgentRecord) (h : x ≠ id) :
    (r.set id record).records x = r.records x := if_neg h

theorem revoked_revoke {r : AgentRegistry} {id : JsString} (reason : Option JsString)
    (h : r.records id ≠ none) : (r.revoke id reason).Revoked id := by
  unfold revoke
  cases hrecord : r.records id with
  | none => exact absurd hrecord h
  | some record => exact ⟨_, _, set_self r id _, rfl⟩

theorem Revoked.revoke {r : AgentRegistry} {id : JsString} (h : r.Revoked id) (x : JsString)
    (reason : Option JsString) : (r.revoke x reason).Revoked id := by
  by_cases hx : id = x
  · subst hx
    obtain ⟨record, old, hrecord, -⟩ := h
    exact revoked_revoke reason (by simp [hrecord])
  · obtain ⟨record, old, hrecord, hrevoked⟩ := h
    unfold AgentRegistry.revoke
    split
    · exact ⟨record, old, (set_ne r _ hx).trans hrecord, hrevoked⟩
    · exact ⟨record, old, hrecord, hrevoked⟩

theorem Revoked.recordInvocation {r : AgentRegistry} {id : JsString} (h : r.Revoked id)
    (x : JsString) : (r.recordInvocation x).Revoked id := by
  obtain ⟨record, reason, hrecord, hrevoked⟩ := h
  unfold AgentRegistry.recordInvocation
  split
  · rename_i other hother
    by_cases hx : id = x
    · subst hx
      obtain rfl := Option.some.inj (hrecord.symm.trans hother)
      exact ⟨_, reason, set_self r id _, hrevoked⟩
    · exact ⟨record, reason, (set_ne r _ hx).trans hrecord, hrevoked⟩
  · exact ⟨record, reason, hrecord, hrevoked⟩

theorem Revoked.register {r : AgentRegistry} {id : JsString} (h : r.Revoked id)
    {reg : AgentRegistration} (hne : reg.agentId ≠ id) : (r.register reg).Revoked id := by
  obtain ⟨record, reason, hrecord, hrevoked⟩ := h
  exact ⟨record, reason, (set_ne r _ hne.symm).trans hrecord, hrevoked⟩

theorem Revoked.status {r : AgentRegistry} {id : JsString} (h : r.Revoked id)
    (parseDate : JsString → Option ℤ) (now : Option JsString) (operation : Option GateOperation) :
    ∃ reason, r.status parseDate id now operation = inactive (revokedPrefix ++ reason) := by
  obtain ⟨record, reason, hrecord, hrevoked⟩ := h
  refine ⟨reason, ?_⟩
  unfold AgentRegistry.status
  rw [hrecord]
  dsimp only
  rw [hrevoked]

end AgentRegistry

theorem toAction_revoked (reason : JsString) :
    toAction (inactive (revokedPrefix ++ reason)) = .terminate := by
  unfold toAction inactive
  have hstarts : revokedPrefix.isPrefixOf (revokedPrefix ++ reason) = true := by
    apply List.isPrefixOf_iff_prefix.mpr
    exact List.prefix_append revokedPrefix reason
  simp [hstarts]

theorem toAction_inactive {status : RegistryStatus} (h : status.active = false) :
    (toAction status).passes = false := by
  unfold toAction
  rw [h]
  cases revokedPrefix.isPrefixOf status.reason <;> rfl

/-! ### An evaluation that cannot pass -/

/-- What an evaluation has, or will have, that keeps its task from running. -/
def Evaluation.Doomed (id : JsString) (r : AgentRegistry) (ev : Evaluation) : Prop :=
  if ev.context.agentId = id then
    (.killSwitch ∈ ev.waiting ∧ r.Revoked id) ∨ ∃ v ∈ ev.verdicts, v.action = .terminate
  else .killSwitch ∈ ev.waiting ∨ ∃ v ∈ ev.verdicts, v.action.passes = false

/-- Asking the next validator keeps an evaluation doomed, when the kill-switch does not find
another id active. -/
theorem Evaluation.Doomed.ask {id : JsString} {r : AgentRegistry} {ev ev' : Evaluation}
    {now : JsString} {answer : Except Thrown GateVerdict} (h : ev.Doomed id r)
    (hask : ev.ask gc r now answer = some ev')
    (hinactive : ev.context.agentId ≠ id → ev.waiting.head? = some .killSwitch →
      (r.status gc.parseDate ev.context.agentId (some now)
        (some ev.context.operation)).active = false) :
    ev'.context = ev.context ∧ (ev'.thrown = none → ev'.Doomed id r) := by
  unfold Evaluation.ask at hask
  split at hask
  case h_2 => exact absurd hask (by simp)
  case h_1 guard rest hthrown hwaiting =>
    split at hask
    case h_2 e hrun =>
      obtain rfl := Option.some.inj hask
      exact ⟨rfl, fun hnone => absurd hnone (by simp)⟩
    case h_1 verdict hrun =>
      obtain rfl := Option.some.inj hask
      refine ⟨rfl, fun _ => ?_⟩
      unfold Evaluation.Doomed at h ⊢
      rw [hwaiting] at h hinactive
      by_cases haddressed : ev.context.agentId = id
      · rw [if_pos haddressed] at h ⊢
        rcases h with ⟨hmem, hrevoked⟩ | ⟨v, hv, hterminate⟩
        · rcases List.mem_cons.mp hmem with rfl | hrest
          · obtain ⟨reason, hstatus⟩ :=
              hrevoked.status gc.parseDate (some now) (some ev.context.operation)
            have hverdict : toAction (r.status gc.parseDate ev.context.agentId (some now)
                (some ev.context.operation)) = verdict.action :=
              congrArg GateVerdict.action (Except.ok.inj hrun)
            rw [haddressed, hstatus, toAction_revoked] at hverdict
            exact .inr ⟨verdict, by simp, hverdict.symm⟩
          · exact .inl ⟨hrest, hrevoked⟩
        · exact .inr ⟨v, by simp [hv], hterminate⟩
      · rw [if_neg haddressed] at h ⊢
        rcases h with hmem | ⟨v, hv, hrefuses⟩
        · rcases List.mem_cons.mp hmem with rfl | hrest
          · have hverdict : toAction (r.status gc.parseDate ev.context.agentId (some now)
                (some ev.context.operation)) = verdict.action :=
              congrArg GateVerdict.action (Except.ok.inj hrun)
            refine .inr ⟨verdict, by simp, ?_⟩
            rw [← hverdict]
            exact toAction_inactive (hinactive haddressed rfl)
          · exact .inl hrest
        · exact .inr ⟨v, by simp [hv], hrefuses⟩

/-- A doomed evaluation that comes to a decision refuses and records it. -/
theorem Evaluation.Doomed.decide {id : JsString} {r : AgentRegistry} {ev : Evaluation}
    {audit : Option Thrown} {verdict : Except Thrown Verdict} {decision : Option GateDecision}
    (h : ev.thrown = none → ev.Doomed id r) (henabled : gc.enabled = true)
    (hdecide : ev.decide gc audit = some (verdict, decision)) :
    (∃ e, verdict = .error e ∧ decision = none) ∨
    ∃ v made, verdict = .ok v ∧ v.allowed = false ∧ decision = some made ∧
      (ev.context.agentId = id → made.action = .terminate) := by
  unfold Evaluation.decide at hdecide
  split at hdecide
  case h_1 e hthrown =>
    obtain ⟨rfl, rfl⟩ := Prod.mk.inj (Option.some.inj hdecide)
    exact .inl ⟨e, rfl, rfl⟩
  case h_3 => exact absurd hdecide (by simp)
  case h_2 hthrown hwaiting =>
    dsimp only at hdecide
    rw [if_pos henabled] at hdecide
    cases audit with
    | some e =>
        obtain ⟨rfl, rfl⟩ := Prod.mk.inj (Option.some.inj hdecide)
        exact .inl ⟨e, rfl, rfl⟩
    | none =>
        obtain ⟨rfl, rfl⟩ := Prod.mk.inj (Option.some.inj hdecide)
        have hdoomed := h hthrown
        unfold Evaluation.Doomed at hdoomed
        rw [hwaiting] at hdoomed
        have hrefuses : (decideGate ev.context ev.verdicts).action.passes = false := by
          split at hdoomed
          · rcases hdoomed with ⟨hmem, -⟩ | hterminate
            · exact absurd hmem (by simp)
            · rw [decideGate_terminate ev.context hterminate]
              rfl
          · rcases hdoomed with hmem | hsome
            · exact absurd hmem (by simp)
            · exact decideGate_refuses ev.context hsome
        refine .inr ⟨_, _, rfl, ?_, rfl, fun haddressed => ?_⟩
        · unfold admissionVerdict
          simp [hrefuses]
        · rw [if_pos haddressed] at hdoomed
          rcases hdoomed with ⟨hmem, -⟩ | hterminate
          · exact absurd hmem (by simp)
          · exact decideGate_terminate ev.context hterminate

/-! ### A delivery whose evaluation cannot pass -/

namespace GovernedActor

variable {s s' : GovernedActor} {d : ℕ}

theorem setEvaluation_self (s : GovernedActor) (d : ℕ) (ev : Evaluation) :
    (s.setEvaluation d ev).evaluations d = some ev := if_pos rfl

theorem setEvaluation_ne (s : GovernedActor) {d x : ℕ} (ev : Evaluation) (h : d ≠ x) :
    (s.setEvaluation x ev).evaluations d = s.evaluations d := if_neg h

/-- What can happen to the agent and its registry, and what they become. -/
inductive Governing (cfg : ActorConfig) (gc : GovernedConfig) (s : GovernedActor) :
    GovernedEvent → GovernedActor → Prop
  | registered (reg : AgentRegistration) :
      Governing cfg gc s (.register reg) { s with registry := s.registry.register reg }
  | revoked (id : JsString) (reason : Option JsString) :
      Governing cfg gc s (.revoke id reason) { s with registry := s.registry.revoke id reason }
  | counted (id : JsString) :
      Governing cfg gc s (.recordInvocation id)
        { s with registry := s.registry.recordInvocation id }
  | opened (d : ℕ) (del : Delivery) (hd : s.actor.deliveries d = some del)
      (hgate : del.stage = .gate) (hnone : s.evaluations d = none) :
      Governing cfg gc s (.opened d) (s.setEvaluation d
        ⟨gateContext gc.options del.payload, if gc.enabled then gc.guards else [], [], none⟩)
  | asked (d : ℕ) (now : JsString) (answer : Except Thrown GateVerdict) (ev ev' : Evaluation)
      (hev : s.evaluations d = some ev) (hask : ev.ask gc s.registry now answer = some ev') :
      Governing cfg gc s (.asked d now answer) (s.setEvaluation d ev')
  | decided (d : ℕ) (audit : Option Thrown) (ev : Evaluation) (verdict : Except Thrown Verdict)
      (made : Option GateDecision) (a : Actor) (hev : s.evaluations d = some ev)
      (hmade : ev.decide gc audit = some (verdict, made))
      (ha : s.actor.step cfg (.act d (.gate verdict)) = some a) :
      Governing cfg gc s (.decided d audit)
        { s with actor := a, audit := s.audit ++ made.toList.map fun x => (d, x) }
  | acted (e : ActorEvent) (a : Actor) (hverdict : e.isGate = false)
      (ha : s.actor.step cfg e = some a) : Governing cfg gc s (.actor e) { s with actor := a }

theorem governing {e : GovernedEvent} (h : s.step cfg gc e = some s') :
    Governing cfg gc s e s' := by
  cases e with
  | register reg =>
      obtain rfl := Option.some.inj h
      exact .registered reg
  | revoke id reason =>
      obtain rfl := Option.some.inj h
      exact .revoked id reason
  | recordInvocation id =>
      obtain rfl := Option.some.inj h
      exact .counted id
  | opened d =>
      simp only [step] at h
      split at h
      · rename_i p calls hd hnone
        obtain rfl := Option.some.inj h
        exact .opened d ⟨p, .gate, calls⟩ hd rfl hnone
      · exact absurd h (by simp)
  | asked d now answer =>
      simp only [step] at h
      split at h
      · rename_i ev hev
        obtain ⟨ev', hask, rfl⟩ := Option.map_eq_some_iff.mp h
        exact .asked d now answer ev ev' hev hask
      · exact absurd h (by simp)
  | decided d audit =>
      simp only [step] at h
      split at h
      · rename_i verdict made hmade
        obtain ⟨ev, hev, hmade⟩ := Option.bind_eq_some_iff.mp hmade
        obtain ⟨a, ha, rfl⟩ := Option.map_eq_some_iff.mp h
        exact .decided d audit ev verdict made a hev hmade ha
      · exact absurd h (by simp)
  | actor e =>
      simp only [step, Option.ite_none_left_eq_some] at h
      obtain ⟨a, ha, rfl⟩ := Option.map_eq_some_iff.mp h.2
      exact .acted e a (by simpa using h.1) ha

/-- The delivery has been refused by its gate, or was lost in it. -/
def Halted : Stage → Prop
  | .recording .blockedByGate => True
  | .ended .blockedByGate => True
  | .ended .failed => True
  | _ => False

/-- A delivery whose gate has begun and will not pass, or has not passed. -/
structure Watched (cfg : ActorConfig) (s : GovernedActor) (d : ℕ) (del : Delivery) : Prop where
  delivered : s.actor.deliveries d = some del
  unrun : del.invocations = 0
  /-- Until its gate has decided, its evaluation is doomed. -/
  waiting : Halted del.stage ∨ (del.stage = .gate ∧ ∃ ev, s.evaluations d = some ev ∧
    ev.context.agentId = del.payload.agentId ∧ (ev.thrown = none → ev.Doomed cfg.id s.registry))
  terminated : del.payload.agentId = cfg.id →
    ∀ decision, (d, decision) ∈ s.audit → decision.action = .terminate
  recorded : del.stage = .recording .blockedByGate ∨ del.stage = .ended .blockedByGate →
    ∃ decision, (d, decision) ∈ s.audit

/-- A step must not register the agent while the kill-switch is still to be asked about a
delivery addressed to it, and must not find the wildcard active when the kill-switch is asked
about a delivery addressed to every agent. -/
def Effective (cfg : ActorConfig) (gc : GovernedConfig) (d : ℕ) (s : GovernedActor) :
    GovernedEvent → Prop
  | .register reg => reg.agentId = cfg.id → ∀ ev, s.evaluations d = some ev →
      ev.context.agentId = cfg.id → .killSwitch ∉ ev.waiting
  | .asked x now _ => x = d → ∀ ev, s.evaluations d = some ev →
      ev.context.agentId = js "*" → ev.context.agentId ≠ cfg.id →
      ev.waiting.head? = some .killSwitch →
      (s.registry.status gc.parseDate (js "*") (some now)
        (some ev.context.operation)).active = false
  | _ => True

/-- A reaction that is no verdict of the gate leaves a halted delivery halted and one at the
gate at the gate. -/
theorem halted_reaction {sig : Signals} {del del' : Delivery} {a : Act}
    (h : Reaction cfg sig del a del') (hverdict : del.stage = .gate → ∀ v, a ≠ .gate v)
    (hstage : Halted del.stage ∨ del.stage = .gate) :
    del'.invocations = del.invocations ∧
      ((Halted del'.stage ∧ Halted del.stage) ∨ (del'.stage = .gate ∧ del.stage = .gate)) ∧
      (del'.stage = .recording .blockedByGate ∨ del'.stage = .ended .blockedByGate →
        del.stage = .recording .blockedByGate ∨ del.stage = .ended .blockedByGate) := by
  cases h with
  | late a ha =>
      refine ⟨rfl, ?_, id⟩
      rcases hstage with hhalted | hgate
      · exact .inl ⟨hhalted, hhalted⟩
      · exact .inr ⟨hgate, hgate⟩
  | passedGate v hv hs => exact absurd rfl (hverdict hs _)
  | blockedByGate v hv hs => exact absurd rfl (hverdict hs _)
  | gateThrew e hs => exact absurd rfl (hverdict hs _)
  | recorded ending hs =>
      rw [hs] at hstage
      rcases hstage with hhalted | hgate
      · cases ending <;> simp only [Halted] at hhalted
        exact ⟨Delivery.recorded_invocations del _, .inl ⟨trivial, by rw [hs]; trivial⟩,
          fun _ => .inl hs⟩
      · exact absurd hgate (by simp)
  | notRecorded ending e hs =>
      rw [hs] at hstage
      rcases hstage with hhalted | hgate
      · exact ⟨rfl, .inl ⟨trivial, by rw [hs]; exact hhalted⟩, fun h => absurd h (by simp)⟩
      · exact absurd hgate (by simp)
  | _ =>
      rename_i hs
      rw [hs] at hstage
      simp [Halted] at hstage

theorem abort_halted {del : Delivery} (err : NonRetryableError)
    (hstage : Halted del.stage ∨ del.stage = .gate) : del.abort err = del := by
  rcases del.abort_cases err with ⟨k, hk, -⟩ | ⟨-, h⟩
  · rw [hk] at hstage
    simp [Halted] at hstage
  · exact h

/-- A step of the agent that is no verdict on the delivery keeps it watched. -/
theorem watched_actor {del : Delivery} {e : ActorEvent} {a : Actor} (h : Watched cfg s d del)
    (hstep : s.actor.step cfg e = some a)
    (hverdict : del.stage = .gate → ∀ v, e ≠ .act d (.gate v)) :
    ∃ del', Watched cfg { s with actor := a } d del' ∧ del'.payload = del.payload := by
  have hstage : Halted del.stage ∨ del.stage = .gate := h.waiting.imp_right fun hw => hw.1
  rcases Actor.step_change hstep d with hsame | ⟨p, b, -, hnone, -⟩ | ⟨act, old, del', rfl, hold,
    hr, hd'⟩ | ⟨err, old, -, hold, hd'⟩
  · exact ⟨del, ⟨hsame.trans h.delivered, h.unrun, h.waiting, h.terminated, h.recorded⟩, rfl⟩
  · rw [h.delivered] at hnone
    exact absurd hnone (by simp)
  · obtain rfl := Option.some.inj (h.delivered.symm.trans hold)
    obtain ⟨hruns, hkept, hblocked⟩ :=
      halted_reaction hr (fun hgate v hv => hverdict hgate v (by rw [hv])) hstage
    refine ⟨del', ⟨hd', hruns.trans h.unrun, ?_, ?_, fun hnow => h.recorded (hblocked hnow)⟩,
      hr.payload⟩
    · rcases hkept with ⟨hhalted, -⟩ | ⟨hgate, hwas⟩
      · exact .inl hhalted
      · rcases h.waiting with hhalted | ⟨-, hev⟩
        · rw [hwas] at hhalted
          exact absurd hhalted (by simp [Halted])
        · exact .inr ⟨hgate, by rw [hr.payload]; exact hev⟩
    · rw [hr.payload]
      exact h.terminated
  · obtain rfl := Option.some.inj (h.delivered.symm.trans hold)
    rw [abort_halted err hstage] at hd'
    exact ⟨del, ⟨hd', h.unrun, h.waiting, h.terminated, h.recorded⟩, rfl⟩

/-- Writing the registry keeps a delivery watched, when the id stays revoked wherever the
kill-switch still needs it. -/
theorem watched_registry {del : Delivery} {r : AgentRegistry} (h : Watched cfg s d del)
    (hrevoked : ∀ ev, s.evaluations d = some ev → ev.context.agentId = cfg.id →
      .killSwitch ∈ ev.waiting → s.registry.Revoked cfg.id → r.Revoked cfg.id) :
    Watched cfg { s with registry := r } d del := by
  refine ⟨h.delivered, h.unrun, ?_, h.terminated, h.recorded⟩
  rcases h.waiting with hhalted | ⟨hgate, ev, hev, hid, hdoomed⟩
  · exact .inl hhalted
  · refine .inr ⟨hgate, ev, hev, hid, fun hnone => ?_⟩
    have hwas := hdoomed hnone
    unfold Evaluation.Doomed at hwas ⊢
    split at hwas
    · rename_i haddressed
      rw [if_pos haddressed]
      exact hwas.imp_left fun hw => ⟨hw.1, hrevoked ev hev haddressed hw.1 hw.2⟩
    · rename_i hother
      rw [if_neg hother]
      exact hwas

/-- The evaluation of another delivery changes nothing. -/
theorem watched_setEvaluation {del : Delivery} {x : ℕ} (ev : Evaluation)
    (h : Watched cfg s d del) (hx : d ≠ x) : Watched cfg (s.setEvaluation x ev) d del := by
  refine ⟨h.delivered, h.unrun, h.waiting.imp_right ?_, h.terminated, h.recorded⟩
  rintro ⟨hgate, old, hold, hrest⟩
  exact ⟨hgate, old, (setEvaluation_ne s ev hx).trans hold, hrest⟩

theorem watched_asked {del : Delivery} {now : JsString} {answer : Except Thrown GateVerdict}
    {ev ev' : Evaluation} (h : Watched cfg s d del)
    (haccepted : del.payload.agentId = cfg.id ∨ del.payload.agentId = js "*")
    (heff : Effective cfg gc d s (.asked d now answer)) (hev : s.evaluations d = some ev)
    (hask : ev.ask gc s.registry now answer = some ev') :
    Watched cfg (s.setEvaluation d ev') d del := by
  refine ⟨h.delivered, h.unrun, h.waiting.imp_right ?_, h.terminated, h.recorded⟩
  rintro ⟨hgate, old, hold, hid, hdoomed⟩
  obtain rfl := Option.some.inj (hev.symm.trans hold)
  have hrunning : ev.thrown = none := by
    unfold Evaluation.ask at hask
    split at hask
    · assumption
    · exact absurd hask (by simp)
  have hinactive : ev.context.agentId ≠ cfg.id → ev.waiting.head? = some .killSwitch →
      (s.registry.status gc.parseDate ev.context.agentId (some now)
        (some ev.context.operation)).active = false := by
    intro hother hnext
    have hwild : ev.context.agentId = js "*" := by
      rw [hid] at hother ⊢
      exact haccepted.resolve_left hother
    have hstatus := heff rfl ev hev hwild hother hnext
    rwa [← hwild] at hstatus
  obtain ⟨hcontext, hdoomed'⟩ := (hdoomed hrunning).ask hask hinactive
  exact ⟨hgate, ev', setEvaluation_self s d ev', by rw [hcontext]; exact hid, hdoomed'⟩

theorem watched_decided {del : Delivery} {audit : Option Thrown} {ev : Evaluation}
    {verdict : Except Thrown Verdict} {made : Option GateDecision} {a : Actor}
    (h : Watched cfg s d del) (henabled : gc.enabled = true) (hev : s.evaluations d = some ev)
    (hmade : ev.decide gc audit = some (verdict, made))
    (ha : s.actor.step cfg (.act d (.gate verdict)) = some a) :
    ∃ del', Watched cfg { s with actor := a, audit := s.audit ++ made.toList.map fun x => (d, x) }
      d del' ∧ del'.payload = del.payload := by
  obtain ⟨del', hr, hd'⟩ := Actor.act_step ha h.delivered
  rcases h.waiting with hhalted | ⟨-, old, hold, hid, hdoomed⟩
  · rw [hr.atGate] at hhalted
    exact absurd hhalted (by simp [Halted])
  obtain rfl := Option.some.inj (hev.symm.trans hold)
  rcases Evaluation.Doomed.decide hdoomed henabled hmade with ⟨e, rfl, rfl⟩ |
    ⟨v, decision, rfl, hrefused, rfl, hterminate⟩
  · cases hr with
    | late a ha => rcases ha with ha | ⟨j, out, ha⟩ <;> exact absurd ha (by simp)
    | gateThrew =>
        refine ⟨_, ⟨hd', h.unrun, .inl trivial, ?_, fun hblocked => ?_⟩, rfl⟩
        · intro haddressed decision hmem
          exact h.terminated haddressed decision (by simpa using hmem)
        · simp at hblocked
  · cases hr with
    | late a ha => rcases ha with ha | ⟨j, out, ha⟩ <;> exact absurd ha (by simp)
    | passedGate v hv => exact absurd (hv.symm.trans hrefused) (by simp)
    | blockedByGate v hv =>
        refine ⟨_, ⟨hd', ?_, .inl trivial, ?_, fun _ => ⟨decision, by simp⟩⟩, rfl⟩
        · rw [Delivery.publishToDlq_invocations]
          exact h.unrun
        · intro haddressed other hmem
          rcases List.mem_append.mp hmem with hold | hnew
          · exact h.terminated haddressed other hold
          · obtain rfl : other = decision := by simpa using hnew
            exact hterminate (hid.trans haddressed)

/-- **An effective step keeps a watched delivery watched.** -/
theorem watched_step {del : Delivery} {e : GovernedEvent} (h : Watched cfg s d del)
    (henabled : gc.enabled = true)
    (haccepted : del.payload.agentId = cfg.id ∨ del.payload.agentId = js "*")
    (heff : Effective cfg gc d s e) (hstep : s.step cfg gc e = some s') :
    ∃ del', Watched cfg s' d del' ∧ del'.payload = del.payload := by
  cases governing hstep with
  | registered reg =>
      refine ⟨del, watched_registry h fun ev hev haddressed hmem hrevoked => ?_, rfl⟩
      exact hrevoked.register fun hsame => heff hsame ev hev haddressed hmem
  | revoked id reason =>
      exact ⟨del, watched_registry h fun _ _ _ _ hrevoked => hrevoked.revoke id reason, rfl⟩
  | counted id =>
      exact ⟨del, watched_registry h fun _ _ _ _ hrevoked => hrevoked.recordInvocation id, rfl⟩
  | opened x other hd hgate hnone =>
      refine ⟨del, ?_, rfl⟩
      by_cases hx : d = x
      · subst hx
        obtain rfl := Option.some.inj (h.delivered.symm.trans hd)
        rcases h.waiting with hhalted | ⟨-, ev, hev, -⟩
        · rw [hgate] at hhalted
          exact absurd hhalted (by simp [Halted])
        · exact absurd (hnone.symm.trans hev) (by simp)
      · exact watched_setEvaluation _ h hx
  | asked x now answer ev ev' hev hask =>
      refine ⟨del, ?_, rfl⟩
      by_cases hx : d = x
      · subst hx
        exact watched_asked h haccepted heff hev hask
      · exact watched_setEvaluation ev' h hx
  | decided x audit ev verdict made a hev hmade ha =>
      by_cases hx : d = x
      · subst hx
        exact watched_decided h henabled hev hmade ha
      · obtain ⟨del', hwatched, hpayload⟩ := watched_actor h ha
          (fun _ v hv => hx (ActorEvent.act.inj hv).1.symm)
        have helse : ∀ decision, (d, decision) ∈ s.audit ++ made.toList.map (fun y => (x, y)) →
            (d, decision) ∈ s.audit := by
          intro decision hmem
          refine (List.mem_append.mp hmem).resolve_right fun hnew => ?_
          obtain ⟨_, _, hpair⟩ := List.mem_map.mp hnew
          exact hx (Prod.mk.inj hpair).1.symm
        refine ⟨del', ⟨hwatched.delivered, hwatched.unrun, hwatched.waiting, ?_, ?_⟩, hpayload⟩
        · intro haddressed decision hmem
          exact hwatched.terminated haddressed decision (helse decision hmem)
        · intro hblocked
          obtain ⟨decision, hdecision⟩ := hwatched.recorded hblocked
          exact ⟨decision, List.mem_append_left _ hdecision⟩
  | acted e a hverdict ha =>
      refine watched_actor h ha fun _ v hv => ?_
      rw [hv] at hverdict
      exact absurd hverdict (by simp [ActorEvent.isGate])

/-! ### Every run -/

/-- The agent's part of a step is a step of the agent, or nothing. -/
theorem step_actor {e : GovernedEvent} (hstep : s.step cfg gc e = some s') :
    s'.actor = s.actor ∨ ∃ e', s.actor.step cfg e' = some s'.actor := by
  cases governing hstep with
  | decided x audit ev verdict made a hev hmade ha => exact .inr ⟨_, ha⟩
  | acted e a hverdict ha => exact .inr ⟨e, ha⟩
  | _ => exact .inl rfl

/-- A delivery that is not past its guards is one the agent accepts, and has not run. -/
def Accepted (cfg : ActorConfig) (del : Delivery) : Prop :=
  del.PastGate ∨
    (del.invocations = 0 ∧ (del.payload.agentId = cfg.id ∨ del.payload.agentId = js "*"))

theorem accepted_processTask (sig : Signals) (p : Payload) (breakerOpen : Bool) :
    Accepted cfg (processTask cfg sig p breakerOpen) := by
  unfold processTask Accepted
  extract_lets del
  by_cases hother : p.agentId ≠ cfg.id ∧ p.agentId ≠ js "*"
  · rw [if_pos hother]
    exact .inl (by simp [Delivery.PastGate, del])
  · have hmine : p.agentId = cfg.id ∨ p.agentId = js "*" := by tauto
    rw [if_neg hother]
    split
    · exact .inl (by simp [Delivery.PastGate])
    split
    · exact .inl (by simp [Delivery.PastGate])
    split
    · exact .inl (by simp [Delivery.PastGate])
    split
    · exact .inr ⟨rfl, hmine⟩
    · exact .inr ⟨rfl, hmine⟩

theorem accepted_reaction {sig : Signals} {del del' : Delivery} {a : Act}
    (h : Accepted cfg del) (hr : Reaction cfg sig del a del') : Accepted cfg del' := by
  unfold Accepted at h ⊢
  rw [hr.payload]
  rcases h with hpast | ⟨hunrun, hmine⟩
  · exact .inl (hr.pastGate (.inl hpast))
  · rcases hr.invoked with hsame | ⟨k, -, -, -, rfl⟩
    · exact .inr ⟨hsame.trans hunrun, hmine⟩
    · exact .inl (by simp [Delivery.PastGate])

theorem accepted_run {es : List GovernedEvent} (hrun : Steps.run (step cfg gc) init es = some s) :
    Actor.Each (Accepted cfg) s.actor := by
  refine Steps.invariant (P := fun s => Actor.Each (Accepted cfg) s.actor) ?_
    (Actor.each_init _) hrun
  intro s e s' hall hstep
  rcases step_actor hstep with hsame | ⟨e', he'⟩
  · rw [hsame]
    exact hall
  · have hone : Steps.run (Actor.step cfg) s.actor [e'] = some s'.actor :=
      Steps.run_cons_some.mpr ⟨_, he', rfl⟩
    refine Actor.each_run (C := fun _ _ => True) accepted_processTask
      (fun _ _ _ _ _ _ _ h hr => accepted_reaction h hr) ?_ hall
      (Steps.along_of_forall (fun _ _ => trivial) [e'] s.actor) hone
    intro del err h _
    unfold Accepted at h ⊢
    rw [Delivery.abort_payload, Delivery.abort_invocations]
    exact h.imp_left fun hpast => Delivery.abort_pastGate hpast err

/-- A revoked agent stays revoked until it is registered again. -/
theorem revoked_run {id : JsString} {es : List GovernedEvent}
    (hno : ∀ reg, .register reg ∈ es → reg.agentId ≠ id) (hrevoked : s.registry.Revoked id)
    (hrun : Steps.run (step cfg gc) s es = some s') : s'.registry.Revoked id := by
  have hother : Steps.Along (step cfg gc) (fun _ e => ∀ reg, e = .register reg → reg.agentId ≠ id)
      s es := by
    refine Steps.along_of_mem es s fun e he reg heq => hno reg ?_
    rw [← heq]
    exact he
  refine Steps.run_invariant (P := fun s => s.registry.Revoked id) ?_ hrevoked hother hrun
  intro s e s' hrevoked hno hstep
  cases governing hstep with
  | registered reg => exact hrevoked.register (hno reg rfl)
  | revoked x reason => exact hrevoked.revoke x reason
  | counted x => exact hrevoked.recordInvocation x
  | _ => exact hrevoked

/-- The gate begins with a delivery after the agent was registered and revoked and before it
is registered again, and the run goes on from there. -/
structure RevokedRun (cfg : ActorConfig) (gc : GovernedConfig) (d : ℕ)
    (first between last : List GovernedEvent) (r s t : GovernedActor) : Prop where
  registered : Steps.run (step cfg gc) init first = some r
  known : r.registry.records cfg.id ≠ none
  revoked : ∃ reason rest, between = .revoke cfg.id reason :: rest ∧
    ∀ reg, .register reg ∈ rest → reg.agentId ≠ cfg.id
  waited : Steps.run (step cfg gc) r between = some s
  opened : Steps.run (step cfg gc) s (.opened d :: last) = some t

/-- A delivery that the kill-switch has kept from running. -/
structure Killed (cfg : ActorConfig) (s : GovernedActor) (d : ℕ) : Prop where
  unrun : ∀ del, s.actor.deliveries d = some del → del.invocations = 0
  terminated : ∀ del, s.actor.deliveries d = some del → del.payload.agentId = cfg.id →
    ∀ decision, (d, decision) ∈ s.audit → decision.action = .terminate
  recorded : ∀ del, s.actor.deliveries d = some del →
    del.stage = .recording .blockedByGate ∨ del.stage = .ended .blockedByGate →
    ∃ decision, (d, decision) ∈ s.audit

/-- No decision is recorded before an evaluation begins. -/
def Unheard (s : GovernedActor) : Prop :=
  ∀ d decision, (d, decision) ∈ s.audit → s.evaluations d ≠ none

theorem unheard_setEvaluation (h : Unheard s) (x : ℕ) (ev : Evaluation) :
    Unheard (s.setEvaluation x ev) := by
  intro d decision hmem
  by_cases hx : d = x
  · subst hx
    rw [setEvaluation_self]
    exact Option.some_ne_none ev
  · rw [setEvaluation_ne s ev hx]
    exact h d decision hmem

theorem unheard_step {e : GovernedEvent} (h : Unheard s) (hstep : s.step cfg gc e = some s') :
    Unheard s' := by
  cases governing hstep with
  | opened x del hd hgate hnone => exact unheard_setEvaluation h x _
  | asked x now answer ev ev' hev hask => exact unheard_setEvaluation h x ev'
  | decided x audit ev verdict made a hev hmade ha =>
      intro d decision hmem
      rcases List.mem_append.mp hmem with hold | hnew
      · exact h d decision hold
      · obtain ⟨_, _, hpair⟩ := List.mem_map.mp hnew
        obtain rfl := (Prod.mk.inj hpair).1
        intro hnone
        exact absurd (hnone.symm.trans hev) (by simp)
  | _ => exact h

/-- **A delivery whose gate begins while the agent is revoked is kept from running, and one
addressed to the agent is terminated, in every run whose steps from there on are effective.** -/
theorem revoked_delivery_killed (cfg : ActorConfig) (gc : GovernedConfig)
    (henabled : gc.enabled = true) (hguard : .killSwitch ∈ gc.guards) (d : ℕ)
    (first between last : List GovernedEvent) (r s t : GovernedActor)
    (h : RevokedRun cfg gc d first between last r s t)
    (heff : Steps.Along (step cfg gc) (Effective cfg gc d) s (.opened d :: last)) :
    Killed cfg t d := by
  obtain ⟨reason, rest, rfl, hno⟩ := h.revoked
  obtain ⟨m, hm, hrest⟩ := Steps.run_cons_some.mp h.waited
  have hrevoked : s.registry.Revoked cfg.id := by
    refine revoked_run hno ?_ hrest
    rw [← Option.some.inj hm]
    exact AgentRegistry.revoked_revoke reason h.known
  have hreach : Steps.run (step cfg gc) init (first ++ .revoke cfg.id reason :: rest) = some s :=
    Steps.run_append_some.mpr ⟨r, h.registered, h.waited⟩
  have hunheard : Unheard s :=
    Steps.invariant (fun _ _ _ h hstep => unheard_step h hstep)
      (fun _ _ hmem => absurd hmem (by simp [init])) hreach
  obtain ⟨u, hu, hlast⟩ := Steps.run_cons_some.mp h.opened
  obtain ⟨del, hwatched, haccepted⟩ : ∃ del, Watched cfg u d del ∧
      (del.payload.agentId = cfg.id ∨ del.payload.agentId = js "*") := by
    cases governing hu with
    | opened _ del hd hgate hnone =>
        have haccepted := accepted_run hreach d del hd
        rcases haccepted with hpast | ⟨hunrun, hmine⟩
        · exact absurd hgate hpast.2
        refine ⟨del, ⟨hd, hunrun, .inr ⟨hgate, _, setEvaluation_self s d _, rfl, fun _ => ?_⟩,
          fun _ decision hmem => absurd hnone (hunheard d decision hmem), ?_⟩, hmine⟩
        · unfold Evaluation.Doomed
          dsimp only
          rw [if_pos henabled]
          split
          · exact .inl ⟨hguard, hrevoked⟩
          · exact .inl hguard
        · rw [hgate]
          simp
  have hend : ∃ del', Watched cfg t d del' ∧ del'.payload = del.payload := by
    refine Steps.run_invariant
      (P := fun x => ∃ del', Watched cfg x d del' ∧ del'.payload = del.payload) ?_
      ⟨del, hwatched, rfl⟩ (heff.2 u hu) hlast
    rintro x e x' ⟨del', hw, hpayload⟩ heffective hstep
    obtain ⟨del'', hw', hpayload'⟩ :=
      watched_step hw henabled (by rw [hpayload]; exact haccepted) heffective hstep
    exact ⟨del'', hw', hpayload'.trans hpayload⟩
  obtain ⟨del', hw, -⟩ := hend
  have honly : ∀ x, t.actor.deliveries d = some x → x = del' := fun x hx =>
    Option.some.inj (hx.symm.trans hw.delivered)
  refine ⟨fun x hx => ?_, fun x hx => ?_, fun x hx => ?_⟩
  · rw [honly x hx]
    exact hw.unrun
  · rw [honly x hx]
    exact hw.terminated
  · rw [honly x hx]
    exact hw.recorded

/-- An agent with a gate that asks a policy and the kill-switch. -/
def governedAgent : ActorConfig :=
  ⟨js "writer", js "9f86d081", false, false, true, false, 0, false⟩

def governedGate : GovernedConfig :=
  ⟨⟨none, none, none⟩, true, [.other (js "policy-engine"), .killSwitch], fun _ => none⟩

def registration (id : JsString) : GovernedEvent := .register ⟨id, none, none, none⟩

def taskFor (id : JsString) : Payload := ⟨js "task-1", id, [], .finite 0⟩

/-- The agent and the wildcard are registered, and a task has come to the gate. -/
def toGate (id : JsString) : List GovernedEvent :=
  [registration (js "writer"), registration (js "*"), .actor (.deliver 0 (taskFor id) false)]

def revokeWriter : List GovernedEvent := [.revoke (js "writer") none]

/-- The policy allows the task, the kill-switch is asked, and the task goes on if it may. -/
def bothAsked (onward : List GovernedEvent) : List GovernedEvent :=
  [.asked 0 (js "now") (.ok ⟨.allow, js "ok", js "policy-engine"⟩),
    .asked 0 (js "now") (.error noTextError), .decided 0 none] ++ onward

/-- The state some events lead to. -/
def governedAfter (es : List GovernedEvent) : GovernedActor :=
  (Steps.run (step governedAgent governedGate) init es).getD init

/-- A task for the revoked agent is terminated. -/
theorem revoked_delivery_killed_addressed :
    ∃ r s t, RevokedRun governedAgent governedGate 0 (toGate (js "writer")) revokeWriter
      (bothAsked []) r s t ∧ Killed governedAgent t 0 := by
  have h : RevokedRun governedAgent governedGate 0 (toGate (js "writer")) revokeWriter
      (bothAsked []) (governedAfter (toGate (js "writer")))
      (governedAfter (toGate (js "writer") ++ revokeWriter))
      (governedAfter (toGate (js "writer") ++ revokeWriter ++ .opened 0 :: bothAsked [])) :=
    ⟨rfl, by exact Option.some_ne_none _, ⟨none, [], rfl, by simp⟩, rfl, rfl⟩
  refine ⟨_, _, _, h, revoked_delivery_killed governedAgent governedGate rfl (by decide) 0 _ _ _ _
    _ _ h ⟨trivial, fun u hu => ?_⟩⟩
  obtain rfl := Option.some.inj hu
  refine ⟨fun _ ev hev hwild => ?_, fun u hu => ?_⟩
  · obtain rfl := Option.some.inj hev
    exact absurd hwild (by decide)
  obtain rfl := Option.some.inj hu
  refine ⟨fun _ ev hev hwild => ?_, fun _ _ => ⟨trivial, fun _ _ => trivial⟩⟩
  obtain rfl := Option.some.inj hev
  exact absurd hwild (by decide)

/-- **A task for every agent runs on a revoked one, when the wildcard itself is registered.** -/
theorem wildcard_bypasses_kill_switch :
    ¬ ∀ (cfg : ActorConfig) (gc : GovernedConfig), gc.enabled = true →
      Guard.killSwitch ∈ gc.guards → ∀ d first between last r s t,
        RevokedRun cfg gc d first between last r s t → Killed cfg t d := by
  intro hall
  let onward : List GovernedEvent := [.actor (.act 0 .start)]
  have h : RevokedRun governedAgent governedGate 0 (toGate (js "*")) revokeWriter
      (bothAsked onward) (governedAfter (toGate (js "*")))
      (governedAfter (toGate (js "*") ++ revokeWriter))
      (governedAfter (toGate (js "*") ++ revokeWriter ++ .opened 0 :: bothAsked onward)) :=
    ⟨rfl, by exact Option.some_ne_none _, ⟨none, [], rfl, by simp⟩, rfl, rfl⟩
  have hkilled := hall governedAgent governedGate rfl (by decide) 0 _ _ _ _ _ _ h
  exact absurd (hkilled.unrun _ rfl) (by decide)

end GovernedActor

end Kaiban
