/-
The guards fail closed, and are reported unless one of them throws.

A delivery that a guard refuses never comes to its handler.  What it has published is told
by its stage (`Accounts`), and only an error that leaves `processTask` ends it without a
record: one of a guard, which nothing catches, or one in the `catch` of an attempt, whose
value has no text.  `Answered` excludes these.
-/
import Kaiban.HeuristicFirewall
import Kaiban.Proofs.ActionGate
import Kaiban.Proofs.Actor.OneRecord

open JsString

namespace Kaiban

variable {cfg : ActorConfig} {sig : Signals} {d : ℕ}

/-! ### What a delivery has published -/

/-- An ending of which a record tells. -/
def Ending.reported : Ending → Bool
  | .ignored => false
  | .failed => false
  | _ => true

namespace Delivery

/-- The records a delivery has published, by its stage. -/
def Accounts (cfg : ActorConfig) (del : Delivery) : Prop :=
  match del.stage with
  | .firewall => del.calls = []
  | .gate => del.calls = []
  | .publishing _ => (records del.calls).length = 1
  | .recording ending => (records del.calls).length = 1 ∧ ending.reported = true
  | .backoff k => records del.calls = [] ∧ k < retryAttempts
  | .ended ending =>
      ((records del.calls).length = 1 ∧ ending.reported = true) ∨
        (ending = .failed ∧ records del.calls = []) ∨
        (ending = .ignored ∧ ¬ Addressed cfg del.payload)
  | _ => records del.calls = []

theorem accounts_publishToDlq {del : Delivery} (h : records del.calls = []) (error : JsString)
    (reason : Option JsString) {ending : Ending} (hending : ending.reported = true) :
    (del.publishToDlq cfg error reason ending).Accounts cfg := by
  refine ⟨?_, hending⟩
  rw [publishToDlq_calls, records_append, h]
  rfl

theorem records_breaker (del : Delivery) {c : Call} (hc : records [c] = []) :
    records (del.breaker cfg c).calls = records del.calls := by
  rw [breaker_calls, records_append]
  split
  · rw [hc, List.append_nil]
  · exact List.append_nil _

theorem accounts_failNonRetryable {del : Delivery} (h : records del.calls = [])
    (e : NonRetryableError) : (del.failNonRetryable cfg e).Accounts cfg := by
  unfold failNonRetryable
  refine accounts_publishToDlq ?_ _ _ rfl
  split
  · rw [records_breaker del rfl, h]
  · exact h

theorem accounts_caught {del : Delivery} (h : records del.calls = []) (k : ℕ) (err : Thrown) :
    (del.caught cfg sig k err).Accounts cfg := by
  rcases del.caught_cases k err with
    ⟨e, -, heq⟩ | ⟨-, -, heq⟩ | ⟨text, -, -, hk, heq⟩ | ⟨text, -, -, -, heq⟩
  · rw [heq]
    exact accounts_failNonRetryable h e
  · rw [heq]
    exact .inr (.inl ⟨rfl, h⟩)
  · rw [heq]
    exact ⟨h, hk⟩
  · rw [heq]
    refine accounts_publishToDlq ?_ _ _ rfl
    rw [records_breaker del rfl, h]

theorem accounts_attemptEnded {del : Delivery} (h : records del.calls = []) (k : ℕ)
    (out : Outcome) : (del.attemptEnded cfg sig k out).Accounts cfg := by
  have hended : records (del.call [.attemptEnded k out]).calls = [] := by
    rw [call_calls, records_append, h]
    rfl
  have hsuccess : records ((del.call [.attemptEnded k out]).breaker cfg .recordSuccess).calls
      = [] := by
    rw [records_breaker _ rfl, hended]
  rcases del.attemptEnded_cases k out with
    ⟨e, -, heq⟩ | ⟨v, e, -, -, heq⟩ | ⟨v, data, -, -, heq⟩
  · rw [heq]
    exact accounts_caught hended k e
  · rw [heq]
    exact accounts_caught hsuccess k e
  · rw [heq]
    show (records (_ ++ [_])).length = 1
    rw [records_append, hsuccess]
    rfl

theorem accounts_startAttempt {del : Delivery} (h : records del.calls = []) (k : ℕ) :
    (del.startAttempt cfg sig k).Accounts cfg := by
  rcases del.startAttempt_cases k with ⟨e, -, heq⟩ | ⟨-, heq⟩
  · rw [heq]
    exact accounts_failNonRetryable h e
  · rw [heq]
    show records (_ ++ [_]) = []
    rw [records_append, h]
    rfl

theorem accounts_processTask (sig : Signals) (p : Payload) (b : Bool) :
    (processTask cfg sig p b).Accounts cfg := by
  unfold processTask
  extract_lets del
  split
  · rename_i hforeign
    refine .inr (.inr ⟨rfl, ?_⟩)
    rintro (hown | hall)
    · exact hforeign.1 hown
    · exact hforeign.2 hall
  · split
    · exact accounts_publishToDlq rfl _ _ rfl
    · split
      · exact accounts_publishToDlq rfl _ _ rfl
      · split
        · exact accounts_publishToDlq rfl _ _ rfl
        · split
          · exact rfl
          · unfold afterFirewall
            split
            · exact rfl
            · exact rfl

theorem accounts_reaction {del del' : Delivery} {a : Act} (h : del.Accounts cfg)
    (hr : Reaction cfg sig del a del') (hpublished : ∀ e, a ≠ .published (.error e)) :
    del'.Accounts cfg := by
  cases hr with
  | passedFirewall v hv hs =>
      simp only [Accounts, hs] at h
      unfold afterFirewall
      split
      · exact h
      · show records del.calls = []
        rw [h]
        rfl
  | blockedByFirewall v hv hs =>
      simp only [Accounts, hs] at h
      exact accounts_publishToDlq (by rw [h]; rfl) _ _ rfl
  | firewallThrew e hs =>
      simp only [Accounts, hs] at h
      refine .inr (.inl ⟨rfl, ?_⟩)
      show records del.calls = []
      rw [h]
      rfl
  | passedGate v hv hs =>
      simp only [Accounts, hs] at h
      show records del.calls = []
      rw [h]
      rfl
  | blockedByGate v hv hs =>
      simp only [Accounts, hs] at h
      exact accounts_publishToDlq (by rw [h]; rfl) _ _ rfl
  | gateThrew e hs =>
      simp only [Accounts, hs] at h
      refine .inr (.inl ⟨rfl, ?_⟩)
      show records del.calls = []
      rw [h]
      rfl
  | started k hs =>
      simp only [Accounts, hs] at h
      exact accounts_startAttempt h k
  | settled k out hs =>
      simp only [Accounts, hs] at h
      exact h
  | late a ha => exact h
  | timedOut k hs =>
      simp only [Accounts, hs] at h
      exact h
  | raced k out hs =>
      simp only [Accounts, hs] at h
      exact accounts_attemptEnded h k out
  | completed k hs =>
      simp only [Accounts, hs] at h
      exact .inl ⟨h, rfl⟩
  | notCompleted k e hs => exact absurd rfl (hpublished e)
  | recorded ending hs =>
      simp only [Accounts, hs] at h
      have hrecorded :
          del.recorded cfg ending = (del.call [.onEmergencyStop]).goto (.ended ending) ∨
          del.recorded cfg ending = del.goto (.ended ending) := del.recorded_cases ending
      rcases hrecorded with heq | heq
      · rw [heq]
        refine .inl ⟨?_, h.2⟩
        show (records (_ ++ [_])).length = 1
        rw [records_append, List.length_append, h.1]
        rfl
      · rw [heq]
        exact .inl h
  | notRecorded ending e hs => exact absurd rfl (hpublished e)
  | delayed k hs =>
      simp only [Accounts, hs] at h
      exact h.1

theorem accounts_abort {del : Delivery} (h : del.Accounts cfg) (err : NonRetryableError) :
    (del.abort err).Accounts cfg := by
  rcases del.abort_cases err with ⟨k, hs, heq⟩ | ⟨-, heq⟩
  · rw [heq]
    simp only [Accounts, hs] at h
    exact h
  · rw [heq]
    exact h

theorem Accounts.retries {del : Delivery} (h : del.Accounts cfg) : del.Retries := by
  intro k hs
  simp only [Accounts, hs] at h
  exact h.2

/-! ### Deliveries a guard refused -/

/-- The handler has not been called, and never will be. -/
structure Refused (del : Delivery) : Prop where
  uncalled : del.invocations = 0
  settling : (∃ ending, del.stage = .recording ending) ∨ ∃ ending, del.stage = .ended ending

theorem Refused.reaction {del del' : Delivery} {a : Act} (h : del.Refused)
    (hr : Reaction cfg sig del a del') : del'.Refused := by
  have hover : ∀ st, del.stage = st →
      (∃ ending, st = .recording ending) ∨ ∃ ending, st = .ended ending := by
    intro st hs
    rw [← hs]
    exact h.settling
  cases hr with
  | late a ha => exact h
  | recorded ending hs => exact ⟨by simp [h.uncalled], .inr ⟨ending, rfl⟩⟩
  | notRecorded ending e hs => exact ⟨by simp [h.uncalled], .inr ⟨.failed, rfl⟩⟩
  | passedFirewall v hv hs => exact absurd (hover _ hs) (by simp)
  | blockedByFirewall v hv hs => exact absurd (hover _ hs) (by simp)
  | firewallThrew e hs => exact absurd (hover _ hs) (by simp)
  | passedGate v hv hs => exact absurd (hover _ hs) (by simp)
  | blockedByGate v hv hs => exact absurd (hover _ hs) (by simp)
  | gateThrew e hs => exact absurd (hover _ hs) (by simp)
  | started k hs => exact absurd (hover _ hs) (by simp)
  | settled k out hs => exact absurd (hover _ hs) (by simp)
  | timedOut k hs => exact absurd (hover _ hs) (by simp)
  | raced k out hs => exact absurd (hover _ hs) (by simp)
  | completed k hs => exact absurd (hover _ hs) (by simp)
  | notCompleted k e hs => exact absurd (hover _ hs) (by simp)
  | delayed k hs => exact absurd (hover _ hs) (by simp)

theorem Refused.abort {del : Delivery} (h : del.Refused) (err : NonRetryableError) :
    (del.abort err).Refused := by
  rcases del.abort_cases err with ⟨k, hs, -⟩ | ⟨-, heq⟩
  · have hover := h.settling
    rw [hs] at hover
    exact absurd hover (by simp)
  · rw [heq]
    exact h

/-- A guard's answer that refuses the task. -/
def Refuses : Act → Prop
  | .firewall (.ok v) => v.allowed = false
  | .firewall (.error _) => True
  | .gate (.ok v) => v.allowed = false
  | .gate (.error _) => True
  | _ => False

theorem refused_of_refuses {del del' : Delivery} {a : Act} (h : del.Accounts cfg)
    (hr : Reaction cfg sig del a del') (ha : Refuses a) : del'.Refused := by
  have huncalled : del.stage = .firewall ∨ del.stage = .gate → del.invocations = 0 := by
    rintro (hs | hs)
    · simp only [Accounts, hs] at h
      simp [invocations, h]
    · simp only [Accounts, hs] at h
      simp [invocations, h]
  cases hr with
  | passedFirewall v hv hs => exact absurd (hv.symm.trans ha) (by simp)
  | blockedByFirewall v hv hs =>
      exact ⟨by simp [huncalled (.inl hs)], .inl ⟨.blockedByFirewall, rfl⟩⟩
  | firewallThrew e hs => exact ⟨by simp [huncalled (.inl hs)], .inr ⟨.failed, rfl⟩⟩
  | passedGate v hv hs => exact absurd (hv.symm.trans ha) (by simp)
  | blockedByGate v hv hs => exact ⟨by simp [huncalled (.inr hs)], .inl ⟨.blockedByGate, rfl⟩⟩
  | gateThrew e hs => exact ⟨by simp [huncalled (.inr hs)], .inr ⟨.failed, rfl⟩⟩
  | late a hlate => rcases hlate with rfl | ⟨j, out, rfl⟩ <;> exact ha.elim
  | started k hs => exact ha.elim
  | settled k out hs => exact ha.elim
  | timedOut k hs => exact ha.elim
  | raced k out hs => exact ha.elim
  | completed k hs => exact ha.elim
  | notCompleted k e hs => exact ha.elim
  | recorded ending hs => exact ha.elim
  | notRecorded ending e hs => exact ha.elim
  | delayed k hs => exact ha.elim

/-- Nothing comes past an open breaker. -/
theorem refused_of_open (sig : Signals) (p : Payload) (hbreaker : cfg.hasBreaker = true) :
    (processTask cfg sig p true).Refused := by
  unfold processTask
  extract_lets del
  rw [hbreaker]
  split
  · exact ⟨rfl, .inr ⟨.ignored, rfl⟩⟩
  · split
    · exact ⟨rfl, .inl ⟨.refused, rfl⟩⟩
    · split
      · exact ⟨rfl, .inl ⟨.drained, rfl⟩⟩
      · exact ⟨rfl, .inl ⟨.breakerOpen, rfl⟩⟩

/-! ### Errors that leave `processTask` -/

/-- The error an attempt ends with: the handler's, or one of building the completion. -/
def raised (cfg : ActorConfig) : Outcome → Option Thrown
  | .threw e => some e
  | .returned v =>
      match completionData cfg v with
      | .error e => some e
      | .ok _ => none

/-- No guard throws, and an error that is not final and ends an attempt has a text. -/
def Answered (cfg : ActorConfig) (sig : Signals) (del : Delivery) : Act → Prop
  | .firewall (.error _) => False
  | .gate (.error _) => False
  | .resume => ∀ k out err, del.stage = .running k (some out) → raised cfg out = some err →
      finalError cfg sig del.payload k err = none → err.text ≠ none
  | _ => True

/-- The delivery ended with an error that left `processTask`. -/
def Fails (del : Delivery) : Prop := del.stage = .ended .failed

theorem caught_fails_iff (del : Delivery) (k : ℕ) (err : Thrown) :
    (del.caught cfg sig k err).Fails ↔
      finalError cfg sig del.payload k err = none ∧ err.text = none := by
  unfold Fails
  rcases del.caught_cases k err with
    ⟨e, hfinal, heq⟩ | ⟨hfinal, htext, heq⟩ | ⟨text, hfinal, htext, -, heq⟩ |
    ⟨text, hfinal, htext, -, heq⟩
  · rw [heq, hfinal]
    simp
  · rw [heq]
    simp [hfinal, htext]
  · rw [heq, htext]
    simp
  · rw [heq, htext]
    simp

theorem attemptEnded_fails_iff (del : Delivery) (k : ℕ) (out : Outcome) :
    (del.attemptEnded cfg sig k out).Fails ↔
      ∃ err, raised cfg out = some err ∧ finalError cfg sig del.payload k err = none ∧
        err.text = none := by
  rcases del.attemptEnded_cases k out with
    ⟨e, rfl, heq⟩ | ⟨v, e, rfl, hdata, heq⟩ | ⟨v, data, rfl, hdata, heq⟩
  · rw [heq, caught_fails_iff]
    simp [raised]
  · rw [heq, caught_fails_iff]
    simp [raised, hdata]
  · rw [heq]
    simp [raised, hdata, Fails]

/-- **A delivery fails just by what is not answered.** -/
theorem reaction_fails_iff {del del' : Delivery} {a : Act} (h : del.Accounts cfg)
    (hr : Reaction cfg sig del a del') (hpublished : ∀ e, a ≠ .published (.error e)) :
    del'.Fails ↔ del.Fails ∨ ¬ del.Answered cfg sig a := by
  cases hr with
  | late a ha =>
      have hanswered : del.Answered cfg sig a := by
        rcases ha with rfl | ⟨j, out, rfl⟩
        · trivial
        · trivial
      simp [hanswered]
  | firewallThrew e hs => simp [Fails, Answered]
  | gateThrew e hs => simp [Fails, Answered]
  | raced k out hs =>
      rw [attemptEnded_fails_iff]
      constructor
      · rintro ⟨err, hraised, hfinal, htext⟩
        exact .inr fun hanswered => hanswered k out err hs hraised hfinal htext
      · rintro (hfails | hnot)
        · exact absurd (hs.symm.trans hfails) (by simp)
        · by_contra hno
          refine hnot fun j out' err hs' hraised hfinal htext => ?_
          obtain ⟨rfl, rfl⟩ := (by simpa using hs.symm.trans hs' : k = j ∧ out = out')
          exact hno ⟨err, hraised, hfinal, htext⟩
  | passedFirewall v hv hs =>
      unfold afterFirewall
      split
      · simp [Fails, Answered, hs]
      · simp [Fails, Answered, hs]
  | blockedByFirewall v hv hs => simp [Fails, Answered, hs]
  | passedGate v hv hs => simp [Fails, Answered, hs]
  | blockedByGate v hv hs => simp [Fails, Answered, hs]
  | started k hs =>
      rcases del.startAttempt_cases k with ⟨e, -, heq⟩ | ⟨-, heq⟩
      · rw [heq]
        simp [Fails, Answered, hs]
      · rw [heq]
        simp [Fails, Answered, hs]
  | settled k out hs => simp [Fails, Answered, hs]
  | timedOut k hs => simp [Fails, Answered, hs]
  | completed k hs => simp [Fails, Answered, hs]
  | notCompleted k e hs => exact absurd rfl (hpublished e)
  | recorded ending hs =>
      simp only [Accounts, hs] at h
      have hending : ending ≠ .failed := by
        rintro rfl
        exact absurd h.2 (by decide)
      simp [Fails, Answered, hs, hending]
  | notRecorded ending e hs => exact absurd rfl (hpublished e)
  | delayed k hs => simp [Fails, Answered, hs]

theorem abort_fails_iff (del : Delivery) (err : NonRetryableError) :
    (del.abort err).Fails ↔ del.Fails := by
  rcases del.abort_cases err with ⟨k, hs, heq⟩ | ⟨-, heq⟩
  · rw [heq]
    simp [Fails, hs]
  · rw [heq]

end Delivery

/-! ### Runs -/

/-- Every publish succeeds. -/
def Publishes (e : ActorEvent) : Prop := ∀ x err, e ≠ .act x (.published (.error err))

/-- A guard of the delivery refuses its task, or throws. -/
def GuardRefuses (cfg : ActorConfig) (d : ℕ) (e : ActorEvent) : Prop :=
  (∃ a, e = .act d a ∧ Delivery.Refuses a) ∨ (∃ p, e = .deliver d p true ∧ cfg.hasBreaker = true)

/-- What happens to the delivery is answered: no guard throws, and a value that ends an
attempt and is not final has a text. -/
def GuardsAnswer (cfg : ActorConfig) (d : ℕ) (s : Actor) (e : ActorEvent) : Prop :=
  ∀ a del, e = .act d a → s.deliveries d = some del → del.Answered cfg s.signals a

/-- **What the guards promise for a delivery**: if one refuses, the handler is not called, and
the delivery ends with one record. -/
structure FailsClosed (cfg : ActorConfig) (d : ℕ) (es : List ActorEvent) (s : Actor)
    (del : Delivery) : Prop where
  uncalled : (∃ e ∈ es, GuardRefuses cfg d e) → del.invocations = 0
  reported : (∃ ending, del.stage = .ended ending) → (records del.calls).length = 1
  /-- It can go on until it has ended, and each reaction of its own takes it nearer. -/
  goesOn : (∃ ending, del.stage = .ended ending) ∨
    ∃ a del', del.step cfg s.signals a = some del' ∧ del'.stage.distance < del.stage.distance
  nearer : ∀ a del', del.step cfg s.signals a = some del' →
    del' = del ∨ del'.stage.distance < del.stage.distance

namespace Actor

variable {s s' : Actor} {e : ActorEvent}

/-- While publishes succeed, what a delivery has published is told by its stage. -/
theorem accounts_run {es : List ActorEvent} {t : Actor} (hpub : ∀ e ∈ es, Publishes e)
    (h : Each (fun del => del.Accounts cfg) s) (hrun : Steps.run (step cfg) s es = some t) :
    Each (fun del => del.Accounts cfg) t := by
  refine each_run (C := fun _ e => Publishes e) Delivery.accounts_processTask ?_
    (fun del err h _ => Delivery.accounts_abort h err) h (Steps.along_of_mem es s hpub) hrun
  intro s d a del del' hpublishes _ h hr
  refine Delivery.accounts_reaction h hr fun err ha => hpublishes d err ?_
  rw [ha]

/-- A delivery that is refused stays so. -/
theorem refused_stays (hstep : s.step cfg e = some s')
    (h : ∃ del, s.deliveries d = some del ∧ del.Refused) :
    ∃ del', s'.deliveries d = some del' ∧ del'.Refused := by
  obtain ⟨del, hdel, hrefused⟩ := h
  rcases step_change hstep d with hsame | ⟨p, b, -, hnone, -⟩ | ⟨a, old, del', -, hold, hr, hd⟩ |
    ⟨err, old, -, hold, hd⟩
  · exact ⟨del, hsame.trans hdel, hrefused⟩
  · exact absurd (hnone.symm.trans hdel) (by simp)
  · obtain rfl := Option.some.inj (hold.symm.trans hdel)
    exact ⟨del', hd, hrefused.reaction hr⟩
  · obtain rfl := Option.some.inj (hold.symm.trans hdel)
    exact ⟨_, hd, hrefused.abort err⟩

theorem refused_step (hstep : s.step cfg e = some s')
    (haccounts : Each (fun del => del.Accounts cfg) s) (h : GuardRefuses cfg d e) :
    ∃ del', s'.deliveries d = some del' ∧ del'.Refused := by
  rcases h with ⟨a, rfl, ha⟩ | ⟨p, rfl, hbreaker⟩
  · simp only [step] at hstep
    cases hdel : s.deliveries d with
    | none => simp [hdel] at hstep
    | some del =>
        simp only [hdel] at hstep
        obtain ⟨del', hdel', rfl⟩ := Option.map_eq_some_iff.mp hstep
        exact ⟨del', setDelivery_self s d del',
          Delivery.refused_of_refuses (haccounts d del hdel) (Delivery.reaction hdel') ha⟩
  · simp only [step] at hstep
    cases hdel : s.deliveries d with
    | some del => simp [hdel] at hstep
    | none =>
        simp only [hdel, Option.some.injEq] at hstep
        subst hstep
        exact ⟨_, setDelivery_self s d _, Delivery.refused_of_open s.signals p hbreaker⟩

/-- **A task that a guard refuses never comes to the handler.** -/
theorem refused_run {es : List ActorEvent} (hpub : ∀ e ∈ es, Publishes e)
    (hrun : Steps.run (step cfg) init es = some s) (h : ∃ e ∈ es, GuardRefuses cfg d e) :
    ∃ del, s.deliveries d = some del ∧ del.Refused := by
  obtain ⟨e, he, hrefuses⟩ := h
  obtain ⟨before, after, rfl⟩ := List.append_of_mem he
  obtain ⟨m, hbefore, hrest⟩ := Steps.run_append_some.mp hrun
  obtain ⟨m', hm, hafter⟩ := Steps.run_cons_some.mp hrest
  have haccounts : Each (fun del => del.Accounts cfg) m :=
    accounts_run (fun f hf => hpub f (List.mem_append_left _ hf)) (each_init _) hbefore
  exact Steps.invariant (P := fun s => ∃ del, s.deliveries d = some del ∧ del.Refused)
    (fun _ _ _ hr hstep => refused_stays hstep hr) (refused_step hm haccounts hrefuses) hafter

/-- A delivery that has failed. -/
def Failed (d : ℕ) (s : Actor) : Prop := ∃ del, s.deliveries d = some del ∧ del.Fails

theorem processTask_not_fails (cfg : ActorConfig) (sig : Signals) (p : Payload) (b : Bool) :
    ¬ (processTask cfg sig p b).Fails := by
  unfold processTask Delivery.Fails Delivery.afterFirewall
  extract_lets del
  split_ifs <;> simp [del]

/-- **A step makes a delivery fail just when it is not answered.** -/
theorem step_fails_iff (hstep : s.step cfg e = some s') (hpublishes : Publishes e)
    (haccounts : Each (fun del => del.Accounts cfg) s) :
    Failed d s' ↔ Failed d s ∨ ¬ GuardsAnswer cfg d s e := by
  by_cases hact : ∃ a del, e = .act d a ∧ s.deliveries d = some del
  · obtain ⟨a, del, rfl, hdel⟩ := hact
    obtain ⟨del', hr, hd⟩ := act_step hstep hdel
    have hbefore : Failed d s ↔ del.Fails := by simp [Failed, hdel]
    have hafter : Failed d s' ↔ del'.Fails := by simp [Failed, hd]
    have hanswer : GuardsAnswer cfg d s (.act d a) ↔ del.Answered cfg s.signals a := by
      simp [GuardsAnswer, hdel]
    rw [hbefore, hafter, hanswer]
    refine Delivery.reaction_fails_iff (haccounts d del hdel) hr fun err ha => ?_
    exact hpublishes d err (by rw [ha])
  · have hanswer : GuardsAnswer cfg d s e := fun a del he hdel => absurd ⟨a, del, he, hdel⟩ hact
    suffices hsame : Failed d s' ↔ Failed d s by simp [hsame, hanswer]
    rcases step_change hstep d with hsame | ⟨p, b, he, hnone, hnew⟩ |
      ⟨a, del, del', he, hdel, hr, hd⟩ | ⟨err, del, herr, hdel, hd⟩
    · unfold Failed
      rw [hsame]
    · have hfails := processTask_not_fails cfg s.signals p b
      simp [Failed, hnone, hnew, hfails]
    · exact absurd ⟨a, del, he, hdel⟩ hact
    · simp [Failed, hdel, hd, Delivery.abort_fails_iff]

theorem failed_run {es : List ActorEvent} (hpub : ∀ e ∈ es, Publishes e)
    (hrun : Steps.run (step cfg) init es = some s) :
    Failed d s ↔ ¬ Steps.Along (step cfg) (GuardsAnswer cfg d) init es := by
  have hiff := Steps.run_spoilt_iff (B := Failed d) (C := GuardsAnswer cfg d) (D := Publishes)
    (P := Each fun del => del.Accounts cfg) ?_ ?_ (each_init _) hpub hrun
  · rw [hiff]
    simp [Failed, init]
  · intro s e s' h he hstep
    have hall : ∀ f ∈ [e], Publishes f := by
      intro f hf
      rw [List.mem_singleton.mp hf]
      exact he
    exact accounts_run hall h (Steps.run_cons_some.mpr ⟨s', hstep, rfl⟩)
  · intro s e s' h he hstep
    exact step_fails_iff hstep he h

end Actor

/-- **The guards fail closed and every delivery is reported, just when no guard throws** and
no value without a text ends an attempt for want of another error. -/
theorem fails_closed_iff {es : List ActorEvent} {s : Actor} {del : Delivery}
    (hpub : ∀ e ∈ es, Publishes e)
    (hrun : Steps.run (Actor.step cfg) Actor.init es = some s)
    (hdel : s.deliveries d = some del) (haddressed : Addressed cfg del.payload) :
    FailsClosed cfg d es s del ↔
      Steps.Along (Actor.step cfg) (GuardsAnswer cfg d) Actor.init es := by
  have haccounts := Actor.accounts_run hpub (Actor.each_init _) hrun d del hdel
  have hfailed : del.Fails ↔
      ¬ Steps.Along (Actor.step cfg) (GuardsAnswer cfg d) Actor.init es := by
    rw [← Actor.failed_run hpub hrun]
    simp [Actor.Failed, hdel]
  constructor
  · intro h
    by_contra hno
    have hfails : del.stage = .ended .failed := hfailed.mpr hno
    have hone := h.reported ⟨_, hfails⟩
    simp only [Delivery.Accounts, hfails] at haccounts
    rcases haccounts with ⟨-, hreported⟩ | ⟨-, hnone⟩ | ⟨hignored, -⟩
    · exact absurd hreported (by decide)
    · rw [hnone] at hone
      exact absurd hone (by decide)
    · exact absurd hignored (by decide)
  · intro hanswer
    refine ⟨fun hrefuses => ?_, ?_, can_go_on s.signals haccounts.retries, fun a del' hstep => ?_⟩
    · obtain ⟨found, hfound, hrefused⟩ := Actor.refused_run hpub hrun hrefuses
      obtain rfl := Option.some.inj (hfound.symm.trans hdel)
      exact hrefused.uncalled
    · rintro ⟨ending, hended⟩
      simp only [Delivery.Accounts, hended] at haccounts
      rcases haccounts with ⟨hone, -⟩ | ⟨rfl, -⟩ | ⟨-, hforeign⟩
      · exact hone
      · exact absurd hanswer (hfailed.mp hended)
      · exact absurd haddressed hforeign
    · rcases reaction_nearer haccounts.retries (Delivery.reaction hstep) with ⟨hsame, -⟩ | hlt
      · exact .inl hsame
      · exact .inr hlt

/-! ### The action gate as a guard -/

/-- A validator throws when its turn comes. -/
def ValidatorThrows {σ : Type} (ctx : GateContext) : List (GateValidator σ) → σ → Prop
  | [], _ => False
  | v :: rest, st =>
      (∃ e st', v.check ctx st = (.error e, st')) ∨
        ValidatorThrows ctx rest (runValidator v ctx st).2

/-- A validator that throws is counted as one that blocks. -/
theorem blocks_of_throws {σ : Type} (ctx : GateContext) :
    ∀ (validators : List (GateValidator σ)) (st st' : σ) (verdicts : List GateVerdict),
      ValidatorThrows ctx validators st → runValidators ctx validators st = (.ok verdicts, st') →
      ∃ v ∈ verdicts, v.action = .block := by
  intro validators
  induction validators with
  | nil => intro st st' verdicts h; exact h.elim
  | cons v rest ih =>
      intro st st' verdicts h hrun
      unfold runValidators at hrun
      split at hrun
      · exact absurd hrun (by simp)
      · rename_i verdict st₁ hfirst
        split at hrun
        · exact absurd hrun (by simp)
        · rename_i others st₂ hrest
          obtain ⟨hverdicts, -⟩ := Prod.mk.inj hrun
          obtain rfl := Except.ok.inj hverdicts
          rcases h with ⟨e, st₃, hthrows⟩ | hlater
          · refine ⟨verdict, List.mem_cons_self, ?_⟩
            unfold runValidator at hfirst
            rw [hthrows] at hfirst
            dsimp only at hfirst
            split at hfirst
            · obtain ⟨hblock, -⟩ := Prod.mk.inj hfirst
              rw [← Except.ok.inj hblock]
            · exact absurd hfirst (by simp)
          · rw [hfirst] at hlater
            obtain ⟨w, hw, hblock⟩ := ih st₁ st₂ others hlater hrest
            exact ⟨w, List.mem_cons_of_mem verdict hw, hblock⟩

/-- **A gate with a validator that throws lets nothing pass.** -/
theorem gate_fails_closed {σ : Type} {opts : AdmissionGateOptions}
    {validators : List (GateValidator σ)} {audit : Option Thrown} {p : Payload} {st st' : σ}
    {verdict : Verdict} (hthrows : ValidatorThrows (gateContext opts p) validators st)
    (h : admissionGate opts true validators audit p st = (.ok verdict, st')) :
    verdict.allowed = false := by
  unfold admissionGate evaluateGate at h
  rw [if_pos rfl] at h
  cases hrun : runValidators (gateContext opts p) validators st with
  | mk result st₁ =>
      rw [hrun] at h
      cases result with
      | error e => exact absurd h (by simp)
      | ok verdicts =>
          cases audit with
          | some e => exact absurd h (by simp)
          | none =>
              obtain ⟨hverdict, -⟩ := Prod.mk.inj h
              obtain rfl := Except.ok.inj hverdict
              obtain ⟨v, hv, hblock⟩ := blocks_of_throws _ validators st st₁ verdicts hthrows hrun
              have hsevere := (decideGate_aggregates (gateContext opts p) verdicts).severe _ hv
              rw [hblock] at hsevere
              unfold admissionVerdict
              cases haction : (decideGate (gateContext opts p) verdicts).action with
              | block => rfl
              | escalate => rfl
              | terminate => rfl
              | allow =>
                  rw [haction] at hsevere
                  exact absurd hsevere (by decide)
              | degrade =>
                  rw [haction] at hsevere
                  exact absurd hsevere (by decide)

/-! ### One throwing firewall -/

/-- An agent behind a firewall. -/
def walledConfig : ActorConfig := ⟨js "writer", js "9f86d081", false, true, false, false, 0, false⟩

/-- A task whose instruction has no text. -/
def textlessTask : Payload :=
  ⟨js "task-1", js "writer",
    [(js "instruction", .obj [(js "toString", .num (JsNumber.ofInt 0))])], .finite 0⟩

/-- The firewall blocks the task, and the record is published. -/
def blockedTask : List ActorEvent :=
  [.deliver 0 textlessTask false, .act 0 (.firewall (.ok ⟨false, none⟩)),
    .act 0 (.published (.ok ()))]

theorem fails_closed_blocked :
    ∃ s del, Steps.run (Actor.step walledConfig) Actor.init blockedTask = some s ∧
      s.deliveries 0 = some del ∧ FailsClosed walledConfig 0 blockedTask s del := by
  obtain ⟨s, del, hrun, hdel, haddressed⟩ : ∃ s del,
      Steps.run (Actor.step walledConfig) Actor.init blockedTask = some s ∧
        s.deliveries 0 = some del ∧ Addressed walledConfig del.payload :=
    ⟨_, _, rfl, rfl, .inl rfl⟩
  refine ⟨s, del, hrun, hdel, (fails_closed_iff ?_ hrun hdel haddressed).mpr ?_⟩
  · intro e he x err
    simp only [blockedTask, List.mem_cons, List.not_mem_nil, or_false] at he
    rcases he with rfl | rfl | rfl <;> simp
  · refine ⟨?_, fun _ _ => ⟨?_, fun _ _ => ⟨?_, fun _ _ => trivial⟩⟩⟩
    · intro a del ha
      exact absurd ha (by simp)
    · rintro a del ha -
      obtain ⟨-, rfl⟩ := (by simpa using ha : (0 : ℕ) = 0 ∧ Act.firewall (.ok ⟨false, none⟩) = a)
      trivial
    · rintro a del ha -
      obtain ⟨-, rfl⟩ := (by simpa using ha : (0 : ℕ) = 0 ∧ Act.published (.ok ()) = a)
      trivial

theorem throwing_firewall_unreported :
    heuristicFirewall [] textlessTask = .error noTextError ∧
    ¬ ∀ (cfg : ActorConfig) (d : ℕ) (es : List ActorEvent) (s : Actor) (del : Delivery),
      (∀ e ∈ es, Publishes e) → Steps.run (Actor.step cfg) Actor.init es = some s →
      s.deliveries d = some del → Addressed cfg del.payload → FailsClosed cfg d es s del := by
  have hthrows : heuristicFirewall [] textlessTask = .error noTextError := by
    rfl
  refine ⟨hthrows, fun h => ?_⟩
  have hpub : ∀ e ∈ [ActorEvent.deliver 0 textlessTask false,
      .act 0 (.firewall (heuristicFirewall [] textlessTask))], Publishes e := by
    intro e he x err
    simp only [List.mem_cons, List.not_mem_nil, or_false] at he
    rcases he with rfl | rfl <;> simp
  have hclosed := h walledConfig 0 _ _ _ hpub rfl rfl (.inl rfl)
  exact absurd (hclosed.reported ⟨_, rfl⟩) (by decide)

end Kaiban
