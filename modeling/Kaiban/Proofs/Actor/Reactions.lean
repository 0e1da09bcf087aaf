/-
What one step of an agent does to one delivery.

Every later proof about deliveries is a case split on `Reaction`, which names what can
happen to a delivery and what it becomes, and never unfolds the step function again.
`step_change` says that a step of the agent is, for each delivery, its arrival, one such
reaction, an abort by a stop, or nothing.
-/
import Kaiban.Actor
import Kaiban.Lib.Steps

open JsString

namespace Kaiban

variable {cfg : ActorConfig} {sig : Signals}

/-! ### Calls and stages of the helpers -/

namespace Delivery

@[simp] theorem call_calls (del : Delivery) (cs : List Call) :
    (del.call cs).calls = del.calls ++ cs := rfl

@[simp] theorem call_stage (del : Delivery) (cs : List Call) : (del.call cs).stage = del.stage :=
  rfl

@[simp] theorem call_payload (del : Delivery) (cs : List Call) :
    (del.call cs).payload = del.payload := rfl

@[simp] theorem goto_calls (del : Delivery) (st : Stage) : (del.goto st).calls = del.calls := rfl

@[simp] theorem goto_stage (del : Delivery) (st : Stage) : (del.goto st).stage = st := rfl

@[simp] theorem goto_payload (del : Delivery) (st : Stage) :
    (del.goto st).payload = del.payload := rfl

@[simp] theorem breaker_stage (del : Delivery) (c : Call) :
    (del.breaker cfg c).stage = del.stage := by
  unfold breaker
  split <;> rfl

@[simp] theorem breaker_payload (del : Delivery) (c : Call) :
    (del.breaker cfg c).payload = del.payload := by
  unfold breaker
  split <;> rfl

theorem breaker_calls (del : Delivery) (c : Call) :
    (del.breaker cfg c).calls = del.calls ++ (if cfg.hasBreaker then [c] else []) := by
  unfold breaker
  split <;> simp

/-- The dead-letter record of a delivery. -/
def deadLetter (cfg : ActorConfig) (p : Payload) (error : JsString) (reason : Option JsString) :
    Record :=
  ⟨.deadLetter, p.taskId, cfg.id, deadLetterData p.data error reason⟩

@[simp] theorem publishToDlq_stage (del : Delivery) (error : JsString)
    (reason : Option JsString) (ending : Ending) :
    (del.publishToDlq cfg error reason ending).stage = .recording ending := rfl

@[simp] theorem publishToDlq_payload (del : Delivery) (error : JsString)
    (reason : Option JsString) (ending : Ending) :
    (del.publishToDlq cfg error reason ending).payload = del.payload := rfl

@[simp] theorem publishToDlq_calls (del : Delivery) (error : JsString)
    (reason : Option JsString) (ending : Ending) :
    (del.publishToDlq cfg error reason ending).calls
      = del.calls ++ [.publish (deadLetter cfg del.payload error reason)] := rfl

@[simp] theorem failNonRetryable_stage (del : Delivery) (e : NonRetryableError) :
    (del.failNonRetryable cfg e).stage = .recording (.rejected e) := rfl

@[simp] theorem failNonRetryable_payload (del : Delivery) (e : NonRetryableError) :
    (del.failNonRetryable cfg e).payload = del.payload := by
  unfold failNonRetryable
  split <;> simp

theorem failNonRetryable_calls (del : Delivery) (e : NonRetryableError) :
    (del.failNonRetryable cfg e).calls = del.calls
      ++ (if e.reasonCode = js "task_timeout" ∧ cfg.hasBreaker = true then [.recordFailure] else [])
      ++ [.publish (deadLetter cfg del.payload e.reasonCode (some e.message))] := by
  unfold failNonRetryable
  by_cases h : e.reasonCode = js "task_timeout"
  · cases hb : cfg.hasBreaker <;> simp [h, hb, breaker_calls]
  · simp [h]

@[simp] theorem abort_payload (del : Delivery) (e : NonRetryableError) :
    (del.abort e).payload = del.payload := by
  unfold abort
  split <;> rfl

@[simp] theorem abort_calls (del : Delivery) (e : NonRetryableError) :
    (del.abort e).calls = del.calls := by
  unfold abort
  split <;> rfl

/-- An abort decides an open race and does nothing else. -/
theorem abort_cases (del : Delivery) (e : NonRetryableError) :
    (∃ k, del.stage = .running k none ∧
      del.abort e = del.goto (.running k (some (.threw (.nonRetryable e))))) ∨
    ((∀ k, del.stage ≠ .running k none) ∧ del.abort e = del) := by
  unfold abort
  split
  · rename_i k hk
    exact .inl ⟨k, hk, rfl⟩
  · rename_i hno
    exact .inr ⟨hno, rfl⟩

/-- The four ways out of a `catch`. -/
theorem caught_cases (del : Delivery) (k : ℕ) (err : Thrown) :
    (∃ e, finalError cfg sig del.payload k err = some e ∧
      del.caught cfg sig k err = del.failNonRetryable cfg e) ∨
    (finalError cfg sig del.payload k err = none ∧ err.text = none ∧
      del.caught cfg sig k err = del.goto (.ended .failed)) ∨
    (∃ t, finalError cfg sig del.payload k err = none ∧ err.text = some t ∧ k < retryAttempts ∧
      del.caught cfg sig k err = del.goto (.backoff k)) ∨
    (∃ t, finalError cfg sig del.payload k err = none ∧ err.text = some t ∧
      retryAttempts ≤ k ∧ del.caught cfg sig k err
        = (del.breaker cfg .recordFailure).publishToDlq cfg t none .exhausted) := by
  unfold caught
  cases hfinal : finalError cfg sig del.payload k err with
  | some e => exact .inl ⟨e, rfl, rfl⟩
  | none =>
      cases htext : err.text with
      | none => exact .inr (.inl ⟨rfl, rfl, rfl⟩)
      | some t =>
          by_cases hk : k < retryAttempts
          · exact .inr (.inr (.inl ⟨t, rfl, rfl, hk, by simp [hk]⟩))
          · exact .inr (.inr (.inr ⟨t, rfl, rfl, by omega, by simp [hk]⟩))

theorem caught_not_racing (del : Delivery) (j : ℕ) (err : Thrown) (k : ℕ) :
    (del.caught cfg sig j err).stage ≠ .running k none := by
  rcases del.caught_cases j err with
    ⟨e, -, h⟩ | ⟨-, -, h⟩ | ⟨t, -, -, -, h⟩ | ⟨t, -, -, -, h⟩ <;> rw [h] <;> simp

/-- The ways an attempt that ended goes on. -/
theorem attemptEnded_cases (del : Delivery) (k : ℕ) (out : Outcome) :
    (∃ e, out = .threw e ∧ del.attemptEnded cfg sig k out
      = (del.call [.attemptEnded k out]).caught cfg sig k e) ∨
    (∃ v e, out = .returned v ∧ completionData cfg v = .error e ∧
      del.attemptEnded cfg sig k out
        = ((del.call [.attemptEnded k out]).breaker cfg .recordSuccess).caught cfg sig k e) ∨
    (∃ v data, out = .returned v ∧ completionData cfg v = .ok data ∧
      del.attemptEnded cfg sig k out
        = (((del.call [.attemptEnded k out]).breaker cfg .recordSuccess).call
            [.publish ⟨.completed, del.payload.taskId, cfg.id, data⟩]).goto (.publishing k)) := by
  unfold attemptEnded
  cases out with
  | threw e => exact .inl ⟨e, rfl, rfl⟩
  | returned v =>
      simp only
      cases hdata : completionData cfg v with
      | error e => exact .inr (.inl ⟨v, e, rfl, hdata, rfl⟩)
      | ok data => exact .inr (.inr ⟨v, data, rfl, hdata, by simp⟩)

theorem startAttempt_cases (del : Delivery) (k : ℕ) :
    (∃ e, interruption sig del.payload = some e ∧
      del.startAttempt cfg sig k = del.failNonRetryable cfg e) ∨
    (interruption sig del.payload = none ∧
      del.startAttempt cfg sig k = (del.call [.handler k]).goto (.running k none)) := by
  unfold startAttempt
  cases h : interruption sig del.payload with
  | some e => exact .inl ⟨e, rfl, rfl⟩
  | none => exact .inr ⟨rfl, rfl⟩

end Delivery

/-! ### Reactions -/

/-- What can happen to a delivery, and what it becomes. -/
inductive Reaction (cfg : ActorConfig) (sig : Signals) (del : Delivery) : Act → Delivery → Prop
  | passedFirewall (v : Verdict) (hv : v.allowed = true) (hs : del.stage = .firewall) :
      Reaction cfg sig del (.firewall (.ok v)) (del.afterFirewall cfg)
  | blockedByFirewall (v : Verdict) (hv : v.allowed = false) (hs : del.stage = .firewall) :
      Reaction cfg sig del (.firewall (.ok v))
        (del.publishToDlq cfg (js "blocked_by_semantic_firewall") v.reason .blockedByFirewall)
  | firewallThrew (e : Thrown) (hs : del.stage = .firewall) :
      Reaction cfg sig del (.firewall (.error e)) (del.goto (.ended .failed))
  | passedGate (v : Verdict) (hv : v.allowed = true) (hs : del.stage = .gate) :
      Reaction cfg sig del (.gate (.ok v)) (del.goto (.starting 1))
  | blockedByGate (v : Verdict) (hv : v.allowed = false) (hs : del.stage = .gate) :
      Reaction cfg sig del (.gate (.ok v))
        (del.publishToDlq cfg (js "blocked_by_admission_gate") v.reason .blockedByGate)
  | gateThrew (e : Thrown) (hs : del.stage = .gate) :
      Reaction cfg sig del (.gate (.error e)) (del.goto (.ended .failed))
  | started (k : ℕ) (hs : del.stage = .starting k) :
      Reaction cfg sig del .start (del.startAttempt cfg sig k)
  | settled (k : ℕ) (out : Outcome) (hs : del.stage = .running k none) :
      Reaction cfg sig del (.settles k out) (del.goto (.running k (some out)))
  | late (a : Act) (ha : a = .timer ∨ ∃ j out, a = .settles j out) : Reaction cfg sig del a del
  | timedOut (k : ℕ) (hs : del.stage = .running k none) :
      Reaction cfg sig del .timer
        (del.goto (.running k (some (.threw (.nonRetryable (timeoutError cfg))))))
  | raced (k : ℕ) (out : Outcome) (hs : del.stage = .running k (some out)) :
      Reaction cfg sig del .resume (del.attemptEnded cfg sig k out)
  | completed (k : ℕ) (hs : del.stage = .publishing k) :
      Reaction cfg sig del (.published (.ok ())) (del.goto (.ended .completed))
  | notCompleted (k : ℕ) (e : Thrown) (hs : del.stage = .publishing k) :
      Reaction cfg sig del (.published (.error e)) (del.caught cfg sig k e)
  | recorded (ending : Ending) (hs : del.stage = .recording ending) :
      Reaction cfg sig del (.published (.ok ())) (del.recorded cfg ending)
  | notRecorded (ending : Ending) (e : Thrown) (hs : del.stage = .recording ending) :
      Reaction cfg sig del (.published (.error e)) (del.goto (.ended .failed))
  | delayed (k : ℕ) (hs : del.stage = .backoff k) :
      Reaction cfg sig del .delayed (del.goto (.starting (k + 1)))

/-- **Every step of a delivery is one of the reactions.** -/
theorem Delivery.reaction {del del' : Delivery} {a : Act} (h : del.step cfg sig a = some del') :
    Reaction cfg sig del a del' := by
  unfold Delivery.step at h
  split at h
  case h_1 v hs =>
    cases hv : v.allowed with
    | true =>
        obtain rfl : del.afterFirewall cfg = del' := by simpa [hv] using h
        exact .passedFirewall v hv hs
    | false =>
        rw [hv] at h
        obtain rfl := Option.some.inj h
        exact .blockedByFirewall v hv hs
  case h_2 e hs =>
    obtain rfl := Option.some.inj h
    exact .firewallThrew e hs
  case h_3 v hs =>
    cases hv : v.allowed with
    | true =>
        obtain rfl : del.goto (.starting 1) = del' := by simpa [hv] using h
        exact .passedGate v hv hs
    | false =>
        rw [hv] at h
        obtain rfl := Option.some.inj h
        exact .blockedByGate v hv hs
  case h_4 e hs =>
    obtain rfl := Option.some.inj h
    exact .gateThrew e hs
  case h_5 k hs =>
    obtain rfl := Option.some.inj h
    exact .started k hs
  case h_6 k j out hs =>
    by_cases hj : j = k
    · subst hj
      obtain rfl : del.goto (.running j (some out)) = del' := by simpa using h
      exact .settled j out hs
    · obtain rfl : del = del' := by simpa [hj] using h
      exact .late _ (.inr ⟨j, out, rfl⟩)
  case h_7 j out hno =>
    obtain rfl := Option.some.inj h
    exact .late _ (.inr ⟨j, out, rfl⟩)
  case h_8 k hs =>
    rcases del.abort_cases (timeoutError cfg) with ⟨j, hj, habort⟩ | ⟨hno, -⟩
    · rw [habort] at h
      obtain rfl := Option.some.inj h
      exact .timedOut j hj
    · exact absurd hs (hno k)
  case h_9 k out hs =>
    obtain rfl := Option.some.inj h
    exact .late _ (.inl rfl)
  case h_10 k out hs =>
    obtain rfl := Option.some.inj h
    exact .raced k out hs
  case h_11 k hs =>
    obtain rfl := Option.some.inj h
    exact .completed k hs
  case h_12 k e hs =>
    obtain rfl := Option.some.inj h
    exact .notCompleted k e hs
  case h_13 ending hs =>
    obtain rfl := Option.some.inj h
    exact .recorded ending hs
  case h_14 ending e hs =>
    obtain rfl := Option.some.inj h
    exact .notRecorded ending e hs
  case h_15 k hs =>
    obtain rfl := Option.some.inj h
    exact .delayed k hs
  case h_16 => exact absurd h (by simp)

/-! ### Records -/

/-- The messages among some calls. -/
def records (cs : List Call) : List Record :=
  cs.filterMap fun c => match c with
    | .publish r => some r
    | _ => none

@[simp] theorem records_nil : records [] = [] := rfl

@[simp] theorem records_append (cs ds : List Call) :
    records (cs ++ ds) = records cs ++ records ds := by simp [records]

@[simp] theorem records_publish (r : Record) (cs : List Call) :
    records (.publish r :: cs) = r :: records cs := rfl

@[simp] theorem records_handler (k : ℕ) (cs : List Call) :
    records (.handler k :: cs) = records cs := rfl

@[simp] theorem records_attemptEnded (k : ℕ) (out : Outcome) (cs : List Call) :
    records (.attemptEnded k out :: cs) = records cs := rfl

@[simp] theorem records_recordSuccess (cs : List Call) :
    records (.recordSuccess :: cs) = records cs := rfl

@[simp] theorem records_recordFailure (cs : List Call) :
    records (.recordFailure :: cs) = records cs := rfl

@[simp] theorem records_onEmergencyStop (cs : List Call) :
    records (.onEmergencyStop :: cs) = records cs := rfl

/-- The dead-letter records among some calls. -/
def deadLetters (cs : List Call) : List Record :=
  (records cs).filter fun r => r.channel = .deadLetter

@[simp] theorem deadLetters_nil : deadLetters [] = [] := rfl

@[simp] theorem deadLetters_append (cs ds : List Call) :
    deadLetters (cs ++ ds) = deadLetters cs ++ deadLetters ds := by simp [deadLetters]

theorem deadLetters_eq_nil {cs : List Call} (h : records cs = []) : deadLetters cs = [] := by
  simp [deadLetters, h]

/-! ### What reactions leave alone -/

def Call.isHandler : Call → Bool
  | .handler _ => true
  | _ => false

namespace Delivery

/-- How often the handler was called. -/
def invocations (del : Delivery) : ℕ := del.calls.countP Call.isHandler

@[simp] theorem call_invocations (del : Delivery) (cs : List Call) :
    (del.call cs).invocations = del.invocations + cs.countP Call.isHandler := by
  simp [invocations]

@[simp] theorem goto_invocations (del : Delivery) (st : Stage) :
    (del.goto st).invocations = del.invocations := rfl

@[simp] theorem abort_invocations (del : Delivery) (e : NonRetryableError) :
    (del.abort e).invocations = del.invocations := by simp [invocations]

theorem breaker_invocations (del : Delivery) {c : Call} (h : c.isHandler = false) :
    (del.breaker cfg c).invocations = del.invocations := by
  simp only [invocations, breaker_calls]
  split <;> simp [h]

@[simp] theorem publishToDlq_invocations (del : Delivery) (error : JsString)
    (reason : Option JsString) (ending : Ending) :
    (del.publishToDlq cfg error reason ending).invocations = del.invocations := by
  simp [invocations, Call.isHandler]

@[simp] theorem failNonRetryable_invocations (del : Delivery) (e : NonRetryableError) :
    (del.failNonRetryable cfg e).invocations = del.invocations := by
  simp only [invocations, failNonRetryable_calls]
  split <;> simp [Call.isHandler]

@[simp] theorem caught_payload (del : Delivery) (k : ℕ) (err : Thrown) :
    (del.caught cfg sig k err).payload = del.payload := by
  rcases del.caught_cases k err with
    ⟨e, -, h⟩ | ⟨-, -, h⟩ | ⟨t, -, -, -, h⟩ | ⟨t, -, -, -, h⟩ <;> rw [h] <;> simp

@[simp] theorem caught_invocations (del : Delivery) (k : ℕ) (err : Thrown) :
    (del.caught cfg sig k err).invocations = del.invocations := by
  rcases del.caught_cases k err with
    ⟨e, -, h⟩ | ⟨-, -, h⟩ | ⟨t, -, -, -, h⟩ | ⟨t, -, -, -, h⟩ <;> rw [h]
  · simp
  · simp
  · simp
  · rw [publishToDlq_invocations, breaker_invocations _ rfl]

@[simp] theorem attemptEnded_payload (del : Delivery) (k : ℕ) (out : Outcome) :
    (del.attemptEnded cfg sig k out).payload = del.payload := by
  rcases del.attemptEnded_cases k out with
    ⟨e, -, h⟩ | ⟨v, e, -, -, h⟩ | ⟨v, data, -, -, h⟩ <;> rw [h] <;> simp

@[simp] theorem attemptEnded_invocations (del : Delivery) (k : ℕ) (out : Outcome) :
    (del.attemptEnded cfg sig k out).invocations = del.invocations := by
  rcases del.attemptEnded_cases k out with
    ⟨e, -, h⟩ | ⟨v, e, -, -, h⟩ | ⟨v, data, -, -, h⟩ <;> rw [h]
  · simp [Call.isHandler]
  · rw [caught_invocations, breaker_invocations _ rfl]
    simp [Call.isHandler]
  · rw [goto_invocations, call_invocations, breaker_invocations _ rfl]
    simp [Call.isHandler]

@[simp] theorem startAttempt_payload (del : Delivery) (k : ℕ) :
    (del.startAttempt cfg sig k).payload = del.payload := by
  rcases del.startAttempt_cases k with ⟨e, -, h⟩ | ⟨-, h⟩ <;>
    rw [h] <;> simp

@[simp] theorem afterFirewall_payload (del : Delivery) :
    (del.afterFirewall cfg).payload = del.payload := rfl

@[simp] theorem afterFirewall_calls (del : Delivery) :
    (del.afterFirewall cfg).calls = del.calls := rfl

theorem recorded_cases (del : Delivery) (ending : Ending) :
    del.recorded cfg ending = (del.call [.onEmergencyStop]).goto (.ended ending) ∨
      del.recorded cfg ending = del.goto (.ended ending) := by
  unfold recorded
  extract_lets hook
  split
  · exact .inl rfl
  · exact .inr rfl

@[simp] theorem recorded_payload (del : Delivery) (ending : Ending) :
    (del.recorded cfg ending).payload = del.payload := by
  rcases del.recorded_cases ending with h | h <;> rw [h] <;> rfl

@[simp] theorem recorded_stage (del : Delivery) (ending : Ending) :
    (del.recorded cfg ending).stage = .ended ending := rfl

@[simp] theorem recorded_invocations (del : Delivery) (ending : Ending) :
    (del.recorded cfg ending).invocations = del.invocations := by
  rcases del.recorded_cases ending with h | h <;> rw [h] <;> simp [Call.isHandler]

end Delivery

/-- A reaction does not change which task a delivery is for. -/
theorem Reaction.payload {del del' : Delivery} {a : Act} (h : Reaction cfg sig del a del') :
    del'.payload = del.payload := by
  cases h <;> simp

/-- **Only an attempt that nothing interrupts calls the handler.** -/
theorem Reaction.invoked {del del' : Delivery} {a : Act} (h : Reaction cfg sig del a del') :
    del'.invocations = del.invocations ∨
    ∃ k, a = .start ∧ del.stage = .starting k ∧ interruption sig del.payload = none ∧
      del' = (del.call [.handler k]).goto (.running k none) := by
  cases h with
  | started k hs =>
      rcases del.startAttempt_cases k with ⟨e, -, h⟩ | ⟨hnone, h⟩
      · rw [h]
        exact .inl (by simp)
      · exact .inr ⟨k, rfl, hs, hnone, h⟩
  | passedFirewall => exact .inl rfl
  | late => exact .inl rfl
  | _ => exact .inl (by simp)

/-- An attempt whose race is open has just started or was open before. -/
theorem Reaction.racing {del del' : Delivery} {a : Act} {k : ℕ} (h : Reaction cfg sig del a del')
    (hopen : del'.stage = .running k none) :
    a = .start ∨ (del.stage = .running k none ∧ (a = .timer ∨ ∃ j out, a = .settles j out)) := by
  cases h with
  | started => exact .inl rfl
  | late a ha => exact .inr ⟨hopen, ha⟩
  | passedFirewall v hv hs =>
      unfold Delivery.afterFirewall at hopen
      split at hopen <;> simp at hopen
  | raced j out hs =>
      exfalso
      rcases del.attemptEnded_cases j out with
        ⟨e, -, h⟩ | ⟨v, e, -, -, h⟩ | ⟨v, data, -, -, h⟩
      · exact absurd hopen (by rw [h]; exact Delivery.caught_not_racing _ _ _ _)
      · exact absurd hopen (by rw [h]; exact Delivery.caught_not_racing _ _ _ _)
      · rw [h] at hopen
        simp at hopen
  | notCompleted j e hs => exact absurd hopen (Delivery.caught_not_racing _ _ _ _)
  | _ => simp at hopen

/-! ### Past the guards -/

/-- The guards are behind the delivery. -/
def Delivery.PastGate (del : Delivery) : Prop := del.stage ≠ .firewall ∧ del.stage ≠ .gate

theorem Delivery.caught_pastGate (del : Delivery) (sig : Signals) (k : ℕ) (err : Thrown) :
    (del.caught cfg sig k err).PastGate := by
  unfold Delivery.PastGate
  rcases del.caught_cases k err with
    ⟨e, -, h⟩ | ⟨-, -, h⟩ | ⟨t, -, -, -, h⟩ | ⟨t, -, -, -, h⟩ <;> rw [h] <;> simp

/-- After the gate's verdict a delivery stays past its guards. -/
theorem Reaction.pastGate {sig : Signals} {del del' : Delivery} {a : Act}
    (h : Reaction cfg sig del a del') (hp : del.PastGate ∨ ∃ verdict, a = .gate verdict) :
    del'.PastGate := by
  have hnot : del.stage = .firewall → ∀ v, a = .firewall v → False := by
    intro hs v ha
    rcases hp with hp | ⟨verdict, hg⟩
    · exact hp.1 hs
    · rw [hg] at ha
      exact absurd ha (by simp)
  cases h with
  | passedFirewall v hv hs => exact (hnot hs _ rfl).elim
  | blockedByFirewall v hv hs => exact (hnot hs _ rfl).elim
  | firewallThrew e hs => exact (hnot hs _ rfl).elim
  | started k hs =>
      unfold Delivery.PastGate
      rcases del.startAttempt_cases k with ⟨e, -, h⟩ | ⟨-, h⟩ <;> rw [h] <;> simp
  | late a ha =>
      rcases hp with hp | ⟨verdict, hg⟩
      · exact hp
      · rcases ha with ha | ⟨j, out, ha⟩ <;> exact absurd (hg.symm.trans ha) (by simp)
  | raced k out hs =>
      rcases del.attemptEnded_cases k out with
        ⟨e, -, h⟩ | ⟨v, e, -, -, h⟩ | ⟨v, data, -, -, h⟩
      · rw [h]
        exact Delivery.caught_pastGate _ _ _ _
      · rw [h]
        exact Delivery.caught_pastGate _ _ _ _
      · rw [h]
        simp [Delivery.PastGate]
  | notCompleted k e hs => exact Delivery.caught_pastGate _ _ _ _
  | _ => simp [Delivery.PastGate]

/-- A gate's verdict is given to a delivery at its gate. -/
theorem Reaction.atGate {sig : Signals} {del del' : Delivery} {verdict : Except Thrown Verdict}
    (h : Reaction cfg sig del (.gate verdict) del') : del.stage = .gate := by
  cases h with
  | passedGate v hv hs => exact hs
  | blockedByGate v hv hs => exact hs
  | gateThrew e hs => exact hs
  | late a ha => rcases ha with ha | ⟨j, out, ha⟩ <;> exact absurd ha (by simp)

theorem Delivery.abort_pastGate {del : Delivery} (h : del.PastGate) (err : NonRetryableError) :
    (del.abort err).PastGate := by
  rcases del.abort_cases err with ⟨k, -, heq⟩ | ⟨-, heq⟩ <;> rw [heq]
  · simp [Delivery.PastGate]
  · exact h

/-! ### Steps of the agent -/

namespace Actor

@[simp] theorem setDelivery_self (s : Actor) (d : ℕ) (del : Delivery) :
    (s.setDelivery d del).deliveries d = some del := by simp [setDelivery]

theorem setDelivery_ne (s : Actor) {d x : ℕ} (del : Delivery) (h : x ≠ d) :
    (s.setDelivery d del).deliveries x = s.deliveries x := by simp [setDelivery, h]

/-- The error a stop aborts an attempt with. -/
def StopError (e : ActorEvent) (err : NonRetryableError) : Prop :=
  (∃ t, e = .emergencyStop t ∧ err = emergencyStopError) ∨ (e = .stop ∧ err = stoppedError)

/-- An emergency stop that is applied, and what it leaves. -/
structure Applied (s : Actor) (t : Decimal) (s' : Actor) (r : EmergencyStopResult) : Prop where
  later : ∀ u, s.signals.stoppedAt = some u → u < t
  signals : s'.signals = { s.signals with stoppedAt := some t }
  inFlight : s'.inFlight = s.inFlight
  deliveries : ∀ d, s'.deliveries d = (s.deliveries d).map fun del =>
    if s.stopped s'.signals d del then del.abort emergencyStopError else del
  applied : r.applied = true
  aborted : r.aborted
    = (s.inFlight.filter fun d => (s.deliveries d).any (s.stopped s'.signals d)).length

/-- An emergency stop is older than the latest one and does nothing, or it is applied. -/
theorem emergencyStop_cases (s : Actor) (t : Decimal) :
    (s.emergencyStop t = (s, ⟨false, 0⟩) ∧ ∃ u, s.signals.stoppedAt = some u ∧ t ≤ u) ∨
      Applied s t (s.emergencyStop t).1 (s.emergencyStop t).2 := by
  unfold emergencyStop
  split
  · rename_i hnoop
    refine .inl ⟨rfl, ?_⟩
    cases hat : s.signals.stoppedAt with
    | none => simp [hat] at hnoop
    | some u => exact ⟨u, rfl, by simpa [hat] using hnoop⟩
  · rename_i hlater
    refine .inr ⟨fun u hu => ?_, rfl, rfl, fun d => rfl, rfl, rfl⟩
    simpa [hu] using hlater

/-- What an emergency stop does to one delivery. -/
theorem Applied.delivery {s s' : Actor} {t : Decimal} {r : EmergencyStopResult}
    (h : Applied s t s' r) {d : ℕ} {del : Delivery} (hd : s.deliveries d = some del) :
    (d ∈ s.inFlight ∧ s'.signals.sentBeforeStop del.payload = true ∧
      s'.deliveries d = some (del.abort emergencyStopError)) ∨
    (¬ (d ∈ s.inFlight ∧ s'.signals.sentBeforeStop del.payload = true) ∧
      s'.deliveries d = some del) := by
  have hd' := h.deliveries d
  rw [hd, Option.map_some] at hd'
  by_cases hstop : d ∈ s.inFlight ∧ s'.signals.sentBeforeStop del.payload = true
  · refine .inl ⟨hstop.1, hstop.2, ?_⟩
    rw [hd']
    simp [stopped, hstop.1, hstop.2]
  · refine .inr ⟨hstop, ?_⟩
    rw [hd', if_neg]
    simpa [stopped] using hstop

/-- **What one step of the agent does to one delivery.** -/
theorem step_change {s s' : Actor} {e : ActorEvent} (h : s.step cfg e = some s') (d : ℕ) :
    s'.deliveries d = s.deliveries d ∨
    (∃ p b, e = .deliver d p b ∧ s.deliveries d = none ∧
      s'.deliveries d = some (processTask cfg s.signals p b)) ∨
    (∃ a del del', e = .act d a ∧ s.deliveries d = some del ∧
      Reaction cfg s.signals del a del' ∧ s'.deliveries d = some del') ∨
    (∃ err del, StopError e err ∧ s.deliveries d = some del ∧
      s'.deliveries d = some (del.abort err)) := by
  cases e with
  | deliver x p b =>
      simp only [step] at h
      cases hx : s.deliveries x with
      | some del => simp [hx] at h
      | none =>
          simp only [hx, Option.some.injEq] at h
          subst h
          by_cases hd : d = x
          · subst hd
            exact .inr (.inl ⟨p, b, rfl, hx, setDelivery_self s d _⟩)
          · exact .inl (setDelivery_ne s _ hd)
  | act x a =>
      simp only [step] at h
      cases hx : s.deliveries x with
      | none => simp [hx] at h
      | some del =>
          simp only [hx] at h
          obtain ⟨del', hdel, rfl⟩ := Option.map_eq_some_iff.mp h
          by_cases hd : d = x
          · subst hd
            exact .inr (.inr (.inl ⟨a, del, del', rfl, hx, Delivery.reaction hdel,
              setDelivery_self s d del'⟩))
          · exact .inl (setDelivery_ne s del' hd)
  | emergencyStop t =>
      simp only [step, Option.some.injEq] at h
      subst h
      rcases s.emergencyStop_cases t with ⟨hnoop, -⟩ | happlied
      · rw [hnoop]
        exact .inl rfl
      · cases hx : s.deliveries d with
        | none => exact .inl (by rw [happlied.deliveries, hx, Option.map_none])
        | some del =>
            rcases happlied.delivery hx with ⟨-, -, habort⟩ | ⟨-, hsame⟩
            · exact .inr (.inr (.inr ⟨emergencyStopError, del, .inl ⟨t, rfl, rfl⟩, rfl, habort⟩))
            · exact .inl hsame
  | stop =>
      simp only [step, Option.some.injEq] at h
      subst h
      unfold stop
      cases hx : s.deliveries d with
      | none => exact .inl (by simp [hx])
      | some del =>
          by_cases hd : d ∈ s.inFlight
          · refine .inr (.inr (.inr ⟨stoppedError, del, .inr ⟨rfl, rfl⟩, rfl, ?_⟩))
            simp [hx, hd]
          · exact .inl (by simp [hx, hd])

/-- A reaction of a delivery, as a step of the agent. -/
theorem act_step {s s' : Actor} {d : ℕ} {a : Act} {del : Delivery}
    (h : s.step cfg (.act d a) = some s') (hd : s.deliveries d = some del) :
    ∃ del', Reaction cfg s.signals del a del' ∧ s'.deliveries d = some del' := by
  simp only [step, hd] at h
  obtain ⟨del', hdel, rfl⟩ := Option.map_eq_some_iff.mp h
  exact ⟨del', Delivery.reaction hdel, setDelivery_self s d del'⟩

/-- A step of the agent keeps the payload of each delivery. -/
theorem payload_step {s s' : Actor} {e : ActorEvent} (h : s.step cfg e = some s') {d : ℕ}
    {del : Delivery} (hd : s.deliveries d = some del) :
    ∃ del', s'.deliveries d = some del' ∧ del'.payload = del.payload := by
  rcases step_change h d with hsame | ⟨p, b, -, hnone, -⟩ | ⟨a, old, del', -, hold, hr, hd'⟩ |
    ⟨err, old, -, hold, hd'⟩
  · exact ⟨del, hsame.trans hd, rfl⟩
  · rw [hd] at hnone
    exact absurd hnone (by simp)
  · obtain rfl : del = old := Option.some.inj (hd.symm.trans hold)
    exact ⟨del', hd', hr.payload⟩
  · obtain rfl : del = old := Option.some.inj (hd.symm.trans hold)
    exact ⟨_, hd', del.abort_payload err⟩

/-- A fact about every delivery of an agent. -/
def Each (P : Delivery → Prop) (s : Actor) : Prop := ∀ d del, s.deliveries d = some del → P del

theorem each_init (P : Delivery → Prop) : Each P init := fun _ _ h => absurd h (by simp [init])

/-- **A fact about a delivery that its arrival gives, and that its reactions and the
aborts keep, holds of every delivery throughout every run.** -/
theorem each_run {C : Actor → ActorEvent → Prop} {P : Delivery → Prop}
    (hnew : ∀ sig p b, P (processTask cfg sig p b))
    (hreact : ∀ s d a del del', C s (.act d a) → s.deliveries d = some del → P del →
      Reaction cfg s.signals del a del' → P del')
    (habort : ∀ del err, P del → err = emergencyStopError ∨ err = stoppedError →
      P (del.abort err))
    {es : List ActorEvent} {s t : Actor} (hs : Each P s) (hc : Steps.Along (step cfg) C s es)
    (hrun : Steps.run (step cfg) s es = some t) : Each P t := by
  refine Steps.run_invariant (P := Each P) ?_ hs hc hrun
  intro s e s' hall hcond hstep d del' hdel'
  rcases step_change hstep d with hsame | ⟨p, b, -, -, hnew'⟩ | ⟨a, del, del'', rfl, hdel, hr, hd⟩ |
    ⟨err, del, herr, hdel, hd⟩
  · exact hall d del' (hsame ▸ hdel')
  · rw [hnew', Option.some.injEq] at hdel'
    exact hdel' ▸ hnew s.signals p b
  · rw [hd, Option.some.injEq] at hdel'
    exact hdel' ▸ hreact s d a del del'' hcond hdel (hall d del hdel) hr
  · rw [hd, Option.some.injEq] at hdel'
    refine hdel' ▸ habort del err (hall d del hdel) ?_
    rcases herr with ⟨t, -, rfl⟩ | ⟨-, rfl⟩
    · exact .inl rfl
    · exact .inr rfl

end Actor

end Kaiban
