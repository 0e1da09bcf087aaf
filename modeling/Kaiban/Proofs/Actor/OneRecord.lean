/-
Exactly one outcome record for each delivery.

What a delivery has done is summed up in its tally: how often it called its handler, the
channels it published on, and what it told the circuit breaker.  `Fits` says which tally
belongs to which stage; every reaction keeps it, as long as guards answer, publishes
succeed, results can be built and thrown values have a text.  The guarantee is read off
the tallies of the stages a delivery can be in.
-/
import Kaiban.Proofs.Actor.PaidOnce

open JsString

namespace Kaiban

variable {cfg : ActorConfig} {sig : Signals}

/-! ### Tallies -/

structure Tally where
  invocations : ℕ
  channels : List Channel
  successes : ℕ
  failures : ℕ
  deriving DecidableEq

namespace Tally

def add (a b : Tally) : Tally :=
  ⟨a.invocations + b.invocations, a.channels ++ b.channels, a.successes + b.successes,
    a.failures + b.failures⟩

def zero : Tally := ⟨0, [], 0, 0⟩

def ofCall : Call → Tally
  | .handler _ => ⟨1, [], 0, 0⟩
  | .publish r => ⟨0, [r.channel], 0, 0⟩
  | .recordSuccess => ⟨0, [], 1, 0⟩
  | .recordFailure => ⟨0, [], 0, 1⟩
  | .attemptEnded _ _ => zero
  | .onEmergencyStop => zero

end Tally

/-- The tally of some calls. -/
def tally (cs : List Call) : Tally := cs.foldr (fun c t => (Tally.ofCall c).add t) Tally.zero

@[simp] theorem tally_nil : tally [] = Tally.zero := rfl

@[simp] theorem tally_cons (c : Call) (cs : List Call) :
    tally (c :: cs) = (Tally.ofCall c).add (tally cs) := rfl

@[simp] theorem Tally.add_zero (a : Tally) : a.add zero = a := by
  simp [Tally.add, zero]

@[simp] theorem Tally.zero_add (a : Tally) : zero.add a = a := by
  simp [Tally.add, zero]

theorem Tally.add_assoc (a b c : Tally) : (a.add b).add c = a.add (b.add c) := by
  simp [Tally.add, Nat.add_assoc]

theorem tally_append (cs ds : List Call) : tally (cs ++ ds) = (tally cs).add (tally ds) := by
  induction cs with
  | nil => simp
  | cons c rest ih => rw [List.cons_append, tally_cons, tally_cons, ih, Tally.add_assoc]

/-! ### The tally of a stage -/

/-- What one call to the breaker counts for. -/
def breakerCalls (cfg : ActorConfig) : ℕ := if cfg.hasBreaker then 1 else 0

/-- The tally of a delivery that ends this way, `k` being the attempts it made. -/
def Ending.Fits (cfg : ActorConfig) (k : ℕ) (t : Tally) : Ending → Prop
  | .ignored => False
  | .failed => False
  | .completed => t = ⟨k, [.completed], breakerCalls cfg, 0⟩
  | .exhausted => k = retryAttempts ∧ t = ⟨k, [.deadLetter], 0, breakerCalls cfg⟩
  | .rejected e =>
      t = ⟨k, [.deadLetter], 0, if e.reasonCode = js "task_timeout" then breakerCalls cfg else 0⟩
  | _ => k = 0 ∧ t = ⟨0, [.deadLetter], 0, 0⟩

/-- The tally of a delivery in this stage. -/
def Stage.Fits (cfg : ActorConfig) (t : Tally) : Stage → Prop
  | .firewall => t = Tally.zero
  | .gate => t = Tally.zero
  | .starting k => 1 ≤ k ∧ k ≤ retryAttempts ∧ t = ⟨k - 1, [], 0, 0⟩
  | .running k _ => 1 ≤ k ∧ k ≤ retryAttempts ∧ t = ⟨k, [], 0, 0⟩
  | .publishing k =>
      1 ≤ k ∧ k ≤ retryAttempts ∧ t = ⟨k, [.completed], breakerCalls cfg, 0⟩
  | .backoff k => 1 ≤ k ∧ k < retryAttempts ∧ t = ⟨k, [], 0, 0⟩
  | .recording ending => ∃ k ≤ retryAttempts, ending.Fits cfg k t
  | .ended ending =>
      (ending = .ignored ∧ t = Tally.zero) ∨ ∃ k ≤ retryAttempts, ending.Fits cfg k t

def Delivery.Fits (cfg : ActorConfig) (del : Delivery) : Prop :=
  del.stage.Fits cfg (tally del.calls)

/-! ### Tallies of the helpers -/

theorem tally_breaker_success (del : Delivery) :
    tally (del.breaker cfg .recordSuccess).calls
      = (tally del.calls).add ⟨0, [], breakerCalls cfg, 0⟩ := by
  rw [Delivery.breaker_calls, tally_append]
  unfold breakerCalls
  split
  · simp [Tally.ofCall]
  · rfl

theorem tally_breaker_failure (del : Delivery) :
    tally (del.breaker cfg .recordFailure).calls
      = (tally del.calls).add ⟨0, [], 0, breakerCalls cfg⟩ := by
  rw [Delivery.breaker_calls, tally_append]
  unfold breakerCalls
  split
  · simp [Tally.ofCall]
  · rfl

theorem tally_publishToDlq (del : Delivery) (error : JsString) (reason : Option JsString)
    (ending : Ending) : tally (del.publishToDlq cfg error reason ending).calls
      = (tally del.calls).add ⟨0, [.deadLetter], 0, 0⟩ := by
  rw [Delivery.publishToDlq_calls, tally_append]
  simp [Tally.ofCall, Delivery.deadLetter]

theorem fits_failNonRetryable {del : Delivery} {k : ℕ} (hk : k ≤ retryAttempts)
    (h : tally del.calls = ⟨k, [], 0, 0⟩) (e : NonRetryableError) :
    (del.failNonRetryable cfg e).Fits cfg := by
  refine ⟨k, hk, ?_⟩
  unfold Delivery.failNonRetryable
  split
  · rename_i hcode
    rw [tally_publishToDlq, tally_breaker_failure, h]
    simp [Ending.Fits, Tally.add, hcode]
  · rename_i hcode
    rw [tally_publishToDlq, h]
    simp [Ending.Fits, Tally.add, hcode]

/-- A `catch` keeps the tallies, if the error is final or has a text. -/
theorem fits_caught {del : Delivery} {k : ℕ} (h1 : 1 ≤ k) (hk : k ≤ retryAttempts)
    (h : tally del.calls = ⟨k, [], 0, 0⟩) {err : Thrown}
    (htext : finalError cfg sig del.payload k err = none → err.text ≠ none) :
    (del.caught cfg sig k err).Fits cfg := by
  rcases del.caught_cases k err with ⟨e, -, hc⟩ | ⟨hnone, ht, -⟩ | ⟨t, -, -, hlt, hc⟩ |
    ⟨t, -, -, hlast, hc⟩
  · rw [hc]
    exact fits_failNonRetryable hk h e
  · exact absurd ht (htext hnone)
  · rw [hc]
    exact ⟨h1, hlt, h⟩
  · rw [hc]
    refine ⟨k, hk, le_antisymm hk hlast, ?_⟩
    rw [tally_publishToDlq, tally_breaker_failure, h]
    simp [Tally.add]

/-! ### What is assumed of the outside -/

/-- `JSON.stringify` does not throw on the result. -/
def Value.Serialisable (v : Value) : Prop := v.nullish = true ∨ ∃ j, v.json = .ok j

/-- `String` does not throw on the result, if it is over the cap. -/
def Value.Convertible (v : Value) : Prop :=
  v.nullish = true ∨ ∀ j, v.json = .ok (some j) →
    jsonBytes (.obj (completedData j)) ≤ maxPublishDataLen ∨ ∃ t, v.text = .ok t

/-- Guards return verdicts, publishes succeed and results are serialisable. -/
def Assumed (s : Actor) : ActorEvent → Prop
  | .act _ (.firewall (.error _)) => False
  | .act _ (.gate (.error _)) => False
  | .act _ (.published (.error _)) => False
  | .act d .resume => ∀ del k v, s.deliveries d = some del →
      del.stage = .running k (some (.returned v)) → v.Serialisable
  | _ => True

/-- Where an attempt has ended: a thrown value that is not final has a text, and so has a
result over the cap. -/
def Converts (cfg : ActorConfig) (s : Actor) : ActorEvent → Prop
  | .act d .resume =>
      (∀ del k e, s.deliveries d = some del → del.stage = .running k (some (.threw e)) →
        finalError cfg s.signals del.payload k e = none → e.text ≠ none) ∧
      (∀ del k v, s.deliveries d = some del → del.stage = .running k (some (.returned v)) →
        v.Convertible)
  | _ => True

theorem completionData_ok (cfg : ActorConfig) {v : Value} (hs : v.Serialisable)
    (hc : v.Convertible) :
    ∃ data, Delivery.completionData cfg v = .ok data := by
  unfold Delivery.completionData
  by_cases hnull : v.nullish = true
  · rw [if_pos hnull]
    unfold capDataSize
    split
    · exact ⟨_, rfl⟩
    · exact ⟨_, rfl⟩
  · rw [if_neg hnull]
    rcases hs with h | ⟨j, hj⟩
    · exact absurd h hnull
    · rw [hj]
      cases j with
      | none => exact ⟨_, rfl⟩
      | some j =>
          rcases hc with h | h
          · exact absurd h hnull
          · show ∃ data, capDataSize (completedData j) v.text = .ok data
            unfold capDataSize
            rcases h j hj with hsmall | ⟨t, ht⟩
            · exact ⟨_, if_pos hsmall⟩
            · rw [ht]
              split
              · exact ⟨_, rfl⟩
              · exact ⟨_, rfl⟩

/-! ### Every reaction keeps the tallies -/

theorem fits_raced {del : Delivery} {k : ℕ} {out : Outcome} (h : del.Fits cfg)
    (hs : del.stage = .running k (some out))
    (hthrew : ∀ e, out = .threw e → finalError cfg sig del.payload k e = none → e.text ≠ none)
    (hreturned : ∀ v, out = .returned v → v.Serialisable ∧ v.Convertible) :
    (del.attemptEnded cfg sig k out).Fits cfg := by
  unfold Delivery.Fits at h
  rw [hs] at h
  obtain ⟨h1, hk, ht⟩ := h
  have hended : tally (del.call [.attemptEnded k out]).calls = ⟨k, [], 0, 0⟩ := by
    rw [Delivery.call_calls, tally_append, ht]
    simp [Tally.ofCall]
  rcases del.attemptEnded_cases k out with ⟨e, rfl, hc⟩ | ⟨v, e, rfl, hdata, -⟩ |
    ⟨v, data, rfl, -, hc⟩
  · rw [hc]
    exact fits_caught h1 hk hended (hthrew e rfl)
  · obtain ⟨hser, hconv⟩ := hreturned v rfl
    obtain ⟨data, hok⟩ := completionData_ok cfg hser hconv
    rw [hok] at hdata
    exact absurd hdata (by simp)
  · rw [hc]
    refine ⟨h1, hk, ?_⟩
    rw [Delivery.goto_calls, Delivery.call_calls, tally_append, tally_breaker_success, hended]
    simp [Tally.ofCall, Tally.add, Tally.zero]

theorem fits_recorded {del : Delivery} {ending : Ending} {k : ℕ} (hk : k ≤ retryAttempts)
    (h : ending.Fits cfg k (tally del.calls)) : (del.recorded cfg ending).Fits cfg := by
  refine .inr ⟨k, hk, ?_⟩
  rcases del.recorded_cases ending with hc | hc <;> rw [hc]
  · rw [Delivery.goto_calls, Delivery.call_calls, tally_append]
    simpa [Tally.ofCall] using h
  · exact h

/-- **One reaction keeps the tallies.** -/
theorem fits_reaction {s : Actor} {d : ℕ} {del del' : Delivery} {a : Act} (h : del.Fits cfg)
    (hd : s.deliveries d = some del) (hr : Reaction cfg s.signals del a del')
    (hassumed : Assumed s (.act d a)) (hconv : Converts cfg s (.act d a)) : del'.Fits cfg := by
  have hfits := h
  unfold Delivery.Fits at h
  cases hr with
  | passedFirewall v hv hs =>
      rw [hs] at h
      have ht : tally del.calls = Tally.zero := h
      unfold Delivery.afterFirewall Delivery.Fits
      split
      · exact ht
      · exact ⟨le_rfl, by decide, ht⟩
  | blockedByFirewall v hv hs =>
      rw [hs] at h
      have ht : tally del.calls = Tally.zero := h
      refine ⟨0, by decide, rfl, ?_⟩
      rw [tally_publishToDlq, ht, Tally.zero_add]
  | firewallThrew => exact hassumed.elim
  | passedGate v hv hs =>
      rw [hs] at h
      exact ⟨le_rfl, by decide, h⟩
  | blockedByGate v hv hs =>
      rw [hs] at h
      have ht : tally del.calls = Tally.zero := h
      refine ⟨0, by decide, rfl, ?_⟩
      rw [tally_publishToDlq, ht, Tally.zero_add]
  | gateThrew => exact hassumed.elim
  | started k hs =>
      rw [hs] at h
      obtain ⟨h1, hk, ht⟩ := h
      rcases del.startAttempt_cases k with ⟨e, -, hc⟩ | ⟨-, hc⟩ <;> rw [hc]
      · exact fits_failNonRetryable (by omega) ht e
      · refine ⟨h1, hk, ?_⟩
        rw [Delivery.goto_calls, Delivery.call_calls, tally_append, ht]
        simp [Tally.ofCall, Tally.add, Tally.zero]
        omega
  | settled k out hs =>
      rw [hs] at h
      exact h
  | late => exact hfits
  | timedOut k hs =>
      rw [hs] at h
      exact h
  | raced k out hs =>
      refine fits_raced hfits hs ?_ ?_
      · rintro e rfl
        exact hconv.1 del k e hd hs
      · rintro v rfl
        exact ⟨hassumed del k v hd hs, hconv.2 del k v hd hs⟩
  | completed k hs =>
      rw [hs] at h
      exact .inr ⟨k, h.2.1, h.2.2⟩
  | notCompleted => exact hassumed.elim
  | recorded ending hs =>
      rw [hs] at h
      obtain ⟨k, hk, hend⟩ := h
      exact fits_recorded hk hend
  | notRecorded => exact hassumed.elim
  | delayed k hs =>
      rw [hs] at h
      obtain ⟨h1, hk, ht⟩ := h
      exact ⟨by omega, hk, ht⟩

theorem fits_abort {del : Delivery} (h : del.Fits cfg) (e : NonRetryableError) :
    (del.abort e).Fits cfg := by
  rcases del.abort_cases e with ⟨k, hs, hc⟩ | ⟨-, hc⟩ <;> rw [hc]
  · unfold Delivery.Fits at h
    rw [hs] at h
    exact h
  · exact h

theorem fits_processTask (sig : Signals) (p : Payload) (b : Bool) :
    (processTask cfg sig p b).Fits cfg := by
  unfold processTask
  extract_lets del
  have hblocked : ∀ error reason ending,
      (ending : Ending).Fits cfg 0 ⟨0, [.deadLetter], 0, 0⟩ →
      (del.publishToDlq cfg error reason ending).Fits cfg := by
    intro error reason ending hend
    refine ⟨0, by decide, ?_⟩
    rw [tally_publishToDlq]
    exact hend
  split_ifs
  · exact .inl ⟨rfl, rfl⟩
  · exact hblocked _ _ _ ⟨rfl, rfl⟩
  · exact hblocked _ _ _ ⟨rfl, rfl⟩
  · exact hblocked _ _ _ ⟨rfl, rfl⟩
  · rfl
  · unfold Delivery.afterFirewall Delivery.Fits
    split
    · rfl
    · exact ⟨le_rfl, by decide, rfl⟩

/-! ### Whose task it is -/

/-- The task is for this agent. -/
def Addressed (cfg : ActorConfig) (p : Payload) : Prop := p.agentId = cfg.id ∨ p.agentId = js "*"

/-- A delivery is ignored exactly when its task is for another agent. -/
def IgnoresForeign (cfg : ActorConfig) (del : Delivery) : Prop :=
  del.stage = .ended .ignored ↔ ¬ Addressed cfg del.payload

theorem caught_not_ignored (del : Delivery) (k : ℕ) (err : Thrown) :
    (del.caught cfg sig k err).stage ≠ .ended .ignored := by
  rcases del.caught_cases k err with ⟨e, -, hc⟩ | ⟨-, -, hc⟩ | ⟨t, -, -, -, hc⟩ |
    ⟨t, -, -, -, hc⟩ <;> rw [hc] <;> simp

theorem ignored_reaction {del del' : Delivery} {a : Act} (h : del.Fits cfg)
    (hr : Reaction cfg sig del a del') :
    del'.stage = .ended .ignored ↔ del.stage = .ended .ignored := by
  cases hr with
  | late => exact Iff.rfl
  | passedFirewall v hv hs =>
      unfold Delivery.afterFirewall
      split <;> simp [hs]
  | started k hs =>
      rcases del.startAttempt_cases k with ⟨e, -, hc⟩ | ⟨-, hc⟩ <;> rw [hc] <;> simp [hs]
  | raced k out hs =>
      rcases del.attemptEnded_cases k out with ⟨e, -, hc⟩ | ⟨v, e, -, -, hc⟩ |
        ⟨v, data, -, -, hc⟩ <;> rw [hc]
      · simp [hs, caught_not_ignored]
      · simp [hs, caught_not_ignored]
      · simp [hs]
  | notCompleted k e hs => simp [hs, caught_not_ignored]
  | recorded ending hs =>
      unfold Delivery.Fits at h
      rw [hs] at h
      obtain ⟨k, -, hend⟩ := h
      constructor
      · intro hstage
        obtain rfl : ending = .ignored := by simpa using hstage
        exact hend.elim
      · simp [hs]
  | _ =>
      rename_i hs
      simp [hs]

theorem ignoresForeign_processTask (sig : Signals) (p : Payload) (b : Bool) :
    IgnoresForeign cfg (processTask cfg sig p b) := by
  unfold IgnoresForeign processTask
  extract_lets del
  by_cases hforeign : p.agentId ≠ cfg.id ∧ p.agentId ≠ js "*"
  · rw [if_pos hforeign]
    simpa [del, Addressed] using hforeign
  · have haddressed : Addressed cfg p := by
      unfold Addressed
      tauto
    rw [if_neg hforeign]
    unfold Delivery.afterFirewall
    split_ifs <;> simpa [del] using haddressed

/-! ### How far a delivery has to go -/

/-- The reactions of its own a delivery can still have, at most. -/
def Stage.distance : Stage → ℕ
  | .firewall => 5 * (retryAttempts - 1) + 8
  | .gate => 5 * (retryAttempts - 1) + 7
  | .starting k => 5 * (retryAttempts - k) + 6
  | .running k none => 5 * (retryAttempts - k) + 5
  | .running k (some _) => 5 * (retryAttempts - k) + 4
  | .publishing k => 5 * (retryAttempts - k) + 3
  | .backoff k => 5 * (retryAttempts - k) + 2
  | .recording _ => 1
  | .ended _ => 0

theorem caught_nearer (del : Delivery) (k : ℕ) (err : Thrown) :
    (del.caught cfg sig k err).stage.distance ≤ 5 * (retryAttempts - k) + 2 := by
  rcases del.caught_cases k err with ⟨e, -, hc⟩ | ⟨-, -, hc⟩ | ⟨t, -, -, -, hc⟩ |
    ⟨t, -, -, -, hc⟩ <;> rw [hc] <;> simp [Stage.distance]

/-- A back-off is followed by an attempt. -/
def Delivery.Retries (del : Delivery) : Prop := ∀ k, del.stage = .backoff k → k < retryAttempts

theorem Delivery.Fits.retries {del : Delivery} (h : del.Fits cfg) : del.Retries := by
  intro k hs
  unfold Delivery.Fits at h
  rw [hs] at h
  exact h.2.1

/-- **A reaction that changes a delivery takes it nearer to its end.** -/
theorem reaction_nearer {del del' : Delivery} {a : Act} (h : del.Retries)
    (hr : Reaction cfg sig del a del') :
    del' = del ∧ (a = .timer ∨ ∃ j out, a = .settles j out) ∨
      del'.stage.distance < del.stage.distance := by
  cases hr with
  | late a ha => exact .inl ⟨rfl, ha⟩
  | passedFirewall v hv hs =>
      refine .inr ?_
      unfold Delivery.afterFirewall
      rw [hs]
      split <;> simp [Stage.distance]
  | started k hs =>
      refine .inr ?_
      rcases del.startAttempt_cases k with ⟨e, -, hc⟩ | ⟨-, hc⟩ <;> rw [hc, hs] <;>
        simp [Stage.distance]
  | raced k out hs =>
      refine .inr ?_
      rcases del.attemptEnded_cases k out with ⟨e, -, hc⟩ | ⟨v, e, -, -, hc⟩ |
        ⟨v, data, -, -, hc⟩ <;> rw [hc, hs]
      · exact lt_of_le_of_lt (caught_nearer _ k e) (by simp [Stage.distance])
      · exact lt_of_le_of_lt (caught_nearer _ k e) (by simp [Stage.distance])
      · simp [Stage.distance]
  | notCompleted k e hs =>
      refine .inr ?_
      rw [hs]
      exact lt_of_le_of_lt (caught_nearer del k e) (by simp [Stage.distance])
  | delayed k hs =>
      refine .inr ?_
      have hlt := h k hs
      rw [hs]
      simp only [Delivery.goto_stage, Stage.distance]
      omega
  | _ =>
      rename_i hs
      exact .inr (by simp [hs, Stage.distance])

/-- A delivery that has not ended can go on. -/
theorem can_go_on (sig : Signals) {del : Delivery} (h : del.Retries) :
    (∃ ending, del.stage = .ended ending) ∨
      ∃ a del', del.step cfg sig a = some del' ∧ del'.stage.distance < del.stage.distance := by
  have hgo : ∀ a del', del.step cfg sig a = some del' →
      ¬ (a = .timer ∨ ∃ j out, a = .settles j out) →
      ∃ a del', del.step cfg sig a = some del' ∧ del'.stage.distance < del.stage.distance := by
    intro a del' hstep hnot
    rcases reaction_nearer h (Delivery.reaction hstep) with ⟨-, hlate⟩ | hnear
    · exact absurd hlate hnot
    · exact ⟨a, del', hstep, hnear⟩
  obtain ⟨p, stage, calls⟩ := del
  cases stage with
  | firewall => exact .inr (hgo (.firewall (.ok ⟨true, none⟩)) _ rfl (by simp))
  | gate => exact .inr (hgo (.gate (.ok ⟨true, none⟩)) _ rfl (by simp))
  | starting k => exact .inr (hgo .start _ rfl (by simp))
  | running k race =>
      cases race with
      | none => exact .inr ⟨.timer, _, rfl, by simp [Delivery.abort, Stage.distance]⟩
      | some out => exact .inr (hgo .resume _ rfl (by simp))
  | publishing k => exact .inr (hgo (.published (.ok ())) _ rfl (by simp))
  | backoff k => exact .inr (hgo .delayed _ rfl (by simp))
  | recording ending => exact .inr (hgo (.published (.ok ())) _ rfl (by simp))
  | ended ending => exact .inl ⟨ending, rfl⟩

/-! ### The guarantee -/

/-- An attempt that ended with a non-retryable error, and not with a timeout that may be
retried. -/
def FinalFailure (cfg : ActorConfig) (c : Call) : Prop :=
  ∃ k e, c = .attemptEnded k (.threw (.nonRetryable e)) ∧
    ¬ (cfg.retryOnTimeout = true ∧ e.isTimeout = true)

/-- The delivery's ending is known, and it is this one. -/
def Stage.EndsWith (ending : Ending) (st : Stage) : Prop :=
  st = .recording ending ∨ st = .ended ending

/-- The final error is a fault of what the agent calls. -/
def Ending.Fault (ending : Ending) : Prop :=
  ending = .exhausted ∨ ∃ e, ending = .rejected e ∧ e.reasonCode = js "task_timeout"

/-- What the tally of a stage says. -/
structure StageTally (cfg : ActorConfig) (st : Stage) (t : Tally) : Prop where
  atMostOne : t.channels.length ≤ 1
  exactlyOne : ∀ ending, st = .ended ending → ending ≠ .ignored → t.channels.length = 1
  foreign : st = .ended .ignored → t.channels = []
  attempts : t.invocations ≤ retryAttempts
  oneBreakerCall : t.successes + t.failures ≤ 1
  success : t.successes = 1 ↔ cfg.hasBreaker = true ∧ t.channels = [.completed]
  failure : t.failures = 1 ↔ cfg.hasBreaker = true ∧ ∃ ending, st.EndsWith ending ∧ ending.Fault
  exhausted : st.EndsWith .exhausted → t.invocations = retryAttempts

theorem breakerCalls_eq_one : breakerCalls cfg = 1 ↔ cfg.hasBreaker = true := by
  unfold breakerCalls
  split <;> simp_all

theorem breakerCalls_le_one (cfg : ActorConfig) : breakerCalls cfg ≤ 1 := by
  unfold breakerCalls
  split <;> simp

/-- The tally of an ending. -/
structure EndTally (cfg : ActorConfig) (ending : Ending) (t : Tally) : Prop where
  oneRecord : t.channels.length = 1
  attempts : t.invocations ≤ retryAttempts
  oneBreakerCall : t.successes + t.failures ≤ 1
  success : t.successes = 1 ↔ cfg.hasBreaker = true ∧ t.channels = [.completed]
  failure : t.failures = 1 ↔ cfg.hasBreaker = true ∧ ending.Fault
  exhausted : ending = .exhausted → t.invocations = retryAttempts

theorem endTally_of_fits {ending : Ending} {k : ℕ} {t : Tally} (hk : k ≤ retryAttempts)
    (h : ending.Fits cfg k t) : EndTally cfg ending t := by
  have hle := breakerCalls_le_one cfg
  cases ending with
  | ignored => exact h.elim
  | failed => exact h.elim
  | completed =>
      obtain rfl : t = ⟨k, [.completed], breakerCalls cfg, 0⟩ := h
      refine ⟨rfl, hk, hle, ?_, ?_, by simp⟩
      · simp [breakerCalls_eq_one]
      · simp [Ending.Fault]
  | exhausted =>
      obtain ⟨rfl, rfl⟩ := h
      refine ⟨rfl, le_rfl, by simpa using hle, by simp, ?_, fun _ => rfl⟩
      simp [Ending.Fault, breakerCalls_eq_one]
  | rejected e =>
      obtain rfl : t = ⟨k, [.deadLetter], 0,
        if e.reasonCode = js "task_timeout" then breakerCalls cfg else 0⟩ := h
      by_cases hcode : e.reasonCode = js "task_timeout"
      · refine ⟨rfl, hk, by simpa [hcode] using hle, by simp, ?_, by simp⟩
        simp [Ending.Fault, hcode, breakerCalls_eq_one]
      · refine ⟨rfl, hk, by simp [hcode], by simp, ?_, by simp⟩
        simp [Ending.Fault, hcode]
  | _ =>
      obtain ⟨-, rfl⟩ := h
      exact ⟨rfl, by simp, by simp, by simp, by simp [Ending.Fault], by simp⟩

theorem stageTally_open {st : Stage} {k : ℕ} (hk : k ≤ retryAttempts)
    (hopen : ∀ ending, ¬ st.EndsWith ending) : StageTally cfg st ⟨k, [], 0, 0⟩ := by
  have hnot : ∀ ending, st ≠ .ended ending := fun ending h => hopen ending (.inr h)
  exact ⟨by simp, fun ending h => absurd h (hnot ending), fun h => absurd h (hnot _), hk, by simp,
    by simp, by simp [hopen], fun h => absurd h (hopen _)⟩

theorem stageTally_ending {st : Stage} {ending : Ending} {t : Tally}
    (hst : st = .recording ending ∨ st = .ended ending) (hne : ending ≠ .ignored)
    (h : EndTally cfg ending t) : StageTally cfg st t := by
  have hends : ∀ other, st.EndsWith other ↔ other = ending := by
    intro other
    unfold Stage.EndsWith
    rcases hst with rfl | rfl <;> simp [eq_comm]
  refine ⟨h.oneRecord.le, fun _ _ _ => h.oneRecord, fun hign => ?_, h.attempts, h.oneBreakerCall,
    h.success, ?_, fun hex => h.exhausted ((hends _).mp hex).symm⟩
  · exact absurd ((hends .ignored).mp (.inr hign)).symm hne
  · simp only [hends, exists_eq_left]
    exact h.failure

theorem stageTally_of_fits {st : Stage} {t : Tally} (h : st.Fits cfg t) :
    StageTally cfg st t := by
  cases st with
  | firewall =>
      obtain rfl : t = ⟨0, [], 0, 0⟩ := h
      exact stageTally_open (by simp) (by simp [Stage.EndsWith])
  | gate =>
      obtain rfl : t = ⟨0, [], 0, 0⟩ := h
      exact stageTally_open (by simp) (by simp [Stage.EndsWith])
  | starting k =>
      obtain ⟨-, hk, rfl⟩ := h
      exact stageTally_open (by omega) (by simp [Stage.EndsWith])
  | running k race =>
      obtain ⟨-, hk, rfl⟩ := h
      exact stageTally_open hk (by simp [Stage.EndsWith])
  | publishing k =>
      obtain ⟨-, hk, rfl⟩ := h
      exact ⟨le_rfl, by simp, by simp, hk, breakerCalls_le_one cfg, by simp [breakerCalls_eq_one],
        by simp [Stage.EndsWith], by simp [Stage.EndsWith]⟩
  | backoff k =>
      obtain ⟨-, hk, rfl⟩ := h
      exact stageTally_open hk.le (by simp [Stage.EndsWith])
  | recording ending =>
      obtain ⟨k, hk, hend⟩ := h
      refine stageTally_ending (.inl rfl) ?_ (endTally_of_fits hk hend)
      rintro rfl
      exact hend
  | ended ending =>
      rcases h with ⟨rfl, rfl⟩ | ⟨k, hk, hend⟩
      · exact ⟨by simp [Tally.zero], fun e he hne => absurd (by simpa using he.symm) hne,
          fun _ => rfl, by simp [Tally.zero], by simp [Tally.zero], by simp [Tally.zero],
          by simp [Tally.zero, Stage.EndsWith, Ending.Fault], by simp [Stage.EndsWith]⟩
      · refine stageTally_ending (.inr rfl) ?_ (endTally_of_fits hk hend)
        rintro rfl
        exact hend

/-- What one delivery comes to. -/
structure OneOutcome (cfg : ActorConfig) (sig : Signals) (del : Delivery) : Prop where
  /-- One record in total, once the delivery has ended, and never more. -/
  atMostOne : (tally del.calls).channels.length ≤ 1
  exactlyOne : Addressed cfg del.payload → (∃ ending, del.stage = .ended ending) →
    (tally del.calls).channels.length = 1
  foreign : ¬ Addressed cfg del.payload → (tally del.calls).channels = []
  attempts : (tally del.calls).invocations ≤ retryAttempts
  noneAfterFinal : QuietAfter (FinalFailure cfg) del.calls
  oneBreakerCall : (tally del.calls).successes + (tally del.calls).failures ≤ 1
  success : (tally del.calls).successes = 1 ↔
    cfg.hasBreaker = true ∧ (tally del.calls).channels = [.completed]
  failure : (tally del.calls).failures = 1 ↔
    cfg.hasBreaker = true ∧ ∃ ending, del.stage.EndsWith ending ∧ ending.Fault
  exhausted : del.stage.EndsWith .exhausted → (tally del.calls).invocations = retryAttempts
  /-- It ends: it can go on until then, and each reaction of its own takes it nearer. -/
  goesOn : (∃ ending, del.stage = .ended ending) ∨
    ∃ a del', del.step cfg sig a = some del' ∧ del'.stage.distance < del.stage.distance
  nearer : ∀ a del', del.step cfg sig a = some del' →
    del' = del ∨ del'.stage.distance < del.stage.distance

theorem oneOutcome_of_fits (sig : Signals) {del : Delivery} (h : del.Fits cfg)
    (hforeign : IgnoresForeign cfg del) (hfinal : QuietAfter (FinalFailure cfg) del.calls) :
    OneOutcome cfg sig del := by
  have ht := stageTally_of_fits h
  refine ⟨ht.atMostOne, ?_, fun hno => ht.foreign (hforeign.mpr hno), ht.attempts, hfinal,
    ht.oneBreakerCall, ht.success, ht.failure, ht.exhausted, can_go_on sig h.retries, ?_⟩
  · rintro haddressed ⟨ending, hend⟩
    refine ht.exactlyOne ending hend ?_
    rintro rfl
    exact hforeign.mp hend haddressed
  · intro a del' hstep
    rcases reaction_nearer h.retries (Delivery.reaction hstep) with ⟨hsame, -⟩ | hlt
    · exact .inl hsame
    · exact .inr hlt

theorem raced_final {del : Delivery} {k : ℕ} {out : Outcome}
    (h : FinalFailure cfg (.attemptEnded k out)) :
    (del.attemptEnded cfg sig k out).stage.Closed := by
  obtain ⟨j, e, hout, hno⟩ := h
  obtain ⟨-, rfl⟩ : k = j ∧ out = .threw (.nonRetryable e) := by simpa using hout
  refine caught_closed.mpr (.inl ?_)
  have hcond : ¬ (cfg.retryOnTimeout = true ∧ interruption sig del.payload = none ∧
      k < retryAttempts ∧ e.isTimeout = true) := fun hc => hno ⟨hc.1, hc.2.2.2⟩
  show finalError cfg sig del.payload k (.nonRetryable e) ≠ none
  simp only [finalError, nonRetryable, if_neg hcond]
  exact Option.some_ne_none e

/-- **One outcome record for each delivery**, in every run that meets the assumptions and
in which what has to be turned into text can be. -/
theorem one_outcome {es : List ActorEvent} {s : Actor}
    (hc : Steps.Along (Actor.step cfg) (fun s e => Assumed s e ∧ Converts cfg s e) Actor.init es)
    (hrun : Steps.run (Actor.step cfg) Actor.init es = some s) {d : ℕ} {del : Delivery}
    (hd : s.deliveries d = some del) : OneOutcome cfg s.signals del := by
  have hp : ∀ c, FinalFailure cfg c → ∃ k out, c = .attemptEnded k out :=
    fun c ⟨k, e, hc, _⟩ => ⟨k, _, hc⟩
  have hall : Actor.Each (fun del => del.Fits cfg ∧ IgnoresForeign cfg del ∧
      ClosedBy (FinalFailure cfg) del) s := by
    refine Actor.each_run (fun sig p b => ⟨fits_processTask sig p b,
      ignoresForeign_processTask sig p b, closedBy_processTask hp sig p b⟩) ?_ ?_
      (Actor.each_init _) hc hrun
    · intro s d a del del' hcond hdel h hr
      refine ⟨fits_reaction h.1 hdel hr hcond.1 hcond.2, ?_, h.2.2.reaction hp hr ?_ ?_⟩
      · unfold IgnoresForeign
        rw [hr.payload, ignored_reaction h.1 hr]
        exact h.2.1
      · rintro k out hs rfl hfinal
        cases hr with
        | late a ha => simp at ha
        | raced j out' hj =>
            obtain ⟨rfl, rfl⟩ : k = j ∧ out = out' := by simpa [hs] using hj
            exact raced_final hfinal
      · rintro k e hs rfl
        exact hcond.1.elim
    · intro del err h _
      refine ⟨fits_abort h.1 err, ?_, h.2.2.abort err⟩
      have hsame : del.stage = .ended .ignored ↔ ¬ Addressed cfg del.payload := h.2.1
      unfold IgnoresForeign
      rw [Delivery.abort_payload, ← hsame]
      rcases del.abort_cases err with ⟨k, hs, hc⟩ | ⟨-, hc⟩ <;> rw [hc]
      simp [hs]
  obtain ⟨hfits, hforeign, hclosed⟩ := hall d del hd
  exact oneOutcome_of_fits s.signals hfits hforeign hclosed.quiet

/-- The handler answers and the completion is published. -/
def answeredRun : List ActorEvent :=
  [.deliver 0 Actor.plainTask false, .act 0 .start, .act 0 (.settles 1 (.returned answer)),
    .act 0 .resume, .act 0 (.published (.ok ()))]

theorem answeredRun_regular :
    Steps.Along (Actor.step Actor.plainConfig)
      (fun s e => Assumed s e ∧ Converts Actor.plainConfig s e) Actor.init answeredRun := by
  refine ⟨⟨trivial, trivial⟩, fun s1 h1 => ⟨⟨trivial, trivial⟩, fun s2 h2 => ⟨⟨trivial, trivial⟩,
    fun s3 h3 => ⟨?_, fun s4 h4 => ⟨⟨trivial, trivial⟩, fun _ _ => trivial⟩⟩⟩⟩⟩
  obtain rfl := Option.some.inj h1
  obtain rfl := Option.some.inj h2
  obtain rfl := Option.some.inj h3
  have honly : ∀ {del k out}, some (⟨Actor.plainTask, .running 1 (some (.returned answer)),
      [.handler 1]⟩ : Delivery) = some del → del.stage = .running k (some out) →
      out = .returned answer := by
    rintro del k out hd hs
    obtain rfl := Option.some.inj hd
    exact (by simpa using hs.symm : k = 1 ∧ out = .returned answer).2
  refine ⟨fun del k v hd hs => ?_, fun del k e hd hs => ?_, fun del k v hd hs => ?_⟩
  · obtain rfl : v = answer := by simpa using honly hd hs
    exact .inr ⟨_, rfl⟩
  · exact absurd (honly hd hs) (by simp)
  · obtain rfl : v = answer := by simpa using honly hd hs
    exact .inr fun j _ => .inr ⟨_, rfl⟩

theorem one_outcome_answered :
    ∃ s del, Steps.run (Actor.step Actor.plainConfig) Actor.init answeredRun = some s ∧
      s.deliveries 0 = some del ∧ OneOutcome Actor.plainConfig s.signals del := by
  obtain ⟨s, del, hrun, hd⟩ : ∃ s del,
      Steps.run (Actor.step Actor.plainConfig) Actor.init answeredRun = some s ∧
        s.deliveries 0 = some del := ⟨_, _, rfl, rfl⟩
  exact ⟨s, del, hrun, hd, one_outcome answeredRun_regular hrun hd⟩

/-- The handler throws a value that has no text. -/
def textlessThrow : List ActorEvent :=
  [.deliver 0 Actor.plainTask false, .act 0 .start, .act 0 (.settles 1 (.threw (.other none))),
    .act 0 .resume]

/-- Such a delivery ends with no record. -/
theorem textless_throw_unrecorded :
    Steps.Along (Actor.step Actor.plainConfig) Assumed Actor.init textlessThrow ∧
    ∃ s del, Steps.run (Actor.step Actor.plainConfig) Actor.init textlessThrow = some s ∧
      s.deliveries 0 = some del ∧ Addressed Actor.plainConfig del.payload ∧
      del.stage = .ended .failed ∧ (tally del.calls).channels = [] := by
  refine ⟨⟨trivial, fun s1 h1 => ⟨trivial, fun s2 h2 => ⟨trivial, fun s3 h3 => ⟨?_,
    fun _ _ => trivial⟩⟩⟩⟩, _, _, rfl, rfl, .inl rfl, rfl, rfl⟩
  obtain rfl := Option.some.inj h1
  obtain rfl := Option.some.inj h2
  obtain rfl := Option.some.inj h3
  intro del k v hd hs
  obtain rfl := Option.some.inj hd
  exact absurd hs (by simp)

end Kaiban
