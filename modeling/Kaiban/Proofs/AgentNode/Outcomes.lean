/-
The record a delivery ends with.

While a record is being published it is the last one of its delivery, and its channel and
its error are those of the way the delivery ends.  A delivery on its way to a stop stays
on it.
-/
import Kaiban.Proofs.Actor.EmergencyStop
import Kaiban.Proofs.AgentNode.Moves

open JsString

namespace Kaiban

variable {cfg : ActorConfig} {sig : Signals} {del del' : Delivery}

/-- The status of a task card that goes with a record. -/
def Record.status (r : Record) : TaskStatus :=
  match r.channel with
  | .completed => .done
  | .deadLetter =>
      match Json.get r.data (js "error") with
      | some (.str error) => if error = js "emergency_stop" then .stopped else .blocked
      | _ => .blocked

/-- The last record of a delivery. -/
def Delivery.lastRecord (del : Delivery) : Option Record := (records del.calls).getLast?

/-! ### On the way to a stop -/

/-- The delivery is being stopped, or it is over, by a stop or with no record. -/
def Stage.Stopping : Stage → Prop
  | .running _ (some (.threw (.nonRetryable e))) => e.isEmergencyStop = true
  | .recording ending => ending.isStop = true
  | .ended ending => ending.isStop = true ∨ ending = .failed
  | _ => False

/-- An attempt of the delivery has returned and nothing failed since. -/
def Stage.Won : Stage → Prop
  | .running _ (some (.returned _)) => True
  | .publishing _ => True
  | .ended ending => ending = .completed
  | _ => False

theorem Stage.Won.not_stopping {st : Stage} (h : st.Won) : ¬ st.Stopping := by
  intro hs
  cases st with
  | running k race =>
      cases race with
      | none => exact h
      | some out =>
          cases out with
          | returned v => exact hs
          | threw e => exact h
  | publishing k => exact hs
  | ended ending =>
      obtain rfl : ending = .completed := h
      rcases hs with hs | hs
      · exact absurd hs (by simp [Ending.isStop])
      · exact absurd hs (by simp)
  | _ => exact h

/-- A stop is never tried again. -/
theorem finalError_stop (cfg : ActorConfig) (sig : Signals) (p : Payload) (k : ℕ)
    {e : NonRetryableError} (he : e.isEmergencyStop = true) :
    finalError cfg sig p k (.nonRetryable e) = some e := by
  have htimeout : e.isTimeout = false := by
    cases e with
    | emergencyStop m => rfl
    | _ => exact absurd he (by simp [NonRetryableError.isEmergencyStop])
  simp [finalError, nonRetryable, htimeout]

/-- An attempt that ends with a stop ends the delivery with it. -/
theorem Delivery.attemptEnded_stop (del : Delivery) (k : ℕ) {e : NonRetryableError}
    (he : e.isEmergencyStop = true) :
    del.attemptEnded cfg sig k (.threw (.nonRetryable e))
      = (del.call [.attemptEnded k (.threw (.nonRetryable e))]).failNonRetryable cfg e := by
  show (del.call [.attemptEnded k (.threw (.nonRetryable e))]).caught cfg sig k (.nonRetryable e)
    = _
  unfold Delivery.caught
  rw [finalError_stop cfg sig _ k he]

theorem Reaction.stopping {a : Act} (hr : Reaction cfg sig del a del')
    (h : del.stage.Stopping) : del'.stage.Stopping := by
  cases hr with
  | late => exact h
  | raced k out hs =>
      rw [hs] at h
      cases out with
      | returned v => exact absurd h (by simp [Stage.Stopping])
      | threw t =>
          cases t with
          | nonRetryable e =>
              rw [del.attemptEnded_stop k h]
              exact h
          | _ => exact absurd h (by simp [Stage.Stopping])
  | recorded ending hs =>
      rw [hs] at h
      exact .inl h
  | notRecorded ending e hs => exact .inr rfl
  | completed k hs => exact absurd h (by simp [hs, Stage.Stopping])
  | _ =>
      rename_i hs
      exact absurd h (by simp [hs, Stage.Stopping])

theorem Delivery.abort_stopping {e : NonRetryableError} (h : del.stage.Stopping) :
    (del.abort e).stage.Stopping := by
  rcases del.abort_cases e with ⟨k, hs, -⟩ | ⟨-, heq⟩
  · exact absurd h (by simp [hs, Stage.Stopping])
  · rw [heq]
    exact h

theorem Delivery.caught_not_won (del : Delivery) (k : ℕ) (err : Thrown) :
    ¬ (del.caught cfg sig k err).stage.Won := by
  rcases del.caught_cases k err with
    ⟨e, -, h⟩ | ⟨-, -, h⟩ | ⟨t, -, -, -, h⟩ | ⟨t, -, -, -, h⟩ <;> rw [h] <;> simp [Stage.Won]

/-- Only the end of an attempt wins. -/
theorem Reaction.won {a : Act} (hr : Reaction cfg sig del a del')
    (hsettles : ∀ j out, a = .settles j out → del' = del)
    (hrec : ∀ ending, del.stage = .recording ending → ending ≠ .completed) (h : del'.stage.Won) :
    del.stage.Won := by
  cases hr with
  | late => exact h
  | settled k out hs => exact hsettles k out rfl ▸ h
  | raced k out hs =>
      rcases del.attemptEnded_cases k out with
        ⟨e, -, heq⟩ | ⟨v, e, -, -, heq⟩ | ⟨v, data, rfl, -, heq⟩
      · exact absurd h (by rw [heq]; exact Delivery.caught_not_won _ _ _)
      · exact absurd h (by rw [heq]; exact Delivery.caught_not_won _ _ _)
      · rw [hs]
        trivial
  | completed k hs =>
      rw [hs]
      trivial
  | notCompleted k e hs => exact absurd h (Delivery.caught_not_won _ _ _)
  | started k hs =>
      rcases del.startAttempt_cases k with ⟨e, -, heq⟩ | ⟨-, heq⟩ <;> rw [heq] at h <;>
        exact absurd h (by simp [Stage.Won])
  | passedFirewall v hv hs =>
      unfold Delivery.afterFirewall at h
      split at h <;> exact absurd h (by simp [Stage.Won])
  | recorded ending hs => exact absurd h (hrec ending hs)
  | _ => exact absurd h (by simp [Stage.Won])

/-- A delivery ends with its record, with its completion, or with an error. -/
theorem Reaction.ends {a : Act} {ending : Ending} (hr : Reaction cfg sig del a del')
    (h : del'.stage = .ended ending) : del' = del ∨ ending = .completed ∨ ending = .failed ∨
      (a = .published (.ok ()) ∧ del.stage = .recording ending ∧
        del' = del.recorded cfg ending) := by
  have hcaught : ∀ (del : Delivery) (k : ℕ) (err : Thrown),
      (del.caught cfg sig k err).stage = .ended ending → ending = .failed := by
    intro del k err he
    rcases del.caught_cases k err with
      ⟨e, -, heq⟩ | ⟨-, -, heq⟩ | ⟨t, -, -, -, heq⟩ | ⟨t, -, -, -, heq⟩ <;> rw [heq] at he
    · exact absurd he (by simp)
    · exact (Stage.ended.inj he).symm
    · exact absurd he (by simp)
    · exact absurd he (by simp)
  cases hr with
  | late => exact .inl rfl
  | firewallThrew e hs => exact .inr (.inr (.inl (Stage.ended.inj h).symm))
  | gateThrew e hs => exact .inr (.inr (.inl (Stage.ended.inj h).symm))
  | notRecorded e err hs => exact .inr (.inr (.inl (Stage.ended.inj h).symm))
  | completed k hs => exact .inr (.inl (Stage.ended.inj h).symm)
  | notCompleted k e hs => exact .inr (.inr (.inl (hcaught _ _ _ h)))
  | raced k out hs =>
      rcases del.attemptEnded_cases k out with
        ⟨e, -, heq⟩ | ⟨v, e, -, -, heq⟩ | ⟨v, data, -, -, heq⟩ <;> rw [heq] at h
      · exact .inr (.inr (.inl (hcaught _ _ _ h)))
      · exact .inr (.inr (.inl (hcaught _ _ _ h)))
      · exact absurd h (by simp)
  | recorded e hs =>
      obtain rfl := Stage.ended.inj h
      exact .inr (.inr (.inr ⟨rfl, hs, rfl⟩))
  | started k hs =>
      rcases del.startAttempt_cases k with ⟨e, -, heq⟩ | ⟨-, heq⟩ <;> rw [heq] at h <;>
        exact absurd h (by simp)
  | passedFirewall v hv hs =>
      unfold Delivery.afterFirewall at h
      split at h <;> exact absurd h (by simp)
  | _ => exact absurd h (by simp)

theorem Delivery.abort_won {e : NonRetryableError} (h : (del.abort e).stage.Won) :
    del.stage.Won := by
  rcases del.abort_cases e with ⟨k, -, heq⟩ | ⟨-, heq⟩
  · rw [heq] at h
    exact absurd h (by simp [Stage.Won])
  · exact heq ▸ h

/-! ### The record -/

/-- The last record is that of the way the delivery ends. -/
def Delivery.Recorded (del : Delivery) : Prop :=
  match del.stage with
  | .publishing _ => del.lastRecord.map Record.status = some .done
  | .recording ending =>
      ending ≠ .completed ∧ (∃ r, del.lastRecord = some r ∧ r.channel = .deadLetter) ∧
        (ending.isStop = true → del.lastRecord.map Record.status = some .stopped)
  | .ended ending =>
      (ending = .completed → del.lastRecord.map Record.status = some .done) ∧
        (ending.isStop = true → del.lastRecord.map Record.status = some .stopped)
  | _ => True

theorem lastRecord_append (del : Delivery) {calls cs : List Call} {r : Record}
    (h : del.calls = calls ++ cs)
    (hr : (records cs).getLast? = some r) : del.lastRecord = some r := by
  unfold Delivery.lastRecord
  rw [h, records_append, List.getLast?_append, hr]
  rfl

theorem status_deadLetter (cfg : ActorConfig) (p : Payload) (reason : Option JsString) :
    (Delivery.deadLetter cfg p (js "emergency_stop") reason).status = .stopped := by
  have hshort : byteLength (js "emergency_stop") ≤ maxDlqTextBytes := by decide +kernel
  show (match Json.get (deadLetterData p.data (js "emergency_stop") reason) (js "error") with
    | some (.str error) => if error = js "emergency_stop" then TaskStatus.stopped else .blocked
    | _ => .blocked) = .stopped
  rw [get_deadLetterData, truncateToBytes_of_le hshort]
  exact if_pos rfl

theorem recorded_publishToDlq (error : JsString) (reason : Option JsString) {ending : Ending}
    (hne : ending ≠ .completed) (hstop : ending.isStop = true → error = js "emergency_stop") :
    (del.publishToDlq cfg error reason ending).Recorded := by
  have hlast : (del.publishToDlq cfg error reason ending).lastRecord
      = some (Delivery.deadLetter cfg del.payload error reason) :=
    lastRecord_append _ (del.publishToDlq_calls error reason ending) rfl
  refine ⟨hne, ⟨_, hlast, rfl⟩, fun h => ?_⟩
  rw [hlast, hstop h]
  exact congrArg some (status_deadLetter cfg del.payload reason)

theorem recorded_failNonRetryable (del : Delivery) (e : NonRetryableError) :
    (del.failNonRetryable cfg e).Recorded := by
  unfold Delivery.failNonRetryable
  refine recorded_publishToDlq _ _ (by simp) fun h => ?_
  cases e with
  | emergencyStop m => rfl
  | _ => exact absurd h (by simp [Ending.isStop, NonRetryableError.isEmergencyStop])

theorem recorded_caught (del : Delivery) (k : ℕ) (err : Thrown) :
    (del.caught cfg sig k err).Recorded := by
  rcases del.caught_cases k err with
    ⟨e, -, h⟩ | ⟨-, -, h⟩ | ⟨t, -, -, -, h⟩ | ⟨t, -, -, -, h⟩ <;> rw [h]
  · exact recorded_failNonRetryable del e
  · exact ⟨by simp, by simp [Ending.isStop]⟩
  · trivial
  · exact recorded_publishToDlq _ _ (by simp) (by simp [Ending.isStop])

theorem recorded_lastRecord (del : Delivery) (ending : Ending) :
    (del.recorded cfg ending).lastRecord = del.lastRecord := by
  unfold Delivery.lastRecord
  rcases del.recorded_cases ending with h | h <;> rw [h] <;> simp

theorem Reaction.recorded_kept {a : Act} (hr : Reaction cfg sig del a del') (h : del.Recorded) :
    del'.Recorded := by
  have hfailed : (del.goto (.ended .failed)).Recorded := ⟨by simp, by simp [Ending.isStop]⟩
  cases hr with
  | passedFirewall v hv hs =>
      unfold Delivery.afterFirewall
      split <;> trivial
  | blockedByFirewall v hv hs => exact recorded_publishToDlq _ _ (by simp) (by simp [Ending.isStop])
  | firewallThrew e hs => exact hfailed
  | passedGate v hv hs => trivial
  | blockedByGate v hv hs => exact recorded_publishToDlq _ _ (by simp) (by simp [Ending.isStop])
  | gateThrew e hs => exact hfailed
  | started k hs =>
      rcases del.startAttempt_cases k with ⟨e, -, heq⟩ | ⟨-, heq⟩ <;> rw [heq]
      · exact recorded_failNonRetryable del e
      · trivial
  | settled k out hs => trivial
  | late => exact h
  | timedOut k hs => trivial
  | raced k out hs =>
      rcases del.attemptEnded_cases k out with
        ⟨e, -, heq⟩ | ⟨v, e, -, -, heq⟩ | ⟨v, data, -, -, heq⟩ <;> rw [heq]
      · exact recorded_caught _ _ _
      · exact recorded_caught _ _ _
      · have hlast := lastRecord_append ((((del.call [.attemptEnded k out]).breaker cfg
          .recordSuccess).call [.publish ⟨.completed, del.payload.taskId, cfg.id, data⟩]).goto
            (.publishing k)) rfl rfl
        exact congrArg (Option.map Record.status) hlast
  | completed k hs =>
      unfold Delivery.Recorded at h
      rw [hs] at h
      exact ⟨fun _ => h, by simp [Ending.isStop]⟩
  | notCompleted k e hs => exact recorded_caught _ _ _
  | recorded ending hs =>
      unfold Delivery.Recorded at h
      rw [hs] at h
      refine ⟨fun hc => absurd hc h.1, fun hstop => ?_⟩
      rw [recorded_lastRecord]
      exact h.2.2 hstop
  | notRecorded ending e hs => exact hfailed
  | delayed k hs => trivial

theorem Delivery.Recorded.abort (h : del.Recorded) (e : NonRetryableError) :
    (del.abort e).Recorded := by
  rcases del.abort_cases e with ⟨k, -, heq⟩ | ⟨-, heq⟩
  · rw [heq]
    trivial
  · rw [heq]
    exact h

/-- What a delivery is when it arrives. -/
theorem recorded_processTask (sig : Signals) (p : Payload) (b : Bool) :
    (processTask cfg sig p b).Recorded := by
  unfold processTask
  extract_lets del
  split_ifs
  · exact ⟨by simp, by simp [Ending.isStop]⟩
  · exact recorded_publishToDlq _ _ (by simp) fun _ => rfl
  · exact recorded_publishToDlq _ _ (by simp) (by simp [Ending.isStop])
  · exact recorded_publishToDlq _ _ (by simp) (by simp [Ending.isStop])
  · trivial
  · unfold Delivery.afterFirewall
    split <;> trivial

@[simp] theorem processTask_payload (cfg : ActorConfig) (sig : Signals) (p : Payload) (b : Bool) :
    (processTask cfg sig p b).payload = p := by
  unfold processTask
  extract_lets del
  split_ifs <;> rfl

/-- A delivery that has just arrived has won nothing, and is over only when it is ignored. -/
theorem processTask_stage (cfg : ActorConfig) (sig : Signals) (p : Payload) (b : Bool) :
    ¬ (processTask cfg sig p b).stage.Won ∧
      ∀ ending, (processTask cfg sig p b).stage = .ended ending → ending = .ignored := by
  unfold processTask Delivery.afterFirewall
  extract_lets del
  split_ifs <;> simp [Stage.Won, del, eq_comm]

/-- **The last record of every delivery of a node is that of the way it ends.** -/
theorem AgentNode.recorded_step {cfg : AgentNodeConfig} {n n' : AgentNode} {e : NodeEvent}
    (h : Actor.Each Delivery.Recorded n.actor) (hstep : n.step cfg e = some n') :
    Actor.Each Delivery.Recorded n'.actor := by
  obtain ⟨⟨es, hes⟩, -⟩ := AgentNode.parts_step hstep
  refine Actor.each_run (C := fun _ _ => True) recorded_processTask
    (fun s d a del del' _ _ hrec hr => hr.recorded_kept hrec) (fun del err hrec _ => hrec.abort err)
    h (Steps.along_of_forall (fun _ _ => trivial) es _) hes

end Kaiban
