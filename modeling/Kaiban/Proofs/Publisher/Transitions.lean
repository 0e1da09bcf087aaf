/-
What the reactions of a publisher leave alone.

A settlement goes through many branches, and all of them only publish: the attempts keep
their numbers, and no handler is called.  A handler is called by the wrapper alone, once
no cap is met.
-/
import Kaiban.Publisher
import Kaiban.Lib.Steps

open JsString

namespace Kaiban.AgentStatePublisher

variable {cfg : PublisherConfig} {s s' : AgentStatePublisher}

/-! ### Reactions -/

/-- Only the handler of an open attempt settles. -/
theorem step_settles {i : ℕ} {out : HandlerOutcome}
    (hstep : step cfg s (.settles i out) = some s') :
    ∃ att, s.attempts i = some att ∧ att.ended = none ∧
      s' = (s.settled cfg i att out).1.setAttempt i
        { att with ended := some (s.settled cfg i att out).2 } := by
  simp only [step] at hstep
  split at hstep
  · exact absurd hstep (by simp)
  · rename_i att hatt
    split at hstep
    · exact absurd hstep (by simp)
    · rename_i hended
      exact ⟨att, hatt, hended, (Option.some.inj hstep).symm⟩

/-- The handler of an open attempt can settle. -/
theorem settles_step (cfg : PublisherConfig) {i : ℕ} {att : Attempt}
    (hatt : s.attempts i = some att)
    (hended : att.ended = none) (out : HandlerOutcome) :
    step cfg s (.settles i out) = some ((s.settled cfg i att out).1.setAttempt i
      { att with ended := some (s.settled cfg i att out).2 }) := by
  simp only [step, hatt, hended]

/-! ### What a settlement leaves alone -/

/-- The attempts are as they were, and whatever was called since published a delta. -/
structure Publishes (s s' : AgentStatePublisher) : Prop where
  attemptSeq : s'.attemptSeq = s.attemptSeq
  attempts : s'.attempts = s.attempts
  calls : ∃ deltas : List PublisherDelta, s'.calls = s.calls ++ deltas.map PublisherCall.publish

namespace Publishes

theorem of_calls_eq (hseq : s'.attemptSeq = s.attemptSeq) (hattempts : s'.attempts = s.attempts)
    (hcalls : s'.calls = s.calls) : Publishes s s' :=
  ⟨hseq, hattempts, [], by simp [hcalls]⟩

theorem refl (s : AgentStatePublisher) : Publishes s s := of_calls_eq rfl rfl rfl

theorem trans {a b c : AgentStatePublisher} (h : Publishes a b) (h' : Publishes b c) :
    Publishes a c := by
  obtain ⟨ds, hds⟩ := h.calls
  obtain ⟨es, hes⟩ := h'.calls
  refine ⟨h'.attemptSeq.trans h.attemptSeq, h'.attempts.trans h.attempts, ds ++ es, ?_⟩
  rw [hes, hds, List.map_append, List.append_assoc]

theorem delta (s : AgentStatePublisher) (row : Option AgentState) (card : Option TaskCard) :
    Publishes s (s.publish row card) := ⟨rfl, rfl, [⟨row, card⟩], rfl⟩

theorem stopped (cfg : PublisherConfig) (s : AgentStatePublisher) (p : Payload) :
    Publishes s (s.publishStopped cfg p) := by
  unfold publishStopped markStopped
  cases s.stoppedTaskIds.get p.taskId with
  | some _ => exact refl s
  | none =>
      dsimp only
      cases taskTitle p with
      | none => exact of_calls_eq rfl rfl rfl
      | some title =>
          dsimp only
          split
          · exact ⟨rfl, rfl, [_], rfl⟩
          · exact ⟨rfl, rfl, [_], rfl⟩

theorem idle (s : AgentStatePublisher) : Publishes s (s.publishIdle cfg) := ⟨rfl, rfl, [_], rfl⟩

theorem supersededFailure (cfg : PublisherConfig) (s : AgentStatePublisher)
    (taskId title : JsString) :
    Publishes s (s.publishSupersededFailure cfg taskId title) := by
  unfold publishSupersededFailure
  split
  · exact refl s
  · exact delta s _ _

theorem accounted (cfg : PublisherConfig) (s : AgentStatePublisher) (taskId : JsString) (u : Amount)
    (detail : Option JsString) : Publishes s (s.accountTokens cfg taskId u detail).1 := by
  unfold accountTokens
  dsimp only
  split
  · exact of_calls_eq rfl rfl rfl
  · split <;> exact of_calls_eq rfl rfl rfl

theorem accountedFailure (cfg : PublisherConfig) (s : AgentStatePublisher) (taskId : JsString)
    (err : HandlerError) :
    Publishes s (s.accountFailedAttempt cfg taskId err).1 := by
  cases err with
  | thrown e => exact refl s
  | failedAttempt message usage =>
      have h := accounted cfg s taskId usage.tokens
        (some (js "failed attempt: " ++ message))
      unfold accountFailedAttempt
      dsimp only
      rcases hres : s.accountTokens cfg taskId usage.tokens
        (some (js "failed attempt: " ++ message)) with ⟨after, breach⟩
      rw [hres] at h
      cases breach <;> exact h

theorem caught (cfg : PublisherConfig) (s : AgentStatePublisher) (i : ℕ) (att : Attempt)
    (err : HandlerError) :
    Publishes s (s.caught cfg i att err).1 := by
  have h := accountedFailure cfg s att.payload.taskId err
  unfold AgentStatePublisher.caught endedByEmergencyStop
  cases emergencyStopOf att.aborted err with
  | some stop => exact h.trans (stopped cfg _ _)
  | none =>
      dsimp only [Option.map_none]
      rcases hres : s.accountFailedAttempt cfg att.payload.taskId err with ⟨after, failure⟩
      rw [hres] at h
      dsimp only
      split
      · exact h.trans (supersededFailure cfg _ _ _)
      · exact h.trans ⟨rfl, rfl, [_], rfl⟩

theorem late (cfg : PublisherConfig) (s : AgentStatePublisher) (taskId : JsString)
    (r : HandlerResult) :
    Publishes s (s.countLateTokens cfg taskId r) := by
  unfold countLateTokens
  split
  · exact refl s
  · exact accounted cfg s _ _ _

theorem settled (cfg : PublisherConfig) (s : AgentStatePublisher) (i : ℕ) (att : Attempt)
    (out : HandlerOutcome) :
    Publishes s (s.settled cfg i att out).1 := by
  have hidle : Publishes s (s.setCurrent .idle none) := of_calls_eq rfl rfl rfl
  unfold AgentStatePublisher.settled
  dsimp only
  cases out with
  | threw err => exact caught cfg s i att err
  | returned r =>
      dsimp only
      cases att.aborted with
      | some reason => exact (late cfg s _ r).trans (caught cfg _ i att _)
      | none =>
          dsimp only
          cases r.display with
          | error e => exact hidle.trans (caught cfg _ i att _)
          | ok resultStr =>
              dsimp only
              cases r.tokenMeta with
              | none => exact hidle.trans (delta _ _ _)
              | some tokenMeta =>
                  have h := accounted cfg (s.setCurrent .idle none) att.payload.taskId
                    tokenMeta.totalTokens none
                  dsimp only
                  rcases hres : (s.setCurrent .idle none).accountTokens cfg att.payload.taskId
                    tokenMeta.totalTokens none with ⟨after, breach⟩
                  rw [hres] at h
                  cases breach with
                  | none => exact (hidle.trans h).trans (delta _ _ _)
                  | some breach =>
                      exact ((hidle.trans h).trans (delta _ _ _)).trans (caught cfg _ i att _)

end Publishes

/-! ### Calls of handlers -/

/-- The attempts whose handlers were called. -/
def handlers (s : AgentStatePublisher) : List ℕ :=
  s.calls.filterMap fun
    | .handler i => some i
    | .publish _ => none

theorem Publishes.handlers_eq (h : Publishes s s') : s'.handlers = s.handlers := by
  obtain ⟨deltas, hcalls⟩ := h.calls
  have hnone : (deltas.map PublisherCall.publish).filterMap (fun
      | .handler i => some i
      | .publish _ => none) = ([] : List ℕ) := by
    rw [List.filterMap_map]
    exact List.filterMap_eq_nil_iff.mpr fun d _ => rfl
  unfold handlers
  rw [hcalls, List.filterMap_append, hnone, List.append_nil]

/-- **A handler is called only by the wrapper, after its check of the caps.** -/
theorem handlers_step {e : PublisherEvent} (hstep : step cfg s e = some s')
    (hbegun : s'.handlers ≠ s.handlers) :
    ∃ p, e = .invoke p ∧ s.assertCapsNotMet cfg p.taskId = none := by
  cases e with
  | invoke p =>
      refine ⟨p, rfl, ?_⟩
      simp only [step] at hstep
      split at hstep
      · exact absurd (congrArg handlers (Option.some.inj hstep)).symm hbegun
      · rename_i title _
        rw [← Option.some.inj hstep] at hbegun
        unfold invoked at hbegun
        dsimp only at hbegun
        split at hbegun
        · rename_i breach _
          have hp := Publishes.caught cfg { s with attemptSeq := s.attemptSeq + 1 }
            (s.attemptSeq + 1) ⟨p, title, none, none⟩ (.thrown (.nonRetryable breach))
          exact absurd hp.handlers_eq hbegun
        · rename_i hnone
          exact hnone
  | abort i reason =>
      obtain ⟨att, -, rfl⟩ := Option.map_eq_some_iff.mp hstep
      exact absurd rfl hbegun
  | settles i out =>
      obtain ⟨att, -, -, rfl⟩ := step_settles hstep
      exact absurd (Publishes.settled cfg s i att out).handlers_eq hbegun
  | publishStopped p =>
      rw [← Option.some.inj hstep] at hbegun
      exact absurd (Publishes.stopped cfg s p).handlers_eq hbegun
  | publishIdle =>
      rw [← Option.some.inj hstep] at hbegun
      exact absurd (Publishes.delta _ _ _).handlers_eq hbegun
  | heartbeat =>
      rw [← Option.some.inj hstep] at hbegun
      exact absurd (Publishes.delta _ _ _).handlers_eq hbegun

/-- The wrapper calls its handler when no cap is met. -/
theorem invoke_begins {p : Payload} {title : JsString} (htitle : taskTitle p = some title)
    (hcaps : s.assertCapsNotMet cfg p.taskId = none) :
    ∃ s', step cfg s (.invoke p) = some s' ∧ s'.attemptSeq = s.attemptSeq + 1 ∧
      s'.attempts (s.attemptSeq + 1) = some ⟨p, title, none, none⟩ ∧
      s'.handlers = s.handlers ++ [s.attemptSeq + 1] := by
  have hopen : ({ s with attemptSeq := s.attemptSeq + 1 } : AgentStatePublisher).assertCapsNotMet
      cfg p.taskId = none := hcaps
  have hstep : step cfg s (.invoke p) = some (s.invoked cfg p title) := by
    simp only [step, htitle]
  refine ⟨_, hstep, ?_⟩
  unfold invoked
  dsimp only
  rw [hopen]
  refine ⟨rfl, if_pos rfl, ?_⟩
  show (((s.calls ++ [_]) ++ [_]) ++ [_]).filterMap _ = s.calls.filterMap _ ++ [s.attemptSeq + 1]
  rw [List.filterMap_append, List.filterMap_append, List.filterMap_append]
  simp

end Kaiban.AgentStatePublisher
