/-
The cards that say a task was stopped.

A stop is reported once for each time its task is marked, and nothing else publishes a card
with this status.  The wrapper reports a stop exactly when it rejects with one.
-/
import Kaiban.Proofs.Publisher.Cards

open JsString

namespace Kaiban

namespace AgentStatePublisher

variable {cfg : PublisherConfig} {s s' : AgentStatePublisher}

/-- The `STOPPED` cards that were published. -/
def stoppedCards (s : AgentStatePublisher) : List TaskCard :=
  s.calls.filterMap fun
    | .handler _ => none
    | .publish delta => delta.tasks.filter fun card => card.status = .stopped

/-- The wrapper rejects with a stop: the attempt is ended by one, or the text of its result
throws one in time. -/
def ThrowsStop (att : Attempt) (out : HandlerOutcome) : Prop :=
  EndsStopped att out ∨ att.aborted = none ∧ ∃ r e, out = .returned r ∧
    r.display = .error (.nonRetryable e) ∧ e.isEmergencyStop = true

/-! ### What publishes no stop -/

/-- No stop is published, and none is remembered or forgotten. -/
structure Silent (s s' : AgentStatePublisher) : Prop where
  marks : s'.stoppedTaskIds = s.stoppedTaskIds
  cards : s'.stoppedCards = s.stoppedCards

namespace Silent

theorem of_calls_eq (hmarks : s'.stoppedTaskIds = s.stoppedTaskIds) (hcalls : s'.calls = s.calls) :
    Silent s s' := by
  refine ⟨hmarks, ?_⟩
  unfold stoppedCards
  rw [hcalls]

theorem refl (s : AgentStatePublisher) : Silent s s := of_calls_eq rfl rfl

theorem trans {a b c : AgentStatePublisher} (h : Silent a b) (h' : Silent b c) : Silent a c :=
  ⟨h'.marks.trans h.marks, h'.cards.trans h.cards⟩

theorem sameBoard (h : SameBoard s s') : Silent s s' := by
  obtain ⟨total, tasks, rfl⟩ := h
  exact of_calls_eq rfl rfl

theorem idle (s : AgentStatePublisher) (taskId : Option JsString) :
    Silent s (s.setCurrent .idle taskId) := of_calls_eq rfl rfl

end Silent

theorem stoppedCards_call (s : AgentStatePublisher) (c : PublisherCall) :
    (s.call c).stoppedCards = s.stoppedCards ++ stoppedCards { s with calls := [c] } :=
  List.filterMap_append

theorem stoppedCards_publish (s : AgentStatePublisher) (row : Option AgentState)
    (card : Option TaskCard) : (s.publish row card).stoppedCards
      = s.stoppedCards ++ (card.filter fun card => card.status = .stopped).toList := by
  refine (stoppedCards_call s _).trans (congrArg (s.stoppedCards ++ ·) ?_)
  unfold stoppedCards
  cases h : card.filter fun card => card.status = .stopped <;> simp [h]

/-- A delta whose card is no stop. -/
theorem Silent.publish (s : AgentStatePublisher) {row : Option AgentState}
    {card : Option TaskCard} (h : ∀ c, card = some c → c.status ≠ .stopped) :
    Silent s (s.publish row card) := by
  refine ⟨rfl, ?_⟩
  have hnone : (card.filter fun card => card.status = .stopped) = none := by
    rw [Option.filter_eq_none_iff]
    intro c hc
    simpa using h c hc
  rw [stoppedCards_publish, hnone]
  exact List.append_nil _

theorem Silent.card (s : AgentStatePublisher) {row : Option AgentState} {card : TaskCard}
    (h : card.status ≠ .stopped) : Silent s (s.publish row (some card)) := by
  apply publish
  intro c hc
  rw [← Option.some.inj hc]
  exact h

theorem Silent.failure (cfg : PublisherConfig) (t : AgentStatePublisher) (superseded : Prop)
    [Decidable superseded] (taskId title : JsString) :
    Silent t (failureReported cfg t superseded taskId title) := by
  have hblocked : (taskCard cfg taskId title .blocked).status ≠ .stopped := by simp [taskCard]
  unfold failureReported publishSupersededFailure
  split
  · split
    · exact refl t
    · exact card t hblocked
  · exact (card t hblocked).trans (idle _ none)

/-! ### What reports a stop -/

/-- The stop of a marked task is reported already. -/
theorem publishStopped_marked {p : Payload} (h : s.Marked p.taskId) :
    s.publishStopped cfg p = s := by
  unfold publishStopped markStopped
  obtain ⟨u, hu⟩ := Option.isSome_iff_exists.mp h
  rw [hu]

/-- The first report of a stop publishes its card. -/
theorem stoppedCards_unmarked {p : Payload} {title : JsString} (h : ¬ s.Marked p.taskId)
    (htitle : taskTitle p = some title) : (s.publishStopped cfg p).stoppedCards
      = s.stoppedCards ++ [taskCard cfg p.taskId title .stopped] := by
  have hnone : s.stoppedTaskIds.get p.taskId = none := by
    unfold Marked at h
    simpa using h
  unfold publishStopped markStopped
  rw [hnone]
  dsimp only
  rw [htitle]
  dsimp only
  split
  · rw [stoppedCards_publish]
    rfl
  · rw [stoppedCards_publish]
    rfl

theorem caught_stopped (cfg : PublisherConfig) (s : AgentStatePublisher) (i : ℕ) (att : Attempt)
    (err : HandlerError) :
    (∃ t e, Silent s t ∧ emergencyStopOf att.aborted err = some e ∧
      s.caught cfg i att err = (t.publishStopped cfg att.payload, .thrown (.nonRetryable e))) ∨
    (Silent s (s.caught cfg i att err).1 ∧ (s.caught cfg i att err).2.NotStop) := by
  rcases caught_report cfg s i att err with
    ⟨e, t, he, hsame, heq⟩ | ⟨-, t, failure, hsame, hnot, heq⟩
  · exact .inl ⟨t, e, .sameBoard hsame, he, heq⟩
  · refine .inr ?_
    rw [heq]
    exact ⟨(Silent.sameBoard hsame).trans (.failure cfg t _ _ _), hnot⟩

/-- The wrapper rejects with a stop and reports it, or with none. -/
def Reports (cfg : PublisherConfig) (s : AgentStatePublisher) (att : Attempt)
    (out : HandlerOutcome) (res : AgentStatePublisher × Outcome) : Prop :=
  (∃ t e, Silent s t ∧ ThrowsStop att out ∧ e.isEmergencyStop = true ∧
    res = (t.publishStopped cfg att.payload, .threw (.nonRetryable e))) ∨
  (Silent s res.1 ∧ ∀ e, res.2 = .threw (.nonRetryable e) → e.isEmergencyStop = false)

theorem reports_caught {m : AgentStatePublisher} {i : ℕ} {att : Attempt} {out : HandlerOutcome}
    {err : HandlerError} (hm : Silent s m)
    (hstop : (emergencyStopOf att.aborted err).isSome = true → ThrowsStop att out) :
    Reports cfg s att out
      ((m.caught cfg i att err).1, .threw (m.caught cfg i att err).2.seen) := by
  rcases caught_stopped cfg m i att err with ⟨t, e, ht, he, heq⟩ | ⟨hsilent, hnot⟩
  · refine .inl ⟨t, e, hm.trans ht, hstop (by rw [he]; rfl), emergencyStopOf_stop he, ?_⟩
    rw [heq]
    rfl
  · refine .inr ⟨hm.trans hsilent, fun e he => ?_⟩
    exact hnot.seen e (Outcome.threw.inj he)

/-- **The end of an attempt reports a stop when it rejects with one.** -/
theorem settled_reports (cfg : PublisherConfig) (s : AgentStatePublisher) (i : ℕ) (att : Attempt)
    (out : HandlerOutcome) : Reports cfg s att out (s.settled cfg i att out) := by
  cases out with
  | threw err =>
      refine reports_caught (.refl s) fun h => .inl ?_
      rcases (emergencyStopOf_isSome att.aborted err).mp h with habort | ⟨e, rfl, he⟩
      · exact .inl habort
      · exact .inr ⟨e, rfl, he⟩
  | returned r =>
      unfold settled
      dsimp only
      cases haborted : att.aborted with
      | some reason =>
          have hlate := Silent.sameBoard (sameBoard_countLateTokens cfg s att.payload.taskId r)
          have hstop := (lateError_stop haborted r).mp
          rw [haborted] at hstop
          refine reports_caught hlate fun h => .inl (hstop ?_)
          rwa [haborted] at h
      | none =>
          have hidle := Silent.idle s none
          dsimp only
          cases hdisplay : r.display with
          | error e =>
              refine reports_caught hidle fun h => .inr ⟨haborted, ?_⟩
              rw [haborted] at h
              rcases (emergencyStopOf_isSome none (.thrown e)).mp h with hno | ⟨x, hx, hstop⟩
              · exact absurd hno (by simp [emergencyAbort])
              · exact ⟨r, x, rfl, hdisplay.trans (congrArg _ (HandlerError.thrown.inj hx)), hstop⟩
          | ok resultStr =>
              dsimp only
              cases r.tokenMeta with
              | none => exact .inr ⟨hidle.trans (.card _ (by simp)), by simp⟩
              | some tokenMeta =>
                  have hsame := sameBoard_accountTokens cfg (s.setCurrent .idle none)
                    att.payload.taskId tokenMeta.totalTokens none
                  dsimp only
                  rcases hres : (s.setCurrent .idle none).accountTokens cfg att.payload.taskId
                    tokenMeta.totalTokens none with ⟨after, breach⟩
                  rw [hres] at hsame
                  have hafter := hidle.trans (Silent.sameBoard hsame)
                  cases breach with
                  | none => exact .inr ⟨hafter.trans (.card _ (by simp)), by simp⟩
                  | some breach =>
                      have hb := accountTokens_notStop (congrArg Prod.snd hres)
                      refine reports_caught
                        (hafter.trans (.card _ (by simp [taskCard]))) fun h => ?_
                      rw [haborted] at h
                      rcases (emergencyStopOf_isSome none _).mp h with hno | ⟨x, hx, hstop⟩
                      · exact absurd hno (by simp [emergencyAbort])
                      · obtain rfl : breach = x := by simpa using hx
                        exact absurd (hb.symm.trans hstop) (by simp)

/-- The call of the wrapper publishes no stop. -/
theorem stoppedCards_invoked (cfg : PublisherConfig) (s : AgentStatePublisher) (p : Payload)
    (title : JsString) : (s.invoked cfg p title).stoppedCards = s.stoppedCards := by
  let m : AgentStatePublisher := { s with attemptSeq := s.attemptSeq + 1 }
  unfold invoked
  dsimp only
  split
  · rename_i b hb
    obtain ⟨t, failure, hsame, -, heq⟩ := refused_report cfg m p title
      (assertCapsNotMet_notStop hb)
    have heq' : m.caught cfg (s.attemptSeq + 1) ⟨p, title, none, none⟩ (.thrown (.nonRetryable b))
        = ((t.publishError cfg p.taskId title).setCurrent .idle none, failure) := heq
    rw [heq']
    have hsilent := (Silent.sameBoard hsame).trans
      (Silent.failure cfg t False p.taskId title)
    exact hsilent.cards
  · let a : AgentStatePublisher :=
      { m with stoppedTaskIds := m.stoppedTaskIds.erase p.taskId }.setCurrent .executing
        (some p.taskId)
    let b := a.publish (some (agentRow cfg .executing (some p.taskId)))
      (some (taskCard cfg p.taskId title .doing))
    have hdoing : Silent a b := .card a (by simp [taskCard])
    have hthinking : Silent b (b.publish (some (agentRow cfg .thinking (some p.taskId))) none) :=
      .publish b (by simp)
    refine (stoppedCards_call (b.publish _ none) (.handler (s.attemptSeq + 1))).trans ?_
    exact (List.append_nil _).trans (hdoing.trans hthinking).cards

end AgentStatePublisher

end Kaiban
