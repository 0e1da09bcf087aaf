/-
The card of a task.

What the board shows of a task is the last card that was published for it.  A reaction of
the publisher to an attempt of another task leaves it alone; what a reaction to an attempt
of the task itself does is one of three things, and each goes with one kind of outcome.
-/
import Kaiban.Proofs.Publisher.AgentRow

open JsString

namespace Kaiban

/-- The error is no emergency stop. -/
def Thrown.NotStop (e : Thrown) : Prop :=
  ∀ x : NonRetryableError, e = .nonRetryable x → x.isEmergencyStop = false

def HandlerError.NotStop (err : HandlerError) : Prop :=
  ∀ x : NonRetryableError, err = .thrown (.nonRetryable x) → x.isEmergencyStop = false

theorem HandlerError.NotStop.seen {err : HandlerError} (h : err.NotStop) : err.seen.NotStop := by
  cases err with
  | failedAttempt message usage => exact fun x hx => absurd hx (by simp [HandlerError.seen])
  | thrown e => exact fun x hx => h x (congrArg HandlerError.thrown hx)

namespace AgentStatePublisher

variable {cfg : PublisherConfig} {s s' : AgentStatePublisher} {taskId : JsString}

/-- The cards in a list of calls. -/
def cardsOf (calls : List PublisherCall) (taskId : JsString) : List TaskCard :=
  (calls.filterMap fun
    | .handler _ => none
    | .publish d => d.tasks).filter fun card => card.taskId = taskId

/-- The status the board shows of a task. -/
def lastCard (s : AgentStatePublisher) (taskId : JsString) : Option TaskStatus :=
  (cardsOf s.calls taskId).getLast?.map TaskCard.status

/-- The stop of the task is remembered. -/
def Marked (s : AgentStatePublisher) (taskId : JsString) : Prop :=
  (s.stoppedTaskIds.get taskId).isSome = true

theorem cardsOf_append (cs ds : List PublisherCall) (taskId : JsString) :
    cardsOf (cs ++ ds) taskId = cardsOf cs taskId ++ cardsOf ds taskId := by
  unfold cardsOf
  rw [List.filterMap_append, List.filter_append]

theorem lastCard_of_calls_eq (h : s'.calls = s.calls) : s'.lastCard taskId = s.lastCard taskId := by
  unfold lastCard
  rw [h]

/-- A card of the task is shown. -/
theorem lastCard_publish_self {row : Option AgentState} {card : TaskCard}
    (h : card.taskId = taskId) :
    (s.publish row (some card)).lastCard taskId = some card.status := by
  have hone : cardsOf [.publish ⟨row, some card⟩] taskId = [card] := by
    unfold cardsOf
    simp [h]
  show ((cardsOf (s.calls ++ [.publish ⟨row, some card⟩]) taskId).getLast?).map TaskCard.status = _
  rw [cardsOf_append, hone, List.getLast?_append]
  rfl

/-- A delta without a card of the task changes nothing. -/
theorem lastCard_publish_ne {row : Option AgentState} {card : Option TaskCard}
    (h : ∀ c, card = some c → c.taskId ≠ taskId) :
    (s.publish row card).lastCard taskId = s.lastCard taskId := by
  have hnone : cardsOf [.publish ⟨row, card⟩] taskId = [] := by
    unfold cardsOf
    cases card with
    | none => rfl
    | some c => simp [h c rfl]
  show ((cardsOf (s.calls ++ [.publish ⟨row, card⟩]) taskId).getLast?).map TaskCard.status = _
  rw [cardsOf_append, hnone, List.append_nil]
  rfl

theorem lastCard_handler (s : AgentStatePublisher) (i : ℕ) :
    (s.call (.handler i)).lastCard taskId = s.lastCard taskId := by
  show ((cardsOf (s.calls ++ [.handler i]) taskId).getLast?).map TaskCard.status = _
  rw [cardsOf_append]
  show ((cardsOf s.calls taskId ++ []).getLast?).map TaskCard.status = _
  rw [List.append_nil]
  rfl

/-! ### What spares a task -/

/-- The card of the task stays, and no stop of it is remembered anew. -/
structure Spares (taskId : JsString) (s s' : AgentStatePublisher) : Prop where
  card : s'.lastCard taskId = s.lastCard taskId
  mark : s'.Marked taskId → s.Marked taskId

namespace Spares

theorem refl (taskId : JsString) (s : AgentStatePublisher) : Spares taskId s s := ⟨rfl, id⟩

theorem trans {a b c : AgentStatePublisher} (h : Spares taskId a b) (h' : Spares taskId b c) :
    Spares taskId a c := ⟨h'.card.trans h.card, fun hm => h.mark (h'.mark hm)⟩

theorem of_eq (hcalls : s'.calls = s.calls) (hmarks : s'.stoppedTaskIds = s.stoppedTaskIds) :
    Spares taskId s s' := by
  refine ⟨lastCard_of_calls_eq hcalls, fun h => ?_⟩
  unfold Marked at h ⊢
  rwa [hmarks] at h

theorem sameBoard (h : SameBoard s s') : Spares taskId s s' := by
  obtain ⟨total, tasks, rfl⟩ := h
  exact of_eq rfl rfl

/-- A delta of another task. -/
theorem publish (s : AgentStatePublisher) {row : Option AgentState} {card : Option TaskCard}
    (h : ∀ c, card = some c → c.taskId ≠ taskId) : Spares taskId s (s.publish row card) :=
  ⟨lastCard_publish_ne h, id⟩

end Spares

/-! ### The stop of a task -/

/-- A stop is reported already, or the task is now shown as stopped. -/
theorem publishStopped_cases (cfg : PublisherConfig) (s : AgentStatePublisher) {p : Payload}
    {title : JsString} (htitle : taskTitle p = some title) :
    (s.Marked p.taskId ∧ s.publishStopped cfg p = s) ∨
      (¬ s.Marked p.taskId ∧ (s.publishStopped cfg p).lastCard p.taskId = some .stopped) := by
  unfold publishStopped markStopped Marked
  cases s.stoppedTaskIds.get p.taskId with
  | some u => exact .inl ⟨rfl, rfl⟩
  | none =>
      refine .inr ⟨by simp, ?_⟩
      dsimp only
      rw [htitle]
      dsimp only
      split
      · exact lastCard_publish_self rfl
      · exact lastCard_publish_self rfl

/-- The stop of another task. -/
theorem Spares.stopped (cfg : PublisherConfig) (s : AgentStatePublisher) {p : Payload}
    (hne : p.taskId ≠ taskId) : Spares taskId s (s.publishStopped cfg p) := by
  unfold publishStopped markStopped
  cases s.stoppedTaskIds.get p.taskId with
  | some u => exact refl taskId s
  | none =>
      let m : AgentStatePublisher :=
        { s with stoppedTaskIds := s.stoppedTaskIds.touch maxRememberedStops p.taskId () }
      have hidle : Spares taskId m (m.setCurrent .idle none) := of_eq rfl rfl
      have hmark : Spares taskId s m := by
        refine ⟨rfl, fun h => ?_⟩
        unfold Marked at h ⊢
        rcases OrderedMap.get_touch_ne maxRememberedStops s.stoppedTaskIds () hne.symm with hk | hk
        · exact hk ▸ h
        · exact absurd (hk ▸ h) (by simp)
      dsimp only
      cases taskTitle p with
      | none => exact hmark
      | some title =>
          have hcard : ∀ c, some (taskCard cfg p.taskId title .stopped) = some c →
              c.taskId ≠ taskId := by
            intro c hc
            rw [← Option.some.inj hc]
            exact hne
          dsimp only
          split
          · exact hmark.trans (publish _ hcard)
          · exact (hmark.trans hidle).trans (publish _ hcard)

/-! ### The end of an attempt -/

/-- The current task stays or is cleared. -/
def Clears (s s' : AgentStatePublisher) : Prop :=
  ∀ c, s'.currentTaskId = some c → s.currentTaskId = some c

namespace Clears

theorem refl (s : AgentStatePublisher) : Clears s s := fun _ h => h

theorem trans {a b c : AgentStatePublisher} (h : Clears a b) (h' : Clears b c) : Clears a c :=
  fun x hx => h x (h' x hx)

theorem of_none (h : s'.currentTaskId = none) : Clears s s' :=
  fun _ hc => absurd (h.symm.trans hc) (by simp)

theorem of_eq (h : s'.currentTaskId = s.currentTaskId) : Clears s s' :=
  fun _ hc => h.symm.trans hc

theorem sameBoard (h : SameBoard s s') : Clears s s' := by
  obtain ⟨total, tasks, rfl⟩ := h
  exact of_eq rfl

theorem stopped (cfg : PublisherConfig) (s : AgentStatePublisher) (p : Payload) :
    Clears s (s.publishStopped cfg p) := by
  unfold publishStopped markStopped
  cases s.stoppedTaskIds.get p.taskId with
  | some u => exact refl s
  | none =>
      dsimp only
      cases taskTitle p with
      | none => exact of_eq rfl
      | some title =>
          dsimp only
          split
          · exact of_eq rfl
          · exact of_none rfl

end Clears

/-- How an attempt ends: what the board shows of its task, and what the wrapper settles
with.  An attempt in time may be stopped by an error its result throws. -/
inductive Report (cfg : PublisherConfig) (s : AgentStatePublisher) (i : ℕ) (att : Attempt)
    (out : HandlerOutcome) : AgentStatePublisher → Outcome → Prop
  | done (t : AgentStatePublisher) (v : Value) (haborted : att.aborted = none)
      (hcard : t.lastCard att.payload.taskId = some .done)
      (hmark : t.Marked att.payload.taskId → s.Marked att.payload.taskId) :
      Report cfg s i att out t (.returned v)
  | stopped (t : AgentStatePublisher) (e : NonRetryableError) (he : e.isEmergencyStop = true)
      (hends : att.aborted = none ∨ EndsStopped att out)
      (hspares : ∀ taskId, Spares taskId s t) (hclears : Clears s t) :
      Report cfg s i att out (t.publishStopped cfg att.payload) (.threw (.nonRetryable e))
  | failed (t : AgentStatePublisher) (e : Thrown) (he : e.NotStop)
      (hends : att.aborted = none ∨ ¬ EndsStopped att out)
      (hcard : t.lastCard att.payload.taskId = some .blocked ∨
        i ≠ s.attemptSeq ∧ s.currentTaskId = some att.payload.taskId ∧
          t.lastCard att.payload.taskId = s.lastCard att.payload.taskId)
      (hmark : t.Marked att.payload.taskId → s.Marked att.payload.taskId) :
      Report cfg s i att out t (.threw e)

theorem emergencyStopOf_stop {aborted : Option NonRetryableError} {err : HandlerError}
    {e : NonRetryableError} (h : emergencyStopOf aborted err = some e) :
    e.isEmergencyStop = true := by
  have habort : ∀ x, emergencyAbort aborted = some x → x.isEmergencyStop = true := by
    intro x hx
    exact (Option.filter_eq_some_iff.mp hx).2
  cases err with
  | failedAttempt message usage => exact habort e h
  | thrown t =>
      cases t with
      | error message => exact habort e h
      | other text => exact habort e h
      | nonRetryable x =>
          have h' : (if x.isEmergencyStop = true then some x else emergencyAbort aborted)
            = some e := h
          by_cases hx : x.isEmergencyStop = true
          · rw [if_pos hx] at h'
            exact Option.some.inj h' ▸ hx
          · rw [if_neg hx] at h'
            exact habort e h'

theorem notStop_of_none {aborted : Option NonRetryableError} {err : HandlerError}
    (h : emergencyStopOf aborted err = none) : err.NotStop := by
  rintro x rfl
  have h' : (if x.isEmergencyStop = true then some x else emergencyAbort aborted) = none := h
  by_cases hx : x.isEmergencyStop = true
  · rw [if_pos hx] at h'
    exact absurd h' (by simp)
  · simpa using hx

theorem accountTokens_notStop {u : Amount} {detail : Option JsString} {b : NonRetryableError}
    (h : (s.accountTokens cfg taskId u detail).2 = some b) : b.isEmergencyStop = false := by
  unfold accountTokens at h
  dsimp only at h
  split at h
  · rw [← Option.some.inj h]
    rfl
  · split at h
    · rw [← Option.some.inj h]
      rfl
    · exact absurd h (by simp)

theorem accountFailedAttempt_notStop {err : HandlerError} (h : err.NotStop) :
    (s.accountFailedAttempt cfg taskId err).2.NotStop := by
  cases err with
  | thrown e => exact h
  | failedAttempt message usage =>
      unfold accountFailedAttempt
      dsimp only
      rcases hres : s.accountTokens cfg taskId usage.tokens
        (some (js "failed attempt: " ++ message)) with ⟨after, breach⟩
      cases breach with
      | none => exact h
      | some b =>
          have hb := accountTokens_notStop (congrArg Prod.snd hres)
          intro x hx
          obtain rfl : b = x := by simpa using hx
          exact hb

/-- The `catch` of the wrapper reports a stop, or a failure. -/
theorem caught_report (cfg : PublisherConfig) (s : AgentStatePublisher) (i : ℕ) (att : Attempt)
    (err : HandlerError) :
    (∃ e t, emergencyStopOf att.aborted err = some e ∧ SameBoard s t ∧
      s.caught cfg i att err = (t.publishStopped cfg att.payload, .thrown (.nonRetryable e))) ∨
    (emergencyStopOf att.aborted err = none ∧ ∃ t failure, SameBoard s t ∧ failure.NotStop ∧
      s.caught cfg i att err =
        (if i ≠ s.attemptSeq then t.publishSupersededFailure cfg att.payload.taskId att.title
          else (t.publishError cfg att.payload.taskId att.title).setCurrent .idle none,
        failure)) := by
  have hsame := sameBoard_accountFailedAttempt cfg s att.payload.taskId err
  cases hstop : emergencyStopOf att.aborted err with
  | some e =>
      refine .inl ⟨e, _, rfl, hsame, ?_⟩
      unfold caught endedByEmergencyStop
      rw [hstop]
      rfl
  | none =>
      refine .inr ⟨rfl, (s.accountFailedAttempt cfg att.payload.taskId err).1,
        (s.accountFailedAttempt cfg att.payload.taskId err).2, hsame, ?_, ?_⟩
      · exact accountFailedAttempt_notStop (notStop_of_none hstop)
      · unfold caught endedByEmergencyStop
        rw [hstop]
        dsimp only [Option.map_none]
        rcases hres : s.accountFailedAttempt cfg att.payload.taskId err with ⟨after, failure⟩
        rw [hres] at hsame
        obtain ⟨total, tasks, rfl⟩ := hsame
        dsimp only
        by_cases hne : i ≠ s.attemptSeq
        · rw [if_pos hne, if_pos hne]
        · rw [if_neg hne, if_neg hne]

/-- What the report of a failure leaves on the board. -/
def failureReported (cfg : PublisherConfig) (t : AgentStatePublisher) (superseded : Prop)
    [Decidable superseded] (taskId title : JsString) : AgentStatePublisher :=
  if superseded then t.publishSupersededFailure cfg taskId title
  else (t.publishError cfg taskId title).setCurrent .idle none

theorem lastCard_failureReported (cfg : PublisherConfig) (t : AgentStatePublisher)
    (superseded : Prop) [Decidable superseded] (taskId title : JsString) :
    (failureReported cfg t superseded taskId title).lastCard taskId = some .blocked ∨
      superseded ∧ t.currentTaskId = some taskId ∧
        (failureReported cfg t superseded taskId title).lastCard taskId = t.lastCard taskId := by
  unfold failureReported
  by_cases hs : superseded
  · rw [if_pos hs]
    unfold publishSupersededFailure
    by_cases hcurrent : some taskId = t.currentTaskId
    · rw [if_pos hcurrent]
      exact .inr ⟨hs, hcurrent.symm, rfl⟩
    · rw [if_neg hcurrent]
      exact .inl (lastCard_publish_self rfl)
  · rw [if_neg hs]
    exact .inl ((lastCard_of_calls_eq rfl).trans (lastCard_publish_self (s := t) rfl))

theorem marks_failureReported (cfg : PublisherConfig) (t : AgentStatePublisher)
    (superseded : Prop) [Decidable superseded] (taskId title : JsString) :
    (failureReported cfg t superseded taskId title).stoppedTaskIds = t.stoppedTaskIds := by
  unfold failureReported publishSupersededFailure
  split
  · split <;> rfl
  · rfl

/-- The report of an attempt that ends in the `catch`. -/
theorem report_caught {m : AgentStatePublisher} {i : ℕ} {att : Attempt} {out : HandlerOutcome}
    {err : HandlerError} (hspares : ∀ taskId, Spares taskId s m) (hclears : Clears s m)
    (hseq : m.attemptSeq = s.attemptSeq)
    (hstop : (emergencyStopOf att.aborted err).isSome = true →
      att.aborted = none ∨ EndsStopped att out)
    (hfail : emergencyStopOf att.aborted err = none → att.aborted = none ∨ ¬ EndsStopped att out) :
    Report cfg s i att out (m.caught cfg i att err).1 (.threw (m.caught cfg i att err).2.seen) := by
  rcases caught_report cfg m i att err with
    ⟨e, t, he, hsame, heq⟩ | ⟨hnone, t, failure, hsame, hnot, heq⟩
  · rw [heq]
    exact .stopped t e (emergencyStopOf_stop he) (hstop (by rw [he]; rfl))
      (fun taskId => (hspares taskId).trans (.sameBoard hsame)) (hclears.trans (.sameBoard hsame))
  · rw [heq]
    have hboard : ∀ taskId, Spares taskId s t := fun taskId =>
      (hspares taskId).trans (.sameBoard hsame)
    refine .failed _ failure.seen hnot.seen (hfail hnone) ?_ fun hm => ?_
    · rcases lastCard_failureReported cfg t (i ≠ m.attemptSeq) att.payload.taskId att.title with
        h | ⟨hne, hcurrent, h⟩
      · exact .inl h
      · refine .inr ⟨hseq ▸ hne, ?_, h.trans (hboard _).card⟩
        exact (hclears.trans (.sameBoard hsame)) _ hcurrent
    · have hmarks := marks_failureReported cfg t (i ≠ m.attemptSeq) att.payload.taskId att.title
      refine (hboard _).mark ?_
      unfold Marked at hm ⊢
      rw [← hmarks]
      exact hm

/-- The report of an attempt that ends with a breach in time. -/
theorem report_breach {m : AgentStatePublisher} {i : ℕ} {att : Attempt} {out : HandlerOutcome}
    (haborted : att.aborted = none) {b : NonRetryableError} (hb : b.isEmergencyStop = false)
    (hcurrent : m.currentTaskId = none) (hmarks : m.stoppedTaskIds = s.stoppedTaskIds) :
    Report cfg s i att out
      ((m.publishError cfg att.payload.taskId att.title).caught cfg i att
        (.thrown (.nonRetryable b))).1
      (.threw ((m.publishError cfg att.payload.taskId att.title).caught cfg i att
        (.thrown (.nonRetryable b))).2.seen) := by
  have hnone : emergencyStopOf att.aborted (.thrown (.nonRetryable b)) = none := by
    show (if b.isEmergencyStop = true then some b else emergencyAbort att.aborted) = none
    rw [hb, haborted]
    rfl
  rcases caught_report cfg (m.publishError cfg att.payload.taskId att.title) i att
    (.thrown (.nonRetryable b)) with ⟨e, t, he, -, -⟩ | ⟨-, t, failure, hsame, hnot, heq⟩
  · exact absurd (hnone.symm.trans he) (by simp)
  · rw [heq]
    have hstopped : t.stoppedTaskIds = s.stoppedTaskIds := by
      obtain ⟨total, tasks, rfl⟩ := hsame
      exact hmarks
    have htask : t.currentTaskId = none := by
      obtain ⟨total, tasks, rfl⟩ := hsame
      exact hcurrent
    refine .failed _ failure.seen hnot.seen (.inl haborted) ?_ fun hm => ?_
    · rcases lastCard_failureReported cfg t (i ≠ m.attemptSeq) att.payload.taskId att.title with
        h | ⟨-, h, -⟩
      · exact .inl h
      · exact absurd (htask.symm.trans h) (by simp)
    · have hsame' := marks_failureReported cfg t (i ≠ m.attemptSeq) att.payload.taskId att.title
      unfold Marked at hm ⊢
      rw [← hstopped, ← hsame']
      exact hm

/-- **An attempt ends with a result and `DONE`, a stop and `STOPPED`, or a failure and
`BLOCKED`.** -/
theorem settled_report (cfg : PublisherConfig) (s : AgentStatePublisher) (i : ℕ) (att : Attempt)
    (out : HandlerOutcome) :
    Report cfg s i att out (s.settled cfg i att out).1 (s.settled cfg i att out).2 := by
  cases out with
  | threw err =>
      have hiff := emergencyStopOf_isSome att.aborted err
      refine report_caught (Spares.refl · s) (Clears.refl s) rfl (fun h => .inr ?_)
        (fun h => .inr fun hends => ?_)
      · rcases hiff.mp h with habort | ⟨e, rfl, he⟩
        · exact .inl habort
        · exact .inr ⟨e, rfl, he⟩
      · have hsome : (emergencyStopOf att.aborted err).isSome = true := by
          refine hiff.mpr ?_
          rcases hends with habort | ⟨e, heq, he⟩
          · exact .inl habort
          · exact .inr ⟨e, by simpa using heq, he⟩
        rw [h] at hsome
        exact absurd hsome (by simp)
  | returned r =>
      unfold settled
      dsimp only
      cases haborted : att.aborted with
      | some reason =>
          have hsame := sameBoard_countLateTokens cfg s att.payload.taskId r
          have hseq : (s.countLateTokens cfg att.payload.taskId r).attemptSeq = s.attemptSeq :=
            (Publishes.late cfg s _ r).attemptSeq
          have hiff := lateError_stop haborted r
          have hreport : Report cfg s i att (.returned r) _ _ :=
            report_caught (fun _ => .sameBoard hsame) (.sameBoard hsame) hseq
              (fun h => .inr (hiff.mp h)) (fun h => .inr fun hends => by
                have hsome := hiff.mpr hends
                rw [h] at hsome
                exact absurd hsome (by simp))
          rw [haborted] at hreport
          exact hreport
      | none =>
          have hidle : ∀ taskId, Spares taskId s (s.setCurrent .idle none) := fun _ =>
            Spares.of_eq rfl rfl
          have hcleared : Clears s (s.setCurrent .idle none) := .of_none rfl
          dsimp only
          cases r.display with
          | error e =>
              exact report_caught hidle hcleared rfl (fun _ => .inl haborted)
                (fun _ => .inl haborted)
          | ok resultStr =>
              dsimp only
              cases r.tokenMeta with
              | none =>
                  exact .done _ _ haborted (lastCard_publish_self rfl) id
              | some tokenMeta =>
                  have hsame := sameBoard_accountTokens cfg (s.setCurrent .idle none)
                    att.payload.taskId tokenMeta.totalTokens none
                  dsimp only
                  rcases hres : (s.setCurrent .idle none).accountTokens cfg att.payload.taskId
                    tokenMeta.totalTokens none with ⟨after, breach⟩
                  rw [hres] at hsame
                  obtain ⟨total, tasks, hafter⟩ := hsame
                  subst hafter
                  cases breach with
                  | none => exact .done _ _ haborted (lastCard_publish_self rfl) id
                  | some breach =>
                      have hb := accountTokens_notStop (congrArg Prod.snd hres)
                      exact report_breach haborted hb rfl rfl

/-! ### Attempts of other tasks -/

/-- The card of the task stays, and the current task stays or is cleared. -/
structure Aside (taskId : JsString) (s s' : AgentStatePublisher) : Prop where
  spares : Spares taskId s s'
  clears : Clears s s'

theorem Aside.trans {a b c : AgentStatePublisher} (h : Aside taskId a b) (h' : Aside taskId b c) :
    Aside taskId a c := ⟨h.spares.trans h'.spares, h.clears.trans h'.clears⟩

theorem Aside.sameBoard (h : SameBoard s s') : Aside taskId s s' :=
  ⟨.sameBoard h, .sameBoard h⟩

theorem aside_idle (taskId : JsString) (s : AgentStatePublisher) :
    Aside taskId s (s.setCurrent .idle none) := ⟨.of_eq rfl rfl, .of_none rfl⟩

theorem aside_card {row : Option AgentState} {card : TaskCard} (hne : card.taskId ≠ taskId) :
    Aside taskId s (s.publish row (some card)) := by
  refine ⟨.publish s fun c hc => ?_, .of_eq rfl⟩
  rw [← Option.some.inj hc]
  exact hne

theorem aside_publishError (cfg : PublisherConfig) {other title : JsString}
    (hne : other ≠ taskId) : Aside taskId s (s.publishError cfg other title) :=
  aside_card hne

theorem aside_caught (cfg : PublisherConfig) {i : ℕ} {att : Attempt} {err : HandlerError}
    (hne : att.payload.taskId ≠ taskId) : Aside taskId s (s.caught cfg i att err).1 := by
  rcases caught_report cfg s i att err with
    ⟨e, t, -, hsame, heq⟩ | ⟨-, t, failure, hsame, -, heq⟩
  · rw [heq]
    exact (Aside.sameBoard hsame).trans ⟨.stopped cfg t hne, .stopped cfg t _⟩
  · rw [heq]
    refine (Aside.sameBoard hsame).trans ?_
    dsimp only
    split
    · unfold publishSupersededFailure
      split
      · exact ⟨.refl _ _, .refl _⟩
      · exact aside_card hne
    · exact (aside_publishError cfg hne).trans (aside_idle taskId _)

/-- **The end of an attempt leaves the other tasks alone.** -/
theorem aside_settled (cfg : PublisherConfig) {i : ℕ} {att : Attempt} {out : HandlerOutcome}
    (hne : att.payload.taskId ≠ taskId) : Aside taskId s (s.settled cfg i att out).1 := by
  cases out with
  | threw err => exact aside_caught cfg hne
  | returned r =>
      unfold settled
      dsimp only
      cases att.aborted with
      | some reason =>
          exact (Aside.sameBoard (sameBoard_countLateTokens cfg s _ r)).trans (aside_caught cfg hne)
      | none =>
          have hidle := aside_idle taskId s
          dsimp only
          cases r.display with
          | error e => exact hidle.trans (aside_caught cfg hne)
          | ok resultStr =>
              dsimp only
              cases r.tokenMeta with
              | none => exact hidle.trans (aside_card hne)
              | some tokenMeta =>
                  have hsame := sameBoard_accountTokens cfg (s.setCurrent .idle none)
                    att.payload.taskId tokenMeta.totalTokens none
                  dsimp only
                  rcases hres : (s.setCurrent .idle none).accountTokens cfg att.payload.taskId
                    tokenMeta.totalTokens none with ⟨after, breach⟩
                  rw [hres] at hsame
                  have hafter := hidle.trans (Aside.sameBoard hsame)
                  cases breach with
                  | none => exact hafter.trans (aside_card hne)
                  | some breach =>
                      exact (hafter.trans (aside_publishError cfg hne)).trans (aside_caught cfg hne)

theorem clears_settled (cfg : PublisherConfig) (s : AgentStatePublisher) (i : ℕ) (att : Attempt)
    (out : HandlerOutcome) : Clears s (s.settled cfg i att out).1 := by
  -- Some task has another id, and for that one the lemma says it.
  have hne : att.payload.taskId ≠ att.payload.taskId ++ js "x" := by simp [js]
  exact (aside_settled cfg hne).clears

/-! ### The call of the wrapper -/

/-- What a call of the wrapper leaves: the attempt is refused and the task blocked, or it
has begun and the task is shown as running. -/
inductive Invoked (s : AgentStatePublisher) (p : Payload) (title : JsString) :
    AgentStatePublisher → Prop
  | refused (t : AgentStatePublisher) (e : Thrown) (he : e.NotStop)
      (hcard : t.lastCard p.taskId = some .blocked)
      (hmark : t.Marked p.taskId → s.Marked p.taskId) (hcurrent : t.currentTaskId = none)
      (hatt : t.attempts (s.attemptSeq + 1) = some ⟨p, title, none, some (.threw e)⟩)
      (hmarks : t.stoppedTaskIds = s.stoppedTaskIds) :
      Invoked s p title t
  | begun (t : AgentStatePublisher) (hcard : t.lastCard p.taskId = some .doing)
      (hmark : ¬ t.Marked p.taskId) (hcurrent : t.currentTaskId = some p.taskId)
      (hatt : t.attempts (s.attemptSeq + 1) = some ⟨p, title, none, none⟩)
      (hmarks : t.stoppedTaskIds = s.stoppedTaskIds.erase p.taskId) :
      Invoked s p title t

theorem assertCapsNotMet_notStop {b : NonRetryableError}
    (h : s.assertCapsNotMet cfg taskId = some b) : b.isEmergencyStop = false := by
  unfold assertCapsNotMet at h
  split at h
  · rw [← Option.some.inj h]
    rfl
  · dsimp only at h
    split at h
    · rw [← Option.some.inj h]
      rfl
    · exact absurd h (by simp)

/-- A refused attempt ends in the `catch`, as the newest one. -/
theorem refused_report (cfg : PublisherConfig) (m : AgentStatePublisher) (p : Payload)
    (title : JsString) {b : NonRetryableError} (hb : b.isEmergencyStop = false) :
    ∃ t failure, SameBoard m t ∧ failure.NotStop ∧
      m.caught cfg m.attemptSeq ⟨p, title, none, none⟩ (.thrown (.nonRetryable b))
        = ((t.publishError cfg p.taskId title).setCurrent .idle none, failure) := by
  rcases caught_report cfg m m.attemptSeq ⟨p, title, none, none⟩ (.thrown (.nonRetryable b)) with
    ⟨e, t, he, -, -⟩ | ⟨-, t, failure, hsame, hnot, heq⟩
  · have hnone : emergencyStopOf none (.thrown (.nonRetryable b)) = none := by
      show (if b.isEmergencyStop = true then some b else none) = none
      rw [hb]
      rfl
    exact absurd (hnone.symm.trans he) (by simp)
  · rw [if_neg (fun hne => hne rfl)] at heq
    exact ⟨t, failure, hsame, hnot, heq⟩

theorem invoked_cases (cfg : PublisherConfig) (s : AgentStatePublisher) (p : Payload)
    (title : JsString) :
    Invoked s p title (s.invoked cfg p title) ∧
      (s.invoked cfg p title).attemptSeq = s.attemptSeq + 1 ∧
      (∀ i, i ≠ s.attemptSeq + 1 → (s.invoked cfg p title).attempts i = s.attempts i) ∧
      ∀ taskId, p.taskId ≠ taskId → Spares taskId s (s.invoked cfg p title) := by
  let m : AgentStatePublisher := { s with attemptSeq := s.attemptSeq + 1 }
  unfold invoked
  dsimp only
  split
  · rename_i b hb
    obtain ⟨t, failure, hsame, hnot, heq⟩ := refused_report cfg m p title
      (assertCapsNotMet_notStop hb)
    have heq' : m.caught cfg (s.attemptSeq + 1) ⟨p, title, none, none⟩ (.thrown (.nonRetryable b))
        = ((t.publishError cfg p.taskId title).setCurrent .idle none, failure) := heq
    rw [heq']
    obtain ⟨total, tasks, rfl⟩ := hsame
    refine ⟨.refused _ failure.seen hnot.seen ?_ id rfl (if_pos rfl) rfl, rfl,
      fun i hi => if_neg hi, fun taskId hne => ?_⟩
    · exact (lastCard_of_calls_eq rfl).trans (lastCard_publish_self (s := m) rfl)
    · have hboard : Aside taskId s { m with totalTokensUsed := total, taskTokensUsed := tasks } :=
        ⟨.of_eq rfl rfl, .of_eq rfl⟩
      exact ((hboard.trans (aside_publishError cfg hne)).trans (aside_idle taskId _)).spares.trans
        (.of_eq rfl rfl)
  · let a : AgentStatePublisher :=
      { m with stoppedTaskIds := m.stoppedTaskIds.erase p.taskId }.setCurrent .executing
        (some p.taskId)
    let b := a.publish (some (agentRow cfg .executing (some p.taskId)))
      (some (taskCard cfg p.taskId title .doing))
    have hcard : ∀ taskId, (b.publish (some (agentRow cfg .thinking (some p.taskId))) none).lastCard
        taskId = b.lastCard taskId := fun taskId => lastCard_publish_ne (by simp)
    refine ⟨.begun _ ?_ ?_ rfl (if_pos rfl) rfl, rfl, fun i hi => if_neg hi, fun taskId hne => ?_⟩
    · refine (lastCard_handler (b.publish _ none) (s.attemptSeq + 1)).trans ?_
      exact (hcard _).trans (lastCard_publish_self (s := a) rfl)
    · show ¬ ((s.stoppedTaskIds.erase p.taskId).get p.taskId).isSome = true
      rw [OrderedMap.get_erase_self]
      simp
    · refine ⟨?_, fun h => ?_⟩
      · refine (lastCard_handler (b.publish _ none) (s.attemptSeq + 1)).trans ?_
        refine (hcard _).trans ((aside_card (s := a) hne).spares.card.trans ?_)
        exact lastCard_of_calls_eq rfl
      · have h' : ((s.stoppedTaskIds.erase p.taskId).get taskId).isSome = true := h
        rwa [OrderedMap.get_erase_ne _ hne.symm] at h'

end AgentStatePublisher

end Kaiban
