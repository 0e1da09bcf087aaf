/-
The agent row belongs to the newest attempt.

An attempt that was given up may settle at any later time, when a newer attempt has the
agent.  It then reports a failure or a stop of its own task, and leaves the row and the
task of the newer attempt alone when the two have different ids.  When they have the same
id, because the task was sent again, an emergency stop of the old attempt is reported as
one of the new attempt.

What is proved is for which settlements the row is left alone, in every state that is
reached while attempts begin only once the earlier ones have ended or were given up.
-/
import Kaiban.Proofs.Publisher.Transitions

open JsString

namespace Kaiban.AgentStatePublisher

variable {cfg : PublisherConfig} {s s' : AgentStatePublisher}

/-- An attempt begins once every earlier one has ended or was given up. -/
def Serial (s : AgentStatePublisher) : PublisherEvent → Prop
  | .invoke _ => ∀ i att, s.attempts i = some att → att.ended = none → att.aborted ≠ none
  | _ => True

/-- The task the newest attempt is running. -/
def runningTask (s : AgentStatePublisher) : Option JsString :=
  (s.attempts s.attemptSeq).bind fun att =>
    if att.ended.isNone then some att.payload.taskId else none

/-- What was published since says nothing about the agent or the running task, and the
agent still has its status and its task. -/
structure LeavesRow (s s' : AgentStatePublisher) : Prop where
  published : ∀ d, .publish d ∈ s'.calls.drop s.calls.length →
    d.agents = none ∧ ∀ card, d.tasks = some card → s.runningTask ≠ some card.taskId
  status : s'.currentStatus = s.currentStatus
  taskId : s'.currentTaskId = s.currentTaskId

/-- An emergency stop ends the attempt: it aborted the signal, or the handler threw it. -/
def EndsStopped (att : Attempt) (out : HandlerOutcome) : Prop :=
  (emergencyAbort att.aborted).isSome = true ∨
    ∃ e : NonRetryableError, out = .threw (.thrown (.nonRetryable e)) ∧ e.isEmergencyStop = true

/-- The attempt has another task than the agent and the newest attempt; or it is ended by
a stop that is reported already; or by no stop, and the agent is on its task. -/
def Separate (s : AgentStatePublisher) (att : Attempt) (out : HandlerOutcome) : Prop :=
  (EndsStopped att out →
      s.currentTaskId = some att.payload.taskId ∨ s.runningTask = some att.payload.taskId →
      (s.stoppedTaskIds.get att.payload.taskId).isSome = true) ∧
    (¬ EndsStopped att out → s.runningTask = some att.payload.taskId →
      s.currentTaskId = some att.payload.taskId)

/-! ### Runs in which attempts come one after the other -/

/-- The attempts are numbered, and each but the newest has ended or was given up. -/
structure GivenUp (s : AgentStatePublisher) : Prop where
  numbered : ∀ i att, s.attempts i = some att → i ≤ s.attemptSeq
  titled : ∀ i att, s.attempts i = some att → taskTitle att.payload = some att.title
  aborted : ∀ i att, s.attempts i = some att → i < s.attemptSeq → att.ended = none →
    att.aborted ≠ none

theorem givenUp_init : GivenUp init :=
  ⟨fun _ _ h => absurd h (by simp [init]), fun _ _ h => absurd h (by simp [init]),
    fun _ _ h => absurd h (by simp [init])⟩

theorem GivenUp.publishes (h : GivenUp s) (hp : Publishes s s') : GivenUp s' := by
  refine ⟨fun i att hi => ?_, fun i att hi => ?_, fun i att hi hlt => ?_⟩
  · rw [hp.attemptSeq]
    exact h.numbered i att (hp.attempts ▸ hi)
  · exact h.titled i att (hp.attempts ▸ hi)
  · rw [hp.attemptSeq] at hlt
    exact h.aborted i att (hp.attempts ▸ hi) hlt

/-- An attempt that is there keeps its number when its signal or its end is set. -/
theorem GivenUp.set (h : GivenUp s) {i : ℕ} {att att' : Attempt} (hatt : s.attempts i = some att)
    (hpayload : att'.payload = att.payload) (htitle : att'.title = att.title)
    (hopen : att'.ended = none → att.ended = none)
    (haborted : att.aborted ≠ none → att'.aborted ≠ none) :
    GivenUp (s.setAttempt i att') := by
  have hcases : ∀ j a, (s.setAttempt i att').attempts j = some a →
      (j = i ∧ a = att') ∨ s.attempts j = some a := by
    intro j a hj
    have hj' : (if j = i then some att' else s.attempts j) = some a := hj
    by_cases hji : j = i
    · rw [if_pos hji] at hj'
      exact .inl ⟨hji, (Option.some.inj hj').symm⟩
    · rw [if_neg hji] at hj'
      exact .inr hj'
  refine ⟨fun j a hj => ?_, fun j a hj => ?_, fun j a hj hlt hended => ?_⟩
  · rcases hcases j a hj with ⟨rfl, -⟩ | hold
    · exact h.numbered j att hatt
    · exact h.numbered j a hold
  · rcases hcases j a hj with ⟨-, rfl⟩ | hold
    · rw [hpayload, htitle]
      exact h.titled i att hatt
    · exact h.titled j a hold
  · rcases hcases j a hj with ⟨rfl, rfl⟩ | hold
    · exact haborted (h.aborted j att hatt hlt (hopen hended))
    · exact h.aborted j a hold hlt hended

/-- A new attempt is the newest. -/
theorem GivenUp.next (h : GivenUp s) {p : Payload} {title : JsString}
    (htitle : taskTitle p = some title) {t : AgentStatePublisher} {att : Attempt}
    (hseq : t.attemptSeq = s.attemptSeq + 1) (hattempts : t.attempts = s.attempts)
    (hpayload : att.payload = p) (hatt : att.title = title)
    (hserial : ∀ i a, s.attempts i = some a → a.ended = none → a.aborted ≠ none) :
    GivenUp (t.setAttempt (s.attemptSeq + 1) att) := by
  have hcases : ∀ j a, (t.setAttempt (s.attemptSeq + 1) att).attempts j = some a →
      (j = s.attemptSeq + 1 ∧ a = att) ∨ s.attempts j = some a := by
    intro j a hj
    have hj' : (if j = s.attemptSeq + 1 then some att else t.attempts j) = some a := hj
    by_cases hji : j = s.attemptSeq + 1
    · rw [if_pos hji] at hj'
      exact .inl ⟨hji, (Option.some.inj hj').symm⟩
    · rw [if_neg hji, hattempts] at hj'
      exact .inr hj'
  refine ⟨fun j a hj => ?_, fun j a hj => ?_, fun j a hj hlt hended => ?_⟩
  · show j ≤ t.attemptSeq
    rw [hseq]
    rcases hcases j a hj with ⟨rfl, -⟩ | hold
    · exact le_rfl
    · exact (h.numbered j a hold).trans (Nat.le_succ _)
  · rcases hcases j a hj with ⟨-, rfl⟩ | hold
    · rw [hpayload, hatt]
      exact htitle
    · exact h.titled j a hold
  · have hlt' : j < t.attemptSeq := hlt
    rw [hseq] at hlt'
    rcases hcases j a hj with ⟨rfl, -⟩ | hold
    · exact absurd hlt' (lt_irrefl _)
    · exact hserial j a hold hended

theorem givenUp_step {e : PublisherEvent} (h : GivenUp s) (hserial : Serial s e)
    (hstep : step cfg s e = some s') : GivenUp s' := by
  cases e with
  | invoke p =>
      simp only [step] at hstep
      split at hstep
      · exact Option.some.inj hstep ▸ h
      · rename_i title htitle
        rw [← Option.some.inj hstep]
        unfold invoked
        dsimp only
        split
        · rename_i breach _
          have hp := Publishes.caught cfg { s with attemptSeq := s.attemptSeq + 1 }
            (s.attemptSeq + 1) ⟨p, title, none, none⟩ (.thrown (.nonRetryable breach))
          exact h.next htitle hp.attemptSeq hp.attempts rfl rfl hserial
        · exact h.next htitle rfl rfl rfl rfl hserial
  | abort i reason =>
      obtain ⟨att, hatt, rfl⟩ := Option.map_eq_some_iff.mp hstep
      refine h.set hatt rfl rfl id fun hne hnone => ?_
      cases haborted : att.aborted with
      | none => exact hne haborted
      | some r =>
          rw [haborted] at hnone
          exact absurd hnone (by simp)
  | settles i out =>
      obtain ⟨att, hatt, hended, rfl⟩ := step_settles hstep
      have hp := Publishes.settled cfg s i att out
      have hatt' : (s.settled cfg i att out).1.attempts i = some att := by
        rw [hp.attempts]
        exact hatt
      exact (h.publishes hp).set hatt' rfl rfl (fun _ => hended) id
  | publishStopped p =>
      rw [← Option.some.inj hstep]
      exact h.publishes (Publishes.stopped cfg s p)
  | publishIdle =>
      rw [← Option.some.inj hstep]
      exact h.publishes (Publishes.idle s)
  | heartbeat =>
      rw [← Option.some.inj hstep]
      exact h.publishes (Publishes.delta _ _ _)

/-! ### What a superseded attempt reports -/

/-- Only the tallies differ. -/
def SameBoard (s t : AgentStatePublisher) : Prop :=
  ∃ total tasks, t = { s with totalTokensUsed := total, taskTokensUsed := tasks }

theorem sameBoard_accountTokens (cfg : PublisherConfig) (s : AgentStatePublisher)
    (taskId : JsString) (u : Amount)
    (detail : Option JsString) : SameBoard s (s.accountTokens cfg taskId u detail).1 := by
  unfold accountTokens
  dsimp only
  split
  · exact ⟨_, _, rfl⟩
  · split <;> exact ⟨_, _, rfl⟩

theorem sameBoard_accountFailedAttempt (cfg : PublisherConfig) (s : AgentStatePublisher)
    (taskId : JsString)
    (err : HandlerError) : SameBoard s (s.accountFailedAttempt cfg taskId err).1 := by
  cases err with
  | thrown e => exact ⟨_, _, rfl⟩
  | failedAttempt message usage =>
      have h := sameBoard_accountTokens cfg s taskId usage.tokens
        (some (js "failed attempt: " ++ message))
      unfold accountFailedAttempt
      dsimp only
      rcases hres : s.accountTokens cfg taskId usage.tokens
        (some (js "failed attempt: " ++ message)) with ⟨after, breach⟩
      rw [hres] at h
      cases breach <;> exact h

theorem sameBoard_countLateTokens (cfg : PublisherConfig) (s : AgentStatePublisher)
    (taskId : JsString)
    (r : HandlerResult) : SameBoard s (s.countLateTokens cfg taskId r) := by
  unfold countLateTokens
  split
  · exact ⟨_, _, rfl⟩
  · exact sameBoard_accountTokens cfg s _ _ _

theorem SameBoard.trans {a b c : AgentStatePublisher} (h : SameBoard a b) (h' : SameBoard b c) :
    SameBoard a c := by
  obtain ⟨_, _, rfl⟩ := h
  obtain ⟨total, tasks, rfl⟩ := h'
  exact ⟨total, tasks, rfl⟩

/-- The `catch` of a superseded attempt reports the stop that ended it, or its failure. -/
theorem caught_superseded (cfg : PublisherConfig) {i : ℕ} (hne : i ≠ s.attemptSeq) (att : Attempt)
    (err : HandlerError) :
    ∃ t, SameBoard s t ∧ (s.caught cfg i att err).1 =
      if (emergencyStopOf att.aborted err).isSome then t.publishStopped cfg att.payload
      else t.publishSupersededFailure cfg att.payload.taskId att.title := by
  have hsame := sameBoard_accountFailedAttempt cfg s att.payload.taskId err
  refine ⟨_, hsame, ?_⟩
  unfold caught endedByEmergencyStop
  cases emergencyStopOf att.aborted err with
  | some stop => rfl
  | none =>
      dsimp only [Option.map_none]
      rcases hres : s.accountFailedAttempt cfg att.payload.taskId err with ⟨after, failure⟩
      rw [hres] at hsame
      obtain ⟨total, tasks, rfl⟩ := hsame
      dsimp only
      rw [if_pos hne]
      rfl

theorem emergencyStopOf_isSome (aborted : Option NonRetryableError) (err : HandlerError) :
    (emergencyStopOf aborted err).isSome = true ↔ (emergencyAbort aborted).isSome = true ∨
      ∃ e : NonRetryableError, err = .thrown (.nonRetryable e) ∧ e.isEmergencyStop = true := by
  have hother : (∀ e : NonRetryableError, err ≠ .thrown (.nonRetryable e)) →
      (emergencyStopOf aborted err = emergencyAbort aborted) → ((emergencyStopOf aborted err).isSome
        = true ↔ (emergencyAbort aborted).isSome = true ∨
          ∃ e : NonRetryableError, err = .thrown (.nonRetryable e) ∧ e.isEmergencyStop = true) := by
    intro hne heq
    rw [heq]
    exact ⟨.inl, fun h => h.elim id fun ⟨e, he, _⟩ => absurd he (hne e)⟩
  cases err with
  | failedAttempt message usage => exact hother (fun e => by simp) rfl
  | thrown thrown =>
      cases thrown with
      | error message => exact hother (fun e => by simp) rfl
      | other text => exact hother (fun e => by simp) rfl
      | nonRetryable e =>
          show (if e.isEmergencyStop = true then some e else emergencyAbort aborted).isSome = true
            ↔ _
          by_cases he : e.isEmergencyStop = true
          · rw [if_pos he]
            exact ⟨fun _ => .inr ⟨e, rfl, he⟩, fun _ => rfl⟩
          · rw [if_neg he]
            refine ⟨.inl, fun h => h.elim id ?_⟩
            rintro ⟨e', heq, he'⟩
            obtain rfl : e = e' := by simpa using heq
            exact absurd he' he

/-- A late result is rejected with the reason of the signal, which is a stop or is none. -/
theorem lateError_stop {att : Attempt} {reason : NonRetryableError}
    (haborted : att.aborted = some reason) (r : HandlerResult) :
    (emergencyStopOf att.aborted
        (.thrown (.nonRetryable ((emergencyAbort att.aborted).getD reason)))).isSome = true
      ↔ EndsStopped att (.returned r) := by
  rw [emergencyStopOf_isSome]
  unfold EndsStopped
  rw [haborted]
  constructor
  · rintro (h | ⟨e, he, hstop⟩)
    · exact .inl h
    · refine .inl ?_
      by_cases hreason : reason.isEmergencyStop = true
      · simp [emergencyAbort, hreason]
      · have hnone : emergencyAbort (some reason) = none := by
          simp [emergencyAbort, hreason]
        rw [hnone] at he
        obtain rfl : reason = e := by simpa using he
        exact absurd hstop hreason
  · rintro (h | ⟨e, he, -⟩)
    · exact .inl h
    · exact absurd he (by simp)

/-- **A superseded attempt reports its stop or its failure**, and does nothing else. -/
theorem settled_superseded (cfg : PublisherConfig) {i : ℕ} (hne : i ≠ s.attemptSeq) {att : Attempt}
    (haborted : att.aborted ≠ none) (out : HandlerOutcome) :
    ∃ t, SameBoard s t ∧
      (EndsStopped att out → (s.settled cfg i att out).1 = t.publishStopped cfg att.payload) ∧
      (¬ EndsStopped att out → (s.settled cfg i att out).1
        = t.publishSupersededFailure cfg att.payload.taskId att.title) := by
  -- Either way the attempt ends in the `catch`, with some error.
  have hcaught : ∃ (m : AgentStatePublisher) (err : HandlerError), SameBoard s m ∧
      (s.settled cfg i att out).1 = (m.caught cfg i att err).1 ∧
      ((emergencyStopOf att.aborted err).isSome = true ↔ EndsStopped att out) := by
    cases out with
    | threw err =>
        refine ⟨s, err, ⟨_, _, rfl⟩, rfl, (emergencyStopOf_isSome _ _).trans ?_⟩
        unfold EndsStopped
        simp
    | returned r =>
        cases hreason : att.aborted with
        | none => exact absurd hreason haborted
        | some reason =>
            refine ⟨s.countLateTokens cfg att.payload.taskId r,
              .thrown (.nonRetryable ((emergencyAbort att.aborted).getD reason)),
              sameBoard_countLateTokens cfg s _ r, ?_, ?_⟩
            · unfold settled
              dsimp only
              rw [hreason]
            · rw [← hreason]
              exact lateError_stop hreason r
  obtain ⟨m, err, hsame, heq, hiff⟩ := hcaught
  have hne' : i ≠ m.attemptSeq := by
    obtain ⟨_, _, rfl⟩ := hsame
    exact hne
  obtain ⟨t, hsame', hres⟩ := caught_superseded cfg hne' att err
  refine ⟨t, hsame.trans hsame', fun hstop => ?_, fun hnot => ?_⟩
  · rw [heq, hres, if_pos (hiff.mpr hstop)]
  · rw [heq, hres, if_neg fun h => hnot (hiff.mp h)]

/-! ### When the row is left alone -/

theorem leavesRow_of_calls_eq (hcalls : s'.calls = s.calls)
    (hstatus : s'.currentStatus = s.currentStatus) (htask : s'.currentTaskId = s.currentTaskId) :
    LeavesRow s s' := by
  refine ⟨fun d hd => ?_, hstatus, htask⟩
  rw [hcalls, List.drop_length] at hd
  exact absurd hd (by simp)

theorem leavesRow_of_published {d : PublisherDelta} (hcalls : s'.calls = s.calls ++ [.publish d]) :
    LeavesRow s s' ↔
      (d.agents = none ∧ ∀ card, d.tasks = some card → s.runningTask ≠ some card.taskId) ∧
        s'.currentStatus = s.currentStatus ∧ s'.currentTaskId = s.currentTaskId := by
  have hmem : ∀ x, PublisherCall.publish x ∈ s'.calls.drop s.calls.length ↔ x = d := by
    intro x
    rw [hcalls, List.drop_left, List.mem_singleton]
    exact ⟨fun h => PublisherCall.publish.inj h, fun h => by rw [h]⟩
  constructor
  · intro h
    exact ⟨h.published d ((hmem d).mpr rfl), h.status, h.taskId⟩
  · rintro ⟨hd, hstatus, htask⟩
    refine ⟨fun x hx => ?_, hstatus, htask⟩
    rw [(hmem x).mp hx]
    exact hd

/-- A card of a task leaves the row alone when the newest attempt is not running it. -/
theorem leavesRow_card (card : TaskCard)
    (hcalls : s'.calls = s.calls ++ [.publish ⟨none, some card⟩])
    (hstatus : s'.currentStatus = s.currentStatus) (htask : s'.currentTaskId = s.currentTaskId) :
    LeavesRow s s' ↔ s.runningTask ≠ some card.taskId := by
  rw [leavesRow_of_published hcalls]
  constructor
  · intro h
    exact h.1.2 card rfl
  · intro h
    exact ⟨⟨rfl, fun c hc => by rwa [← Option.some.inj hc]⟩, hstatus, htask⟩

/-- A stop leaves the row alone when it is reported already, or neither the agent nor the
newest attempt is on its task. -/
theorem leavesRow_stopped {t : AgentStatePublisher} (hsame : SameBoard s t) {p : Payload}
    {title : JsString} (htitle : taskTitle p = some title) :
    LeavesRow s (t.publishStopped cfg p) ↔
      (s.currentTaskId = some p.taskId ∨ s.runningTask = some p.taskId →
        (s.stoppedTaskIds.get p.taskId).isSome = true) := by
  obtain ⟨total, tasks, rfl⟩ := hsame
  unfold publishStopped markStopped
  dsimp only
  cases hmark : s.stoppedTaskIds.get p.taskId with
  | some u =>
      exact ⟨fun _ _ => rfl, fun _ => leavesRow_of_calls_eq rfl rfl rfl⟩
  | none =>
      dsimp only
      rw [htitle]
      dsimp only
      by_cases hcurrent : s.currentTaskId = some p.taskId
      · rw [if_neg (by simpa using hcurrent)]
        constructor
        · intro h
          have hrow := (leavesRow_of_published rfl).mp h
          exact absurd hrow.1.1 (by simp)
        · intro h
          exact absurd (h (.inl hcurrent)) (by simp)
      · rw [if_pos hcurrent]
        refine Iff.trans (leavesRow_card (taskCard cfg p.taskId title .stopped) ?_ ?_ ?_) ?_
        · rfl
        · rfl
        · rfl
        constructor
        · rintro hrunning (h | h)
          · exact absurd h hcurrent
          · exact absurd h hrunning
        · intro h hrunning
          exact absurd (h (.inr hrunning)) (by simp)

/-- A failure leaves the row alone when the agent is on its task, or the newest attempt is
not. -/
theorem leavesRow_superseded {t : AgentStatePublisher} (hsame : SameBoard s t)
    (taskId title : JsString) :
    LeavesRow s (t.publishSupersededFailure cfg taskId title) ↔
      (s.runningTask = some taskId → s.currentTaskId = some taskId) := by
  obtain ⟨total, tasks, rfl⟩ := hsame
  unfold publishSupersededFailure
  dsimp only
  by_cases hcurrent : some taskId = s.currentTaskId
  · rw [if_pos hcurrent]
    exact ⟨fun _ _ => hcurrent.symm, fun _ => leavesRow_of_calls_eq rfl rfl rfl⟩
  · rw [if_neg hcurrent]
    refine Iff.trans (leavesRow_card (taskCard cfg taskId title .blocked) ?_ ?_ ?_) ?_
    · rfl
    · rfl
    · rfl
    exact ⟨fun hrunning h => absurd h hrunning, fun h hrunning => hcurrent (h hrunning).symm⟩

/-- **A superseded attempt leaves the row of the newest attempt alone exactly when it is
separate from it**, whatever came before. -/
theorem row_left_alone_iff {es : List PublisherEvent}
    (hserial : Steps.Along (step cfg) Serial init es)
    (hrun : Steps.run (step cfg) init es = some s) {i : ℕ} {att : Attempt} {out : HandlerOutcome}
    (hatt : s.attempts i = some att) (hold : i < s.attemptSeq)
    (hstep : step cfg s (.settles i out) = some s') :
    LeavesRow s s' ↔ Separate s att out := by
  have hgiven : GivenUp s :=
    Steps.run_invariant (fun _ _ _ h hs hstep => givenUp_step h hs hstep) givenUp_init hserial hrun
  obtain ⟨att', hatt', hended, rfl⟩ := step_settles hstep
  obtain rfl : att = att' := Option.some.inj (hatt.symm.trans hatt')
  obtain ⟨t, hsame, hstopped, hfailed⟩ := settled_superseded cfg hold.ne
    (hgiven.aborted i att hatt hold hended) out
  have hleaves : LeavesRow s ((s.settled cfg i att out).1.setAttempt i
      { att with ended := some (s.settled cfg i att out).2 })
      ↔ LeavesRow s (s.settled cfg i att out).1 :=
    ⟨fun h => ⟨h.published, h.status, h.taskId⟩, fun h => ⟨h.published, h.status, h.taskId⟩⟩
  rw [hleaves]
  unfold Separate
  by_cases hends : EndsStopped att out
  · rw [hstopped hends, leavesRow_stopped hsame (hgiven.titled i att hatt)]
    exact ⟨fun h => ⟨fun _ => h, fun hnot => absurd hends hnot⟩, fun h => h.1 hends⟩
  · rw [hfailed hends, leavesRow_superseded hsame]
    exact ⟨fun h => ⟨fun hends' => absurd hends' hends, fun _ => h⟩, fun h => h.2 hends⟩

/-! ### A task that is sent again after its stop -/

/-- No caps. -/
def uncapped : PublisherConfig := ⟨⟨js "writer", js "Writer", js "author"⟩, none, none⟩

def firstTask : Payload := ⟨js "task-1", js "writer", [], .nan⟩

def secondTask : Payload := ⟨js "task-2", js "writer", [], .nan⟩

def lateFailure : HandlerOutcome := .threw (.thrown (.error (js "late")))

/-- A running task is stopped, and a task is sent. -/
def stoppedEvents (p : Payload) : List PublisherEvent :=
  [.invoke firstTask, .abort 1 emergencyStopError, .publishStopped firstTask, .invoke p]

theorem serial_stopped (p : Payload) :
    Steps.Along (step uncapped) Serial init (stoppedEvents p) := by
  refine ⟨fun i att hi => absurd hi (by simp [init]), fun a ha => ⟨trivial, fun b hb =>
    ⟨trivial, fun c hc => ⟨fun i att hi _ hnone => ?_, fun _ _ => trivial⟩⟩⟩⟩
  obtain rfl := Option.some.inj ha
  obtain rfl := Option.some.inj hb
  obtain rfl := Option.some.inj hc
  have hi' : (if i = 1 then some (Attempt.mk firstTask (firstTask.taskId.take 60)
      (some emergencyStopError) none) else if i = 1 then some _ else none) = some att := hi
  by_cases h1 : i = 1
  · rw [if_pos h1] at hi'
    rw [← Option.some.inj hi'] at hnone
    exact absurd hnone (by simp)
  · rw [if_neg h1, if_neg h1] at hi'
    exact absurd hi' (by simp)

/-- The handler of a stopped task fails while another task is running. -/
theorem row_left_alone_other :
    ∃ s s' att, Steps.run (step uncapped) init (stoppedEvents secondTask) = some s ∧
      step uncapped s (.settles 1 lateFailure) = some s' ∧
      (LeavesRow s s' ↔ Separate s att lateFailure) ∧ Separate s att lateFailure := by
  have hrun : Steps.run (step uncapped) init (stoppedEvents secondTask) = some _ := rfl
  have hiff := row_left_alone_iff (serial_stopped secondTask) hrun (i := 1) rfl
    (show 1 < 2 by decide) (show step uncapped _ (.settles 1 lateFailure) = some _ from rfl)
  exact ⟨_, _, _, hrun, rfl, hiff, fun _ h => h.elim (fun h => absurd h (by decide))
    fun h => absurd h (by decide), fun _ h => absurd h (by decide)⟩

/-- **A stopped task is sent again, and the handler of its first attempt settles**: the
agent is shown as idle, and the running task as stopped. -/
theorem replayed_stop_takes_row :
    ∃ s s', Steps.Along (step uncapped) Serial init (stoppedEvents firstTask) ∧
      Steps.run (step uncapped) init (stoppedEvents firstTask) = some s ∧
      1 < s.attemptSeq ∧ step uncapped s (.settles 1 lateFailure) = some s' ∧
      ¬ LeavesRow s s' := by
  refine ⟨_, _, serial_stopped _, rfl, show 1 < 2 by decide, rfl, ?_⟩
  intro h
  exact absurd h.taskId (by decide)

end Kaiban.AgentStatePublisher
