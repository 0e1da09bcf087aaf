/-
A failed Kafka subscribe, and whether it can be retried.

The driver names its topic before it starts the consumer, so a start that fails leaves the
topic named and every later `subscribe` refused.  A router that retries is served by its
driver exactly as long as no start has failed: `Fits` is what holds until then and `Stuck`
what holds for ever after.
-/
import Kaiban.Proofs.Subscriptions

open JsString

namespace Kaiban

/-! ### The driver -/

namespace KafkaDriver

/-- A `subscribe` that a call of the consumer makes fail leaves the driver such that another
one is not refused, and succeeds if its calls do. -/
def Retriable (d : KafkaDriver) (topic : JsString) (failure : ConsumerCall → Option JsString) :
    Prop :=
  ∀ call message, (d.subscribe topic failure).1 = .error (.consumer call message) →
    (∀ failure', ((d.subscribe topic failure).2.subscribe topic failure').1
      ≠ .error .singleTopic) ∧
    ((d.subscribe topic failure).2.subscribe topic fun _ => none).1 = .ok ()

/-- The driver gets as far as the last call, and this fails. -/
def FailsToRun (d : KafkaDriver) (failure : ConsumerCall → Option JsString) : Prop :=
  d.subscribedTopic = none ∧ failure .connect = none ∧ failure .subscribe = none ∧
    failure .run ≠ none

/-- A driver without a topic does not refuse. -/
theorem not_refused_of_free {d : KafkaDriver} (h : d.subscribedTopic = none) (topic : JsString)
    (failure : ConsumerCall → Option JsString) :
    (d.subscribe topic failure).1 ≠ .error .singleTopic := by
  unfold subscribe
  rw [if_neg (not_not.mpr h)]
  split
  · simp
  · split
    · simp
    · split <;> simp

theorem subscribe_succeeds {d : KafkaDriver} (h : d.subscribedTopic = none) (topic : JsString) :
    (d.subscribe topic fun _ => none).1 = .ok () := by
  unfold subscribe
  rw [if_neg (not_not.mpr h)]

theorem subscribe_refused {d : KafkaDriver} (h : d.subscribedTopic ≠ none) (topic : JsString)
    (failure : ConsumerCall → Option JsString) :
    d.subscribe topic failure = (.error .singleTopic, d) := if_pos h

theorem subscribe_free {d : KafkaDriver} {topic : JsString}
    {failure : ConsumerCall → Option JsString} {call : ConsumerCall} {message : JsString}
    (h : (d.subscribe topic failure).1 = .error (.consumer call message))
    (hrun : ¬ d.FailsToRun failure) : (d.subscribe topic failure).2.subscribedTopic = none := by
  have hfree : d.subscribedTopic = none := by
    by_contra hnot
    rw [subscribe_refused hnot] at h
    exact absurd h (by simp)
  unfold subscribe at h ⊢
  rw [if_neg (not_not.mpr hfree)] at h ⊢
  cases hconnect : failure .connect with
  | some m => exact hfree
  | none =>
      rw [hconnect] at h
      cases hsubscribe : failure .subscribe with
      | some m => exact hfree
      | none =>
          rw [hsubscribe] at h
          cases hlast : failure .run with
          | none =>
              rw [hlast] at h
              exact absurd h (by simp)
          | some m => exact absurd ⟨hfree, hconnect, hsubscribe, by simp [hlast]⟩ hrun

/-- **A failed subscribe can be retried exactly if it was not the last call that failed.** -/
theorem retriable_iff (d : KafkaDriver) (topic : JsString)
    (failure : ConsumerCall → Option JsString) :
    d.Retriable topic failure ↔ ¬ d.FailsToRun failure := by
  constructor
  · rintro h ⟨hfree, hconnect, hsubscribe, hrun⟩
    obtain ⟨message, hmessage⟩ := Option.ne_none_iff_exists'.mp hrun
    have hresult : d.subscribe topic failure = (.error (.consumer .run message),
        ((d.succeeded topic .connect).1.succeeded topic .subscribe).1) := by
      unfold subscribe
      rw [if_neg (not_not.mpr hfree), hconnect, hsubscribe, hmessage]
    have hretry := (h .run message (by rw [hresult])).2
    rw [hresult, subscribe_refused (by simp [succeeded])] at hretry
    exact absurd hretry (by simp)
  · intro hrun call message h
    have hfree := subscribe_free h hrun
    exact ⟨not_refused_of_free hfree topic, subscribe_succeeds hfree topic⟩

end KafkaDriver

/-! ### What an event does to a channel -/

namespace KafkaRouter

variable {s s' : KafkaRouter} {q : Queue}

/-- What an event does to a queue's flag and channel. -/
inductive Moves (q : Queue) (s : KafkaRouter) (e : KafkaEvent) (s' : KafkaRouter) : Prop where
  | stays (hflag : s'.router.subscribed q = s.router.subscribed q)
      (hchannel : s'.channels q = s.channels q)
      (hother : ∀ failure, e ≠ .answered q failure)
  | begins (hbefore : s.router.subscribed q = false) (hflag : s'.router.subscribed q = true)
      (hchannel : s'.channels q = (s.channels q).begin)
      (hother : ∀ failure, e ≠ .answered q failure)
  | proceeds (call : ConsumerCall) (hcall : (s.channels q).call = some (.awaits call))
      (he : e = .answered q none) (hrouter : s'.router = s.router)
      (hchannel : s'.channels q = (s.channels q).proceed q.name call)
  | fails (call : ConsumerCall) (message : JsString)
      (hcall : (s.channels q).call = some (.awaits call))
      (he : e = .answered q (some message)) (hflag : s'.router.subscribed q = false)
      (hchannel : s'.channels q = { s.channels q with call := none })
  | refused (hcall : (s.channels q).call = some .refused) (he : e = .refused q)
      (hflag : s'.router.subscribed q = false)
      (hchannel : s'.channels q = { s.channels q with call := none })

theorem withRouter_moves {r : Router} {e : KafkaEvent}
    (h : r.subscribed = s.router.subscribed ∨ ∀ q, r.subscribed q = true) (q : Queue)
    (he : ∀ failure, e ≠ .answered q failure) : Moves q s e (s.withRouter r) := by
  by_cases hsame : r.subscribed q = s.router.subscribed q
  · refine .stays hsame ?_ he
    unfold withRouter
    dsimp only
    rw [hsame, Bool.not_and_self, if_neg Bool.false_ne_true]
  · have hflag : r.subscribed q = true := by
      rcases h with h | h
      · exact absurd (congrFun h q) hsame
      · exact h q
    have hbefore : s.router.subscribed q = false := by
      rw [hflag] at hsame
      exact (Bool.eq_false_or_eq_true _).resolve_left fun h => hsame h.symm
    refine .begins hbefore hflag ?_ he
    unfold withRouter
    dsimp only
    rw [hflag, hbefore, Bool.not_false, Bool.and_self, if_pos rfl]

theorem rejected_spec {x : Queue} {message : JsString}
    (h : s.rejected x message = some s') :
    (∀ q, s'.router.subscribed q = if q = x then false else s.router.subscribed q) ∧
      ∀ q, s'.channels q = if q = x then { s.channels x with call := none } else s.channels q := by
  unfold rejected at h
  obtain ⟨r, hr, rfl⟩ := Option.map_eq_some_iff.mp h
  exact ⟨Router.subscribed_rejected hr, fun q => rfl⟩

theorem step_answered (s : KafkaRouter) (q : Queue) (failure : Option JsString) :
    step s (.answered q failure) = match (s.channels q).call, failure with
      | some (.awaits call), none => some (s.setChannel q ((s.channels q).proceed q.name call))
      | some (.awaits _), some message => s.rejected q message
      | _, _ => none := rfl

/-- **What a step does to a channel**, case by case. -/
theorem channel_moves {e : KafkaEvent} (h : step s e = some s') (q : Queue) :
    Moves q s e s' := by
  have hrouter {r : Router} (he : ∀ failure, e ≠ .answered q failure)
      (hr : r.subscribed = s.router.subscribed) : Moves q s e (s.withRouter r) :=
    withRouter_moves (.inl hr) q he
  cases e with
  | wait w wt =>
      obtain ⟨r, hr, rfl⟩ := Option.map_eq_some_iff.mp h
      exact withRouter_moves (Router.subscribed_wait hr) q (by simp)
  | timer w =>
      obtain ⟨r, hr, rfl⟩ := Option.map_eq_some_iff.mp h
      exact hrouter (by simp) (Router.subscribed_timer hr)
  | abort sig reason =>
      obtain ⟨r, hr, rfl⟩ := Option.map_eq_some_iff.mp h
      refine hrouter (by simp) ?_
      rw [Router.step] at hr
      split at hr
      · exact absurd hr (by simp)
      · obtain rfl := Option.some.inj hr
        exact Router.subscribed_abort _ _ _
  | message x taskId data =>
      rw [step] at h
      split at h
      · obtain ⟨r, hr, rfl⟩ := Option.map_eq_some_iff.mp h
        exact hrouter (by simp) (Router.subscribed_handled hr)
      · exact absurd h (by simp)
  | answered x failure =>
      by_cases hq : q = x
      · subst hq
        rw [step_answered] at h
        cases hcall : (s.channels q).call with
        | none =>
            simp only [hcall] at h
            exact absurd h (by simp)
        | some call =>
            cases call with
            | refused =>
                simp only [hcall] at h
                exact absurd h (by simp)
            | awaits call =>
                simp only [hcall] at h
                cases failure with
                | none =>
                    obtain rfl := Option.some.inj h
                    exact .proceeds call hcall rfl rfl (if_pos rfl)
                | some message =>
                    obtain ⟨hflags, hchannels⟩ := rejected_spec h
                    exact .fails call message hcall rfl ((hflags q).trans (if_pos rfl))
                      ((hchannels q).trans (if_pos rfl))
      · have hother : ∀ failure', KafkaEvent.answered x failure ≠ .answered q failure' := by
          intro failure' heq
          exact hq (KafkaEvent.answered.inj heq).1.symm
        rw [step_answered] at h
        split at h
        · obtain rfl := Option.some.inj h
          exact .stays rfl (if_neg hq) hother
        · obtain ⟨hflags, hchannels⟩ := rejected_spec h
          exact .stays ((hflags q).trans (if_neg hq)) ((hchannels q).trans (if_neg hq)) hother
        · exact absurd h (by simp)
  | refused x =>
      rw [step] at h
      split at h
      · rename_i hcall
        obtain ⟨hflags, hchannels⟩ := rejected_spec h
        by_cases hq : q = x
        · subst hq
          exact .refused hcall rfl ((hflags q).trans (if_pos rfl))
            ((hchannels q).trans (if_pos rfl))
        · exact .stays ((hflags q).trans (if_neg hq)) ((hchannels q).trans (if_neg hq)) (by simp)
      · exact absurd h (by simp)

/-! ### Before and after a start that fails -/

/-- The event is not a failure of the last call for a queue. -/
def Runs (q : Queue) (s : KafkaRouter) (e : KafkaEvent) : Prop :=
  ∀ message, e = .answered q (some message) → (s.channels q).call ≠ some (.awaits .run)

/-- The router waits for the driver exactly while this is subscribing or running, and the
driver has a topic only when it is nearly there. -/
structure Fits (q : Queue) (s : KafkaRouter) : Prop where
  flagged : s.router.subscribed q = ((s.channels q).call.isSome || (s.channels q).running)
  free : (s.channels q).driver.subscribedTopic ≠ none →
    (s.channels q).running = true ∨ (s.channels q).call = some (.awaits .run)
  named : (s.channels q).call = some (.awaits .run) →
    (s.channels q).driver.subscribedTopic ≠ none
  accepted : (s.channels q).call ≠ some .refused
  apart : (s.channels q).running = true → (s.channels q).call = none

/-- The driver has a topic and does not run. -/
structure Stuck (q : Queue) (s : KafkaRouter) : Prop where
  topic : (s.channels q).driver.subscribedTopic ≠ none
  idle : (s.channels q).running = false
  flagged : s.router.subscribed q = (s.channels q).call.isSome
  call : (s.channels q).call = none ∨ (s.channels q).call = some .refused

theorem fits_init (q : Queue) : Fits q init := by
  refine ⟨?_, ?_, ?_, ?_, ?_⟩ <;> cases q <;> simp [init, QueueChannel.init, KafkaDriver.init,
    Router.subscribed, Router.init]

theorem fits_step {e : KafkaEvent} (h : Fits q s) (hruns : Runs q s e)
    (hstep : step s e = some s') : Fits q s' := by
  cases channel_moves hstep q with
  | stays hflag hchannel _ =>
      refine ⟨?_, ?_, ?_, ?_, ?_⟩ <;> rw [hchannel]
      · rw [hflag]
        exact h.flagged
      · exact h.free
      · exact h.named
      · exact h.accepted
      · exact h.apart
  | begins hbefore hflag hchannel _ =>
      have hidle : (s.channels q).call.isSome = false ∧ (s.channels q).running = false := by
        have hflagged := h.flagged
        rw [hbefore] at hflagged
        exact Bool.or_eq_false_iff.mp hflagged.symm
      have hfree : (s.channels q).driver.subscribedTopic = none := by
        by_contra htopic
        rcases h.free htopic with hrunning | hcall
        · exact absurd (hrunning.symm.trans hidle.2) (by decide)
        · exact absurd hidle.1 (by simp [hcall])
      have hbegin : (s.channels q).begin.call = some (.awaits .connect) := by
        unfold QueueChannel.begin
        dsimp only
        rw [if_neg (not_not.mpr hfree)]
      refine ⟨?_, fun htopic => ?_, fun hrun => ?_, ?_, fun hrunning => ?_⟩
      · rw [hflag, hchannel, hbegin]
        rfl
      · rw [hchannel] at htopic
        exact absurd hfree htopic
      · rw [hchannel, hbegin] at hrun
        exact absurd hrun (by simp)
      · rw [hchannel, hbegin]
        simp
      · rw [hchannel] at hrunning
        exact absurd (hrunning.symm.trans hidle.2) (by decide)
  | proceeds call hcall _ hrouter hchannel =>
      have hidle : (s.channels q).running = false := by
        by_contra hrunning
        have hnone := h.apart (by simpa using hrunning)
        rw [hcall] at hnone
        exact absurd hnone (by simp)
      have hflag : s.router.subscribed q = true := by
        rw [h.flagged, hcall]
        rfl
      have hfree (hnot : call ≠ .run) : (s.channels q).driver.subscribedTopic = none := by
        by_contra htopic
        rcases h.free htopic with hrunning | hrun
        · exact absurd (hrunning.symm.trans hidle) (by decide)
        · rw [hcall] at hrun
          exact hnot (SubscribeCall.awaits.inj (Option.some.inj hrun))
      refine ⟨?_, ?_, ?_, ?_, ?_⟩ <;> rw [hchannel]
      · rw [hrouter, hflag]
        cases call <;> simp [QueueChannel.proceed, KafkaDriver.succeeded]
      · cases call with
        | connect => exact fun htopic => absurd (hfree (by simp)) htopic
        | subscribe => exact fun _ => .inr rfl
        | run =>
            refine fun _ => .inl ?_
            simp [QueueChannel.proceed, KafkaDriver.succeeded]
      · cases call <;> simp [QueueChannel.proceed, KafkaDriver.succeeded]
      · cases call <;> simp [QueueChannel.proceed, KafkaDriver.succeeded]
      · cases call <;> simp [QueueChannel.proceed, KafkaDriver.succeeded, hidle]
  | fails call message hcall he hflag hchannel =>
      have hidle : (s.channels q).running = false := by
        by_contra hrunning
        have hnone := h.apart (by simpa using hrunning)
        rw [hcall] at hnone
        exact absurd hnone (by simp)
      refine ⟨?_, fun htopic => ?_, fun hrun => ?_, ?_, fun _ => ?_⟩
      · rw [hflag, hchannel]
        simp [hidle]
      · rw [hchannel] at htopic
        rcases h.free htopic with hrunning | hrun
        · exact absurd (hrunning.symm.trans hidle) (by decide)
        · exact absurd hrun (hruns message he)
      · rw [hchannel] at hrun
        exact absurd hrun (by simp)
      · rw [hchannel]
        simp
      · rw [hchannel]
  | refused hcall _ _ _ => exact absurd hcall h.accepted

/-- **A start that fails leaves the channel stuck.** -/
theorem stuck_of_fails {e : KafkaEvent} (h : Fits q s) (hfails : ¬ Runs q s e)
    (hstep : step s e = some s') : Stuck q s' := by
  unfold Runs at hfails
  push Not at hfails
  obtain ⟨message, he, hrun⟩ := hfails
  cases channel_moves hstep q with
  | stays _ _ hother => exact absurd he (hother _)
  | begins _ _ _ hother => exact absurd he (hother _)
  | proceeds call _ he' _ _ => exact absurd (he.symm.trans he') (by simp)
  | refused hcall _ _ _ => exact absurd (hrun.symm.trans hcall) (by simp)
  | fails call _ _ _ hflag hchannel =>
      have hidle : (s.channels q).running = false := by
        by_contra hrunning
        have hnone := h.apart (by simpa using hrunning)
        rw [hrun] at hnone
        exact absurd hnone (by simp)
      refine ⟨?_, ?_, ?_, ?_⟩ <;> rw [hchannel]
      · exact h.named hrun
      · exact hidle
      · exact hflag
      · exact .inl rfl

theorem stuck_step {e : KafkaEvent} (h : Stuck q s) (hstep : step s e = some s') :
    Stuck q s' := by
  have hcall {call : ConsumerCall} : (s.channels q).call ≠ some (.awaits call) := by
    rcases h.call with hcall | hcall <;> rw [hcall] <;> simp
  cases channel_moves hstep q with
  | stays hflag hchannel _ =>
      refine ⟨?_, ?_, ?_, ?_⟩ <;> rw [hchannel]
      · exact h.topic
      · exact h.idle
      · rw [hflag]
        exact h.flagged
      · exact h.call
  | begins hbefore hflag hchannel _ =>
      have hbegin : (s.channels q).begin.call = some .refused := by
        unfold QueueChannel.begin
        dsimp only
        rw [if_pos h.topic]
      refine ⟨?_, ?_, ?_, ?_⟩ <;> rw [hchannel]
      · exact h.topic
      · exact h.idle
      · rw [hflag, hbegin]
        rfl
      · exact .inr hbegin
  | proceeds call hawaits _ _ _ => exact absurd hawaits hcall
  | fails call _ hawaits _ _ _ => exact absurd hawaits hcall
  | refused _ _ hflag hchannel =>
      refine ⟨?_, ?_, ?_, ?_⟩ <;> rw [hchannel]
      · exact h.topic
      · exact h.idle
      · exact hflag
      · exact .inl rfl

/-- A queue fits until a start of its driver fails, and is stuck from then on. -/
theorem fits_or_stuck {es : List KafkaEvent} (hfits : Fits q s)
    (hrun : Steps.run step s es = some s') :
    (Steps.Along step (Runs q) s es ∧ Fits q s') ∨
      (¬ Steps.Along step (Runs q) s es ∧ Stuck q s') := by
  induction es generalizing s with
  | nil =>
      obtain rfl : s = s' := by simpa using hrun
      exact .inl ⟨trivial, hfits⟩
  | cons e rest ih =>
      obtain ⟨m, hm, hrest⟩ := Steps.run_cons_some.mp hrun
      by_cases hruns : Runs q s e
      · rcases ih (fits_step hfits hruns hm) hrest with ⟨halong, hend⟩ | ⟨hnot, hend⟩
        · refine .inl ⟨⟨hruns, fun m' hm' => ?_⟩, hend⟩
          rwa [← Option.some.inj (hm.symm.trans hm')]
        · exact .inr ⟨fun halong => hnot (halong.2 m hm), hend⟩
      · refine .inr ⟨fun halong => hruns halong.1, ?_⟩
        exact Steps.invariant (fun s e s' => stuck_step) (stuck_of_fails hfits hruns hm) hrest

/-! ### The next wait -/

/-- A wait that is made now is settled by a message for its task, once the consumer answers
every call. -/
def Serves (s : KafkaRouter) (q : Queue) (w : ℕ) (wt : Wait) (data : MessageData)
    (r : Settlement) : Prop :=
  ∃ n s', Steps.run step s
      (.wait w wt :: (List.replicate n (.answered q none) ++ [.message q wt.taskId data]))
      = some s' ∧ s'.router.settlements = s.router.settlements ++ [(w, r)]

/-- How many calls of the consumer are still to be answered. -/
def callsLeft : Option SubscribeCall → ℕ
  | some (.awaits .connect) => 3
  | some (.awaits .subscribe) => 2
  | some (.awaits .run) => 1
  | some .refused => 0
  | none => 0

/-- Answered calls start the consumer. -/
theorem runs_answered (hfits : Fits q s) (hflag : s.router.subscribed q = true) :
    ∃ n s', Steps.run step s (List.replicate n (.answered q none)) = some s' ∧
      s'.router = s.router ∧ (s'.channels q).running = true := by
  generalize hleft : callsLeft (s.channels q).call = left
  induction left generalizing s with
  | zero =>
      refine ⟨0, s, rfl, rfl, ?_⟩
      have hcall : (s.channels q).call = none := by
        cases hcall : (s.channels q).call with
        | none => rfl
        | some call =>
            cases call with
            | refused => exact absurd hcall hfits.accepted
            | awaits call =>
                rw [hcall] at hleft
                cases call <;> simp [callsLeft] at hleft
      have hflagged := hfits.flagged
      rw [hflag, hcall] at hflagged
      exact hflagged.symm
  | succ left ih =>
      obtain ⟨call, hcall⟩ : ∃ call, (s.channels q).call = some (.awaits call) := by
        cases hcall : (s.channels q).call with
        | none =>
            rw [hcall] at hleft
            exact absurd hleft (by simp [callsLeft])
        | some call =>
            cases call with
            | refused => exact absurd hcall hfits.accepted
            | awaits call => exact ⟨call, rfl⟩
      have hstep : step s (.answered q none)
          = some (s.setChannel q ((s.channels q).proceed q.name call)) := by
        rw [step_answered, hcall]
      have hchannel : (s.setChannel q ((s.channels q).proceed q.name call)).channels q
          = (s.channels q).proceed q.name call := if_pos rfl
      have hnext := fits_step hfits (fun message he => absurd he (by simp)) hstep
      have hless : callsLeft ((s.channels q).proceed q.name call).call = left := by
        rw [hcall] at hleft
        cases call <;> simp [callsLeft, QueueChannel.proceed, KafkaDriver.succeeded] at hleft ⊢ <;>
          omega
      obtain ⟨n, s', hrun, hrouter, hrunning⟩ := ih hnext hflag (by rw [hchannel, hless])
      exact ⟨n + 1, s', Steps.run_cons_some.mpr ⟨_, hstep, hrun⟩, hrouter, hrunning⟩

/-- **A channel that fits serves the next wait.** -/
theorem Fits.serves (hfits : Fits q s) {w : ℕ} {wt : Wait} {data : MessageData} {r : Settlement}
    (hnew : s.router.waits w = none) (hpending : s.router.pendingResolve.get wt.taskId = none)
    (haborted : s.router.abortedAlready wt = none) (hanswer : answerOf data q = some r) :
    Serves s q w wt data r := by
  have hwait : step s (.wait w wt) = some (s.withRouter (s.router.wait w wt fun _ => none)) := by
    rw [step, Router.step, hnew]
    rfl
  have hregisters := Router.registers_wait (w := w) hpending haborted
  have hafter := fits_step hfits (fun message he => absurd he (by simp)) hwait
  obtain ⟨n, s', hrun, hrouter, hrunning⟩ := runs_answered hafter (hregisters.subscribed q)
  have hmessage : ∃ t, step s' (.message q wt.taskId data) = some (s'.withRouter t) ∧
      t.settlements = s'.router.settlements ++ [(w, r)] := by
    rw [step, if_pos hrunning]
    cases q with
    | completed =>
        refine ⟨_, rfl, ?_⟩
        have hget : s'.router.pendingResolve.get wt.taskId = some w := by
          rw [hrouter]
          exact hregisters.resolve
        rw [← Option.some.inj hanswer]
        unfold Router.onCompleted
        rw [hget]
        rfl
    | failed =>
        refine ⟨_, rfl, ?_⟩
        have hget : s'.router.pendingReject.get wt.taskId = some w := by
          rw [hrouter]
          exact hregisters.reject
        obtain ⟨err, herr, rfl⟩ := Option.map_eq_some_iff.mp hanswer
        unfold Router.onFailed
        rw [hget, herr]
        rfl
  obtain ⟨t, hstep, hsettled⟩ := hmessage
  refine ⟨n, s'.withRouter t, ?_, ?_⟩
  · refine Steps.run_cons_some.mpr ⟨_, hwait, Steps.run_append_some.mpr ⟨s', hrun, ?_⟩⟩
    rw [Steps.run_cons, hstep]
    rfl
  · show t.settlements = _
    rw [hsettled, hrouter]
    show (s.router.wait w wt fun _ => none).settlements ++ _ = _
    rw [hregisters.settlements]

/-- A channel that is stuck hands on no message. -/
theorem Stuck.not_serves (hstuck : Stuck q s) {w : ℕ} {wt : Wait} {data : MessageData}
    {r : Settlement} : ¬ Serves s q w wt data r := by
  rintro ⟨n, s', hrun, -⟩
  obtain ⟨m, hm, hrest⟩ := Steps.run_cons_some.mp hrun
  obtain ⟨t, ht, hmessage⟩ := Steps.run_append_some.mp hrest
  have hidle := (Steps.invariant (fun s e s' => stuck_step) (stuck_step hstuck hm) ht).idle
  obtain ⟨u, hu, -⟩ := Steps.run_cons_some.mp hmessage
  rw [step, hidle] at hu
  exact absurd hu (by simp)

/-- **A failed Kafka subscribe can be retried exactly if the consumer was not started in
vain.**  The driver can be subscribed again unless the last of the three calls failed; and in
every run a router serves the next wait, once the broker is back, exactly if that call has
not failed for the queue. -/
theorem subscribe_retriable (q : Queue) :
    (∀ d topic failure, KafkaDriver.Retriable d topic failure ↔ ¬ d.FailsToRun failure) ∧
    ∀ es s, Steps.run step init es = some s →
      ∀ w wt data r, s.router.waits w = none → s.router.pendingResolve.get wt.taskId = none →
        s.router.abortedAlready wt = none → answerOf data q = some r →
        (Serves s q w wt data r ↔ Steps.Along step (Runs q) init es) := by
  refine ⟨KafkaDriver.retriable_iff, fun es s hrun w wt data r hnew hpending haborted hanswer =>
    ?_⟩
  rcases fits_or_stuck (fits_init q) hrun with ⟨halong, hfits⟩ | ⟨hnot, hstuck⟩
  · exact ⟨fun _ => halong, fun _ => hfits.serves hnew hpending haborted hanswer⟩
  · exact ⟨fun h => absurd h hstuck.not_serves, fun h => absurd h hnot⟩

/-- The first subscribe fails when the consumer connects. -/
def notConnected : List KafkaEvent :=
  [.wait 0 ⟨js "a", js "1", js "a", none⟩, .answered .completed (some (js "no broker"))]

/-- The driver can be subscribed again, and the router serves the next wait. -/
theorem subscribe_retriable_connected :
    KafkaDriver.Retriable .init (js "kaiban-events-completed")
        (fun call => if call = .connect then some (js "no broker") else none) ∧
      ∃ s, Steps.run step init notConnected = some s ∧
        Serves s .completed 1 ⟨js "b", js "1", js "b", none⟩ [(js "result", .str (js "done"))]
          (.resolved (js "done")) := by
  obtain ⟨hdriver, hrouter⟩ := subscribe_retriable .completed
  obtain ⟨s, hrun⟩ : ∃ s, Steps.run step init notConnected = some s := ⟨_, rfl⟩
  refine ⟨(hdriver _ _ _).mpr fun h => absurd h.2.1 (by simp), s, hrun, ?_⟩
  obtain rfl := Option.some.inj hrun
  refine (hrouter notConnected _ rfl 1 _ _ _ rfl rfl rfl (by decide +kernel)).mpr ?_
  refine ⟨fun message he => absurd he (by simp), fun s1 h1 => ⟨fun message he => ?_, ?_⟩⟩
  · obtain rfl := Option.some.inj h1
    decide
  · exact fun _ _ => trivial

/-- The broker goes away before the consumer is started. -/
theorem failed_run_not_retriable : ¬ KafkaDriver.Retriable .init (js "kaiban-events-completed")
    fun call => if call = .run then some (js "no broker") else none := by
  intro h
  exact absurd (h .run (js "no broker") (by decide +kernel)).2 (by decide +kernel)

end KafkaRouter

end Kaiban
