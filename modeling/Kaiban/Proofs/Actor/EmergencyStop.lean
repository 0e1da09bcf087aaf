/-
What an emergency stop guarantees.

No attempt begins for a task sent at or before an applied stop, wherever its delivery is:
every attempt is preceded by `interruption`, and the time of the latest stop only grows.

An attempt that is running when the stop is applied is in `inFlight`, so the stop decides
its race.  From then on the delivery has one way to go, whatever its handler, its timer or
further stops do.
-/
import Kaiban.Proofs.Actor.Reactions

open JsString

namespace Kaiban

variable {cfg : ActorConfig}

/-- The task was sent at or before `t`, or its timestamp is no finite number. -/
def SentBy (t : Decimal) (p : Payload) : Prop := ∀ ts, p.timestamp = .finite ts → ts ≤ t

/-! ### The time of the latest stop -/

/-- A stop at `t` or later was applied. -/
def StoppedSince (t : Decimal) (sig : Signals) : Prop := ∃ u, sig.stoppedAt = some u ∧ t ≤ u

theorem sentBeforeStop_of_sentBy {t : Decimal} {sig : Signals} {p : Payload}
    (hsig : StoppedSince t sig) (hp : SentBy t p) : sig.sentBeforeStop p = true := by
  obtain ⟨u, hu, htu⟩ := hsig
  unfold Signals.sentBeforeStop
  rw [hu]
  cases hts : p.timestamp with
  | finite ts => simpa using le_trans (hp ts hts) htu
  | _ => rfl

theorem interruption_of_sentBy {t : Decimal} {sig : Signals} {p : Payload}
    (hsig : StoppedSince t sig) (hp : SentBy t p) :
    interruption sig p = some emergencyStopError := by
  unfold interruption
  rw [if_pos (sentBeforeStop_of_sentBy hsig hp)]

namespace Actor

/-- The time of the latest stop never goes back. -/
theorem stoppedSince_step {t : Decimal} {s s' : Actor} {e : ActorEvent}
    (hs : StoppedSince t s.signals) (h : s.step cfg e = some s') :
    StoppedSince t s'.signals := by
  obtain ⟨u, hu, htu⟩ := hs
  cases e with
  | deliver d p b =>
      simp only [step] at h
      split at h
      · obtain rfl := Option.some.inj h
        exact ⟨u, hu, htu⟩
      · exact absurd h (by simp)
  | act d a =>
      simp only [step] at h
      split at h
      · exact absurd h (by simp)
      · obtain ⟨del', -, rfl⟩ := Option.map_eq_some_iff.mp h
        exact ⟨u, hu, htu⟩
  | emergencyStop v =>
      obtain rfl := Option.some.inj h
      rcases s.emergencyStop_cases v with ⟨hnoop, -⟩ | happlied
      · rw [hnoop]
        exact ⟨u, hu, htu⟩
      · rw [happlied.signals]
        exact ⟨v, rfl, htu.trans (happlied.later u hu).le⟩
  | stop =>
      obtain rfl := Option.some.inj h
      exact ⟨u, hu, htu⟩

theorem stoppedSince_applied {t : Decimal} {s : Actor}
    (h : (s.emergencyStop t).2.applied = true) : StoppedSince t (s.emergencyStop t).1.signals := by
  rcases s.emergencyStop_cases t with ⟨hnoop, -⟩ | happlied
  · rw [hnoop] at h
    exact absurd h (by simp)
  · rw [happlied.signals]
    exact ⟨t, rfl, le_rfl⟩

/-! ### Part one: no attempt begins -/

/-- How often the handler was called for a delivery. -/
def invocations (s : Actor) (d : ℕ) : ℕ := (s.deliveries d).elim 0 Delivery.invocations

theorem processTask_calls (cfg : ActorConfig) (sig : Signals) (p : Payload) (b : Bool) :
    (processTask cfg sig p b).calls = [] ∨
      ∃ r, (processTask cfg sig p b).calls = [.publish r] := by
  unfold processTask
  extract_lets del
  split_ifs
  · exact .inl rfl
  · exact .inr ⟨_, rfl⟩
  · exact .inr ⟨_, rfl⟩
  · exact .inr ⟨_, rfl⟩
  · exact .inl rfl
  · exact .inl rfl

/-- **A step that calls the handler of a delivery starts one of its attempts, with no
stop to interrupt it.** -/
theorem step_invoked {s s' : Actor} {e : ActorEvent} {d : ℕ} (h : s.step cfg e = some s')
    (hmore : s.invocations d < s'.invocations d) :
    ∃ del, s.deliveries d = some del ∧ interruption s.signals del.payload = none ∧
      ∃ del', s'.deliveries d = some del' ∧ del'.payload = del.payload := by
  unfold invocations at hmore
  rcases step_change h d with hsame | ⟨p, b, -, hnone, hnew⟩ | ⟨a, del, del', -, hdel, hr, hd⟩ |
    ⟨err, del, -, hdel, hd⟩
  · rw [hsame] at hmore
    omega
  · rw [hnone, hnew] at hmore
    rcases processTask_calls cfg s.signals p b with hc | ⟨r, hc⟩ <;>
      simp [Delivery.invocations, hc, Call.isHandler] at hmore
  · rw [hdel, hd] at hmore
    rcases hr.invoked with hsame | ⟨k, -, -, hint, -⟩
    · simp [hsame] at hmore
    · exact ⟨del, hdel, hint, del', hd, hr.payload⟩
  · rw [hdel, hd] at hmore
    simp at hmore

theorem no_attempt_after {t : Decimal} {s1 s2 : Actor} {e : ActorEvent} {d : ℕ}
    (hs : StoppedSince t s1.signals) (h : s1.step cfg e = some s2)
    (hmore : s1.invocations d < s2.invocations d) :
    ∃ del, s2.deliveries d = some del ∧ ¬ SentBy t del.payload := by
  obtain ⟨del, -, hint, del', hdel', hp⟩ := step_invoked h hmore
  refine ⟨del', hdel', fun hsent => ?_⟩
  rw [hp] at hsent
  rw [interruption_of_sentBy hs hsent] at hint
  exact absurd hint (by simp)

/-! ### The attempts in flight -/

/-- Every attempt whose race is open is in flight. -/
def OpenInFlight (s : Actor) : Prop :=
  ∀ d del k, s.deliveries d = some del → del.stage = .running k none → d ∈ s.inFlight

theorem processTask_not_racing (sig : Signals) (p : Payload) (b : Bool) (k : ℕ) :
    (processTask cfg sig p b).stage ≠ .running k none := by
  unfold processTask Delivery.afterFirewall
  extract_lets del
  split_ifs <;> simp [del]

theorem abort_not_racing (del : Delivery) (e : NonRetryableError) (k : ℕ) :
    (del.abort e).stage ≠ .running k none := by
  rcases del.abort_cases e with ⟨j, -, h⟩ | ⟨hno, h⟩ <;> rw [h]
  · simp
  · exact hno k

theorem openInFlight_step {s s' : Actor} {e : ActorEvent} (hs : OpenInFlight s)
    (h : s.step cfg e = some s') : OpenInFlight s' := by
  intro x delx k hx hracing
  cases e with
  | deliver d p b =>
      simp only [step] at h
      split at h
      · obtain rfl := Option.some.inj h
        by_cases hxd : x = d
        · subst hxd
          rw [setDelivery_self, Option.some.injEq] at hx
          subst hx
          exact absurd hracing (processTask_not_racing s.signals p b k)
        · rw [setDelivery_ne s _ hxd] at hx
          exact hs x delx k hx hracing
      · exact absurd h (by simp)
  | act d a =>
      simp only [step] at h
      split at h
      · exact absurd h (by simp)
      · rename_i del hdel
        obtain ⟨del', hr, rfl⟩ := Option.map_eq_some_iff.mp h
        show x ∈ track d a del' s.inFlight
        by_cases hxd : x = d
        · subst hxd
          obtain rfl : del' = delx := by simpa using hx
          rcases (Delivery.reaction hr).racing hracing with rfl | ⟨hopen, rfl | ⟨j, out, rfl⟩⟩
          · simp [track, hracing]
          · exact hs x del k hdel hopen
          · exact hs x del k hdel hopen
        · have hmem := hs x delx k (by simpa [setDelivery_ne s _ hxd] using hx) hracing
          unfold track
          split
          · exact List.mem_append_left _ hmem
          · simp [hmem, hxd]
          · exact hmem
  | emergencyStop t =>
      obtain rfl := Option.some.inj h
      rcases s.emergencyStop_cases t with ⟨hnoop, -⟩ | happlied
      · rw [hnoop] at hx ⊢
        exact hs x delx k hx hracing
      · rw [happlied.inFlight]
        rw [happlied.deliveries] at hx
        obtain ⟨del, hdel, rfl⟩ := Option.map_eq_some_iff.mp hx
        split at hracing
        · exact absurd hracing (abort_not_racing del _ k)
        · exact hs x del k hdel hracing
  | stop =>
      obtain rfl := Option.some.inj h
      obtain ⟨del, hdel, rfl⟩ := Option.map_eq_some_iff.mp hx
      split at hracing
      · exact absurd hracing (abort_not_racing del _ k)
      · rename_i hout
        exact absurd (hs x del k hdel hracing) hout

/-! ### What becomes of an aborted attempt -/

/-- The race an emergency stop decided. -/
def abortedRace : Outcome := .threw (.nonRetryable emergencyStopError)

/-- The record of an attempt an emergency stop aborted. -/
def stopRecord (cfg : ActorConfig) (p : Payload) : Record :=
  Delivery.deadLetter cfg p (js "emergency_stop") (some (js "Emergency stop"))

/-- The calls of an aborted attempt, up to its record. -/
def stopCalls (cfg : ActorConfig) (p : Payload) (k : ℕ) : List Call :=
  [.attemptEnded k abortedRace, .publish (stopRecord cfg p)]

/-- What can become of a delivery whose attempt `k` a stop aborted; `before` is the
delivery at the stop. -/
inductive Aftermath (cfg : ActorConfig) (before : Delivery) (k : ℕ) : Delivery → Prop
  | aborted : Aftermath cfg before k (before.goto (.running k (some abortedRace)))
  | recording : Aftermath cfg before k
      ((before.call (stopCalls cfg before.payload k)).goto
        (.recording (.rejected emergencyStopError)))
  | ended (ending : Ending) : Aftermath cfg before k
      ((before.call (stopCalls cfg before.payload k)).goto (.ended ending))
  | reported (ending : Ending) : Aftermath cfg before k
      (((before.call (stopCalls cfg before.payload k)).call [.onEmergencyStop]).goto
        (.ended ending))

theorem attemptEnded_aborted (sig : Signals) (before : Delivery) (k : ℕ) :
    (before.goto (.running k (some abortedRace))).attemptEnded cfg sig k abortedRace
      = (before.call (stopCalls cfg before.payload k)).goto
          (.recording (.rejected emergencyStopError)) := by
  have hfinal : finalError cfg sig before.payload k (.nonRetryable emergencyStopError)
      = some emergencyStopError := by
    simp [finalError, nonRetryable, emergencyStopError, NonRetryableError.isTimeout]
  have hcode : ¬ emergencyStopError.reasonCode = js "task_timeout" := by decide
  simp only [Delivery.attemptEnded, abortedRace, Delivery.caught, Delivery.call_payload,
    Delivery.goto_payload, hfinal, Delivery.failNonRetryable, if_neg hcode]
  simp [Delivery.publishToDlq, Delivery.call, Delivery.goto, stopCalls, abortedRace, stopRecord,
    Delivery.deadLetter, emergencyStopError, NonRetryableError.reasonCode,
    NonRetryableError.message]

/-- One reaction of an aborted attempt. -/
theorem Aftermath.reaction {sig : Signals} {before del del' : Delivery} {k : ℕ} {a : Act}
    (h : Aftermath cfg before k del) (hr : Reaction cfg sig del a del') :
    Aftermath cfg before k del' := by
  cases h with
  | aborted =>
      cases hr with
      | late => exact .aborted
      | raced j out hs =>
          obtain ⟨rfl, rfl⟩ : k = j ∧ abortedRace = out := by simpa using hs
          rw [attemptEnded_aborted]
          exact .recording
      | _ => rename_i hs; simp at hs
  | recording =>
      cases hr with
      | late => exact .recording
      | recorded ending hs =>
          rcases Delivery.recorded_cases _ ending with hd | hd <;> rw [hd]
          · exact .reported ending
          · exact .ended ending
      | notRecorded => exact .ended .failed
      | _ => rename_i hs; simp at hs
  | ended ending =>
      cases hr with
      | late => exact .ended ending
      | _ => rename_i hs; simp at hs
  | reported ending =>
      cases hr with
      | late => exact .reported ending
      | _ => rename_i hs; simp at hs

/-- Further stops do nothing to an aborted attempt. -/
theorem Aftermath.abort {before del : Delivery} {k : ℕ} (h : Aftermath cfg before k del)
    (e : NonRetryableError) : Aftermath cfg before k (del.abort e) := by
  rcases del.abort_cases e with ⟨j, hs, -⟩ | ⟨-, hsame⟩
  · cases h <;> simp at hs
  · rw [hsame]
    exact h

/-- An abort of an open race begins the aftermath. -/
theorem Aftermath.of_racing {before : Delivery} {k : ℕ} (h : before.stage = .running k none) :
    Aftermath cfg before k (before.abort emergencyStopError) := by
  rcases before.abort_cases emergencyStopError with ⟨j, hj, habort⟩ | ⟨hno, -⟩
  · obtain rfl : k = j := by simpa [h] using hj
    rw [habort]
    exact .aborted
  · exact absurd h (hno k)

/-- **No event takes an aborted attempt anywhere else.** -/
theorem aftermath_step {s s' : Actor} {e : ActorEvent} {d k : ℕ} {before : Delivery}
    (hs : ∃ del, s.deliveries d = some del ∧ Aftermath cfg before k del)
    (h : s.step cfg e = some s') :
    ∃ del, s'.deliveries d = some del ∧ Aftermath cfg before k del := by
  obtain ⟨del, hdel, hafter⟩ := hs
  rcases step_change h d with hsame | ⟨p, b, -, hnone, -⟩ | ⟨a, del1, del', -, hdel1, hr, hd⟩ |
    ⟨err, del1, -, hdel1, hd⟩
  · exact ⟨del, hsame.trans hdel, hafter⟩
  · rw [hnone] at hdel
    exact absurd hdel (by simp)
  · obtain rfl : del = del1 := Option.some.inj (hdel.symm.trans hdel1)
    exact ⟨del', hd, hafter.reaction hr⟩
  · obtain rfl : del = del1 := Option.some.inj (hdel.symm.trans hdel1)
    exact ⟨del.abort err, hd, hafter.abort err⟩

/-- An applied stop aborts every open race of a task sent by then. -/
theorem emergencyStop_aborts {t : Decimal} {s : Actor} {d k : ℕ} {before : Delivery}
    (hopen : OpenInFlight s) (happlied : (s.emergencyStop t).2.applied = true)
    (hd : s.deliveries d = some before) (hracing : before.stage = .running k none)
    (hsent : SentBy t before.payload) :
    ∃ del, (s.emergencyStop t).1.deliveries d = some del ∧ Aftermath cfg before k del := by
  have hin : d ∈ s.inFlight := hopen d before k hd hracing
  rcases s.emergencyStop_cases t with ⟨hnoop, -⟩ | hstop
  · rw [hnoop] at happlied
    exact absurd happlied (by simp)
  · rcases hstop.delivery hd with ⟨-, -, habort⟩ | ⟨hspared, -⟩
    · exact ⟨_, habort, .of_racing hracing⟩
    · exact absurd ⟨hin, sentBeforeStop_of_sentBy (stoppedSince_applied happlied) hsent⟩ hspared

/-! ### One record -/

/-- A delivery that may still start an attempt or complete has no dead-letter record. -/
def NotYetDead (del : Delivery) : Prop :=
  (∃ ending, del.stage = .recording ending) ∨ (∃ ending, del.stage = .ended ending) ∨
    deadLetters del.calls = []

theorem notYetDead_caught {sig : Signals} {del : Delivery} (h : deadLetters del.calls = [])
    (k : ℕ) (err : Thrown) : NotYetDead (del.caught cfg sig k err) := by
  rcases del.caught_cases k err with ⟨e, -, hc⟩ | ⟨-, -, hc⟩ | ⟨t, -, -, -, hc⟩ |
    ⟨t, -, -, -, hc⟩ <;> rw [hc]
  · exact .inl ⟨_, rfl⟩
  · exact .inr (.inl ⟨_, rfl⟩)
  · exact .inr (.inr h)
  · exact .inl ⟨_, rfl⟩

theorem deadLetters_breaker {del : Delivery} (h : deadLetters del.calls = []) {c : Call}
    (hc : records [c] = []) : deadLetters (del.breaker cfg c).calls = [] := by
  rw [Delivery.breaker_calls, deadLetters_append, h]
  split
  · exact deadLetters_eq_nil hc
  · rfl

theorem notYetDead_reaction {sig : Signals} {del del' : Delivery} {a : Act}
    (h : NotYetDead del) (hr : Reaction cfg sig del a del') : NotYetDead del' := by
  have hcalls : (∀ ending, del.stage ≠ .recording ending) → (∀ ending, del.stage ≠ .ended ending) →
      deadLetters del.calls = [] := by
    intro h1 h2
    rcases h with ⟨ending, h⟩ | ⟨ending, h⟩ | h
    · exact absurd h (h1 ending)
    · exact absurd h (h2 ending)
    · exact h
  cases hr with
  | passedFirewall v hv hs => exact .inr (.inr (hcalls (by simp [hs]) (by simp [hs])))
  | blockedByFirewall => exact .inl ⟨_, rfl⟩
  | firewallThrew => exact .inr (.inl ⟨_, rfl⟩)
  | passedGate v hv hs => exact .inr (.inr (hcalls (by simp [hs]) (by simp [hs])))
  | blockedByGate => exact .inl ⟨_, rfl⟩
  | gateThrew => exact .inr (.inl ⟨_, rfl⟩)
  | started k hs =>
      rcases del.startAttempt_cases k with ⟨e, -, hc⟩ | ⟨-, hc⟩ <;> rw [hc]
      · exact .inl ⟨_, rfl⟩
      · refine .inr (.inr ?_)
        simpa [deadLetters] using hcalls (by simp [hs]) (by simp [hs])
  | settled k out hs => exact .inr (.inr (hcalls (by simp [hs]) (by simp [hs])))
  | late => exact h
  | timedOut k hs => exact .inr (.inr (hcalls (by simp [hs]) (by simp [hs])))
  | raced k out hs =>
      have hbase : deadLetters (del.call [.attemptEnded k out]).calls = [] := by
        simpa [deadLetters] using hcalls (by simp [hs]) (by simp [hs])
      rcases del.attemptEnded_cases k out with ⟨e, -, hc⟩ | ⟨v, e, -, -, hc⟩ |
        ⟨v, data, -, -, hc⟩ <;> rw [hc]
      · exact notYetDead_caught hbase k e
      · exact notYetDead_caught (deadLetters_breaker hbase rfl) k e
      · refine .inr (.inr ?_)
        rw [Delivery.goto_calls, Delivery.call_calls, deadLetters_append,
          deadLetters_breaker hbase rfl]
        simp [deadLetters]
  | completed => exact .inr (.inl ⟨_, rfl⟩)
  | notCompleted k e hs => exact notYetDead_caught (hcalls (by simp [hs]) (by simp [hs])) k e
  | recorded ending hs => exact .inr (.inl ⟨ending, rfl⟩)
  | notRecorded => exact .inr (.inl ⟨_, rfl⟩)
  | delayed k hs => exact .inr (.inr (hcalls (by simp [hs]) (by simp [hs])))

theorem notYetDead_run {es : List ActorEvent} {s : Actor}
    (hrun : Steps.run (step cfg) init es = some s) : Each NotYetDead s := by
  refine each_run (C := fun _ _ => True) ?_ ?_ ?_ (each_init _)
    (Steps.along_of_forall (fun _ _ => trivial) es init) hrun
  · intro sig p b
    unfold processTask
    extract_lets del
    split_ifs
    · exact .inr (.inl ⟨_, rfl⟩)
    · exact .inl ⟨_, rfl⟩
    · exact .inl ⟨_, rfl⟩
    · exact .inl ⟨_, rfl⟩
    · exact .inr (.inr rfl)
    · exact .inr (.inr rfl)
  · intro s d a del del' _ _ h hr
    exact notYetDead_reaction h hr
  · intro del err h _
    rcases del.abort_cases err with ⟨k, hk, habort⟩ | ⟨-, habort⟩ <;> rw [habort]
    · rcases h with ⟨ending, hs⟩ | ⟨ending, hs⟩ | h
      · simp [hs] at hk
      · simp [hs] at hk
      · exact .inr (.inr h)
    · exact h

/-! ### The guarantee -/

/-- A delivery that a stop cut short, seen later; `before` is the delivery at the stop. -/
structure CutShort (cfg : ActorConfig) (before del : Delivery) : Prop where
  samePayload : del.payload = before.payload
  noAttempt : del.invocations = before.invocations
  noCompletion : ∃ cs, del.calls = before.calls ++ cs ∧ ∀ r ∈ records cs, r.channel = .deadLetter
  oneRecord : (∃ ending, del.stage = .ended ending) →
    ∃ r, deadLetters del.calls = [r] ∧ r.taskId = before.payload.taskId ∧ r.agentId = cfg.id ∧
      Json.get r.data (js "error") = some (.str (js "emergency_stop"))

/-- What is left of such a delivery: its race is looked at and its record published. -/
def restOf : Stage → List Act
  | .running _ (some _) => [.resume, .published (.ok ())]
  | .recording _ => [.published (.ok ())]
  | _ => []

theorem stopRecord_error (p : Payload) :
    Json.get (stopRecord cfg p).data (js "error") = some (.str (js "emergency_stop")) := by
  have hshort : byteLength (js "emergency_stop") ≤ maxDlqTextBytes := by decide +kernel
  show Json.get (deadLetterData _ _ _) _ = _
  rw [get_deadLetterData, truncateToBytes_of_le hshort]

theorem deadLetters_stopCalls (p : Payload) (k : ℕ) :
    deadLetters (stopCalls cfg p k) = [stopRecord cfg p] := by
  simp [deadLetters, stopCalls, stopRecord, Delivery.deadLetter]

theorem Aftermath.cutShort {before del : Delivery} {k : ℕ} (h : Aftermath cfg before k del)
    (hbefore : deadLetters before.calls = []) : CutShort cfg before del := by
  have hrecs : ∀ r ∈ records (stopCalls cfg before.payload k), r.channel = .deadLetter := by
    intro r hr
    obtain rfl : r = stopRecord cfg before.payload := by simpa [stopCalls] using hr
    rfl
  cases h with
  | aborted => exact ⟨rfl, rfl, ⟨[], by simp⟩, by simp⟩
  | recording =>
      exact ⟨rfl, by simp [stopCalls, Call.isHandler], ⟨stopCalls cfg before.payload k, rfl, hrecs⟩,
        by simp⟩
  | ended ending =>
      refine ⟨rfl, by simp [stopCalls, Call.isHandler],
        ⟨stopCalls cfg before.payload k, rfl, hrecs⟩,
        fun _ => ⟨stopRecord cfg before.payload, ?_, rfl, rfl, stopRecord_error _⟩⟩
      simp [hbefore, deadLetters_stopCalls]
  | reported ending =>
      refine ⟨rfl, by simp [stopCalls, Call.isHandler],
        ⟨stopCalls cfg before.payload k ++ [.onEmergencyStop], by simp, by simpa using hrecs⟩,
        fun _ => ⟨stopRecord cfg before.payload, ?_, rfl, rfl, stopRecord_error _⟩⟩
      have hhook : deadLetters [.onEmergencyStop] = [] := rfl
      simp [hbefore, deadLetters_stopCalls, hhook]

theorem run_act (cfg : ActorConfig) {s : Actor} {d : ℕ} {del : Delivery} (a : Act) (del' : Delivery)
    (rest : List ActorEvent) (hd : s.deliveries d = some del)
      (h : del.step cfg s.signals a = some del') :
    ∃ m, m.deliveries d = some del' ∧
      Steps.run (step cfg) s (.act d a :: rest) = Steps.run (step cfg) m rest := by
  refine ⟨{ s.setDelivery d del' with inFlight := track d a del' s.inFlight },
    setDelivery_self s d del', ?_⟩
  rw [Steps.run_cons]
  simp [step, hd, h]

/-- **An aborted attempt has an end: at most two reactions of its own away.** -/
theorem Aftermath.ends {s : Actor} {d k : ℕ} {before del : Delivery}
    (hd : s.deliveries d = some del) (h : Aftermath cfg before k del) :
    ∃ s' del' ending, Steps.run (step cfg) s ((restOf del.stage).map (.act d)) = some s' ∧
      s'.deliveries d = some del' ∧ del'.stage = .ended ending := by
  have hrecording : ∀ {m : Actor} {dm : Delivery} {ending : Ending}, m.deliveries d = some dm →
      dm.stage = .recording ending → ∃ s' del', Steps.run (step cfg) m
        [.act d (.published (.ok ()))] = some s' ∧ s'.deliveries d = some del' ∧
        del'.stage = .ended ending := by
    intro m dm ending hm hs
    obtain ⟨m', hm', hrun⟩ := run_act cfg (.published (.ok ())) (dm.recorded cfg ending) [] hm
      (by unfold Delivery.step; rw [hs])
    exact ⟨m', _, hrun, hm', rfl⟩
  cases h with
  | aborted =>
      obtain ⟨m, hm, hrun⟩ := run_act cfg .resume _ [.act d (.published (.ok ()))] hd rfl
      obtain ⟨s', del', hlast, hd', hs'⟩ := hrecording hm
        (by rw [attemptEnded_aborted]; rfl)
      exact ⟨s', del', _, hrun.trans hlast, hd', hs'⟩
  | recording =>
      obtain ⟨s', del', hlast, hd', hs'⟩ := hrecording hd rfl
      exact ⟨s', del', _, hlast, hd', hs'⟩
  | ended ending => exact ⟨s, _, ending, rfl, hd, rfl⟩
  | reported ending => exact ⟨s, _, ending, rfl, hd, rfl⟩

/-- A delivery with an open race has no dead-letter record. -/
theorem deadLetters_racing {es : List ActorEvent} {s : Actor} {d k : ℕ} {before : Delivery}
    (hrun : Steps.run (step cfg) init es = some s) (hd : s.deliveries d = some before)
    (hracing : before.stage = .running k none) : deadLetters before.calls = [] := by
  rcases notYetDead_run hrun d before hd with ⟨ending, h⟩ | ⟨ending, h⟩ | h
  · simp [hracing] at h
  · simp [hracing] at h
  · exact h

/-- **An aborted attempt is cut short throughout every later run, and can end.** -/
theorem Aftermath.later {fs : List ActorEvent} {m n : Actor} {d k : ℕ} {before : Delivery}
    (hm : ∃ del, m.deliveries d = some del ∧ Aftermath cfg before k del)
    (hclean : deadLetters before.calls = []) (hmn : Steps.run (step cfg) m fs = some n) :
    ∃ del, n.deliveries d = some del ∧ CutShort cfg before del ∧
      ∃ s2 del2 ending,
        Steps.run (step cfg) n ((restOf del.stage).map (.act d)) = some s2 ∧
        s2.deliveries d = some del2 ∧ del2.stage = .ended ending ∧ CutShort cfg before del2 := by
  have hkept : ∀ {gs : List ActorEvent} {a b : Actor},
      (∃ del, a.deliveries d = some del ∧ Aftermath cfg before k del) →
      Steps.run (step cfg) a gs = some b →
      ∃ del, b.deliveries d = some del ∧ Aftermath cfg before k del := by
    intro gs a b ha hab
    exact Steps.invariant
      (P := fun s : Actor => ∃ del, s.deliveries d = some del ∧ Aftermath cfg before k del)
      (fun _ _ _ => aftermath_step) ha hab
  obtain ⟨del, hdel, hdone⟩ := hkept hm hmn
  obtain ⟨s2, del2, ending, hrest, hdel2, hend⟩ := hdone.ends hdel
  obtain ⟨del2', hdel2', hdone2⟩ := hkept ⟨del, hdel, hdone⟩ hrest
  obtain rfl : del2 = del2' := Option.some.inj (hdel2.symm.trans hdel2')
  exact ⟨del, hdel, hdone.cutShort hclean, s2, del2, ending, hrest, hdel2, hend,
    hdone2.cutShort hclean⟩

/-- **Emergency stop.**  After a stop was applied, and whatever happens then, no attempt
begins for a task sent by then, and every attempt it found running ends its delivery with
one `emergency_stop` record. -/
theorem emergencyStop_safe {es after : List ActorEvent} {s s1 : Actor} {t : Decimal}
    (hrun : Steps.run (step cfg) init es = some s)
    (happlied : (s.emergencyStop t).2.applied = true)
    (hafter : Steps.run (step cfg) (s.emergencyStop t).1 after = some s1) :
    (∀ e s2 d, s1.step cfg e = some s2 → s1.invocations d < s2.invocations d →
      ∃ del ts, s2.deliveries d = some del ∧ del.payload.timestamp = .finite ts ∧ t < ts) ∧
    (∀ d k before, s.deliveries d = some before → before.stage = .running k none →
      SentBy t before.payload →
      ∃ del, s1.deliveries d = some del ∧ CutShort cfg before del ∧
        ∃ s2 del2 ending,
          Steps.run (step cfg) s1 ((restOf del.stage).map (.act d)) = some s2 ∧
          s2.deliveries d = some del2 ∧ del2.stage = .ended ending ∧ CutShort cfg before del2) := by
  refine ⟨fun e s2 d hstep hmore => ?_, fun d k before hd hracing hsent => ?_⟩
  · have hsig : StoppedSince t s1.signals :=
      Steps.invariant (P := fun s : Actor => StoppedSince t s.signals)
        (fun _ _ _ => stoppedSince_step) (stoppedSince_applied happlied) hafter
    obtain ⟨del, hdel, hlate⟩ := no_attempt_after hsig hstep hmore
    obtain ⟨ts, hts, hlt⟩ : ∃ ts, del.payload.timestamp = .finite ts ∧ t < ts := by
      simpa [SentBy] using hlate
    exact ⟨del, ts, hdel, hts, hlt⟩
  · have hopen : OpenInFlight s :=
      Steps.invariant (P := OpenInFlight) (fun _ _ _ => openInFlight_step)
        (fun d del k h => absurd h (by simp [init])) hrun
    exact Aftermath.later (emergencyStop_aborts hopen happlied hd hracing hsent)
      (deadLetters_racing hrun hd hracing) hafter

/-- An agent with no guards. -/
def plainConfig : ActorConfig := ⟨js "writer", js "9f86d081", false, false, false, false, 0, false⟩

def plainTask : Payload := ⟨js "task-1", js "writer", [], .finite 0⟩

/-- A stop lands in a running attempt, whose handler answers afterwards. -/
theorem emergencyStop_safe_running :
    ∃ s s1 before del,
      Steps.run (step plainConfig) init [.deliver 0 plainTask false, .act 0 .start] = some s ∧
      (s.emergencyStop 0).2.applied = true ∧
      Steps.run (step plainConfig) (s.emergencyStop 0).1
        [.act 0 (.settles 1 (.threw (.error [])))] = some s1 ∧
      s.deliveries 0 = some before ∧ s1.deliveries 0 = some del ∧
      CutShort plainConfig before del := by
  have hsent : SentBy 0 plainTask := by
    intro ts hts
    obtain rfl : 0 = ts := by simpa [plainTask] using hts
    exact le_rfl
  have hrun : Steps.run (step plainConfig) init
      [.deliver 0 plainTask false, .act 0 .start] = some _ := rfl
  obtain ⟨-, hcut⟩ := emergencyStop_safe hrun (show (emergencyStop _ 0).2.applied = true from rfl)
    (show Steps.run _ _ [.act 0 (.settles 1 (.threw (.error [])))] = some _ from rfl)
  obtain ⟨del, hdel, hdone, -⟩ := hcut 0 1 _ rfl rfl hsent
  exact ⟨_, _, _, del, rfl, rfl, rfl, rfl, hdel, hdone⟩

end Actor

end Kaiban
