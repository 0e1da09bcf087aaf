/-
The order in which stops arrive does not matter.

A node may hear of the same stops live, from the saved key and after a reconnect, in any
order and more than once.  What they leave is fixed by the greatest of their moments.

  * The time of the latest stop is that moment.
  * An attempt that was running is aborted by then if its task was sent by that moment, and
    is as it was before if not.
  * A task that is delivered later is refused if it was sent by that moment, and only then.

The one thing to see is that no stop comes too late for an attempt: a race that is open was
not sent before the stops there were when it began (`openAllowed_step`), so the stop at the
greatest moment either is applied or finds the race decided.
-/
import Kaiban.Proofs.Actor.EmergencyStop
import Kaiban.Proofs.Actor.OneRecord
import Mathlib.Order.Bounds.Defs

open JsString

namespace Kaiban

variable {cfg : ActorConfig}

namespace Actor

/-! ### The latest moment -/

/-- The moments of the stops among some events. -/
def moments (es : List ActorEvent) : List Decimal :=
  es.filterMap fun e => match e with
    | .emergencyStop t => some t
    | _ => none

theorem mem_moments {es : List ActorEvent} {t : Decimal} :
    t ∈ moments es ↔ .emergencyStop t ∈ es := by
  unfold moments
  rw [List.mem_filterMap]
  constructor
  · rintro ⟨e, he, hmoment⟩
    cases e with
    | emergencyStop x =>
        rw [← Option.some.inj hmoment]
        exact he
    | deliver d p b => exact absurd hmoment (by simp)
    | act d a => exact absurd hmoment (by simp)
    | stop => exact absurd hmoment (by simp)
  · intro h
    exact ⟨_, h, rfl⟩

theorem stoppedSince_emergencyStop (s : Actor) (t : Decimal) :
    StoppedSince t (s.emergencyStop t).1.signals := by
  rcases s.emergencyStop_cases t with ⟨hnoop, u, hu, htu⟩ | happlied
  · rw [hnoop]
    exact ⟨u, hu, htu⟩
  · rw [happlied.signals]
    exact ⟨t, rfl, le_rfl⟩

/-- Only a stop changes the time of the latest stop. -/
theorem stoppedAt_step {s s' : Actor} {e : ActorEvent} (h : s.step cfg e = some s') :
    s'.signals.stoppedAt = s.signals.stoppedAt ∨
      ∃ t, e = .emergencyStop t ∧ s'.signals.stoppedAt = some t := by
  cases e with
  | deliver d p b =>
      simp only [step] at h
      split at h
      · rw [← Option.some.inj h]
        exact .inl rfl
      · exact absurd h (by simp)
  | act d a =>
      simp only [step] at h
      split at h
      · exact absurd h (by simp)
      · obtain ⟨del', -, rfl⟩ := Option.map_eq_some_iff.mp h
        exact .inl rfl
  | emergencyStop t =>
      obtain rfl := Option.some.inj h
      rcases s.emergencyStop_cases t with ⟨hnoop, -⟩ | happlied
      · rw [hnoop]
        exact .inl rfl
      · rw [happlied.signals]
        exact .inr ⟨t, rfl, rfl⟩
  | stop =>
      rw [← Option.some.inj h]
      exact .inl rfl

theorem stoppedAt_run {es : List ActorEvent} :
    ∀ {s t : Actor}, Steps.run (step cfg) s es = some t →
      ∀ x, t.signals.stoppedAt = some x → x ∈ moments es ∨ s.signals.stoppedAt = some x := by
  induction es with
  | nil =>
      intro s t hrun x hx
      obtain rfl : s = t := by simpa using hrun
      exact .inr hx
  | cons e rest ih =>
      intro s t hrun x hx
      obtain ⟨m, hm, hrest⟩ := Steps.run_cons_some.mp hrun
      rcases ih hrest x hx with hmem | hprior
      · exact .inl (mem_moments.mpr (List.mem_cons_of_mem _ (mem_moments.mp hmem)))
      · rcases stoppedAt_step hm with hsame | ⟨t', rfl, hset⟩
        · exact .inr (hsame ▸ hprior)
        · obtain rfl := Option.some.inj (hprior.symm.trans hset)
          exact .inl (mem_moments.mpr (List.mem_cons_self ..))

theorem stoppedSince_run {es : List ActorEvent} {s t : Actor} {x : Decimal}
    (hs : StoppedSince x s.signals) (hrun : Steps.run (step cfg) s es = some t) :
    StoppedSince x t.signals :=
  Steps.invariant (P := fun s : Actor => StoppedSince x s.signals)
    (fun _ _ _ => stoppedSince_step) hs hrun

/-- **The time of the latest stop is the greatest moment, whatever the order.** -/
theorem stoppedAt_greatest {es : List ActorEvent} {s t : Actor} {m : Decimal}
    (hm : IsGreatest {x | x ∈ moments es ∨ s.signals.stoppedAt = some x} m)
    (hrun : Steps.run (step cfg) s es = some t) : t.signals.stoppedAt = some m := by
  have hsince : StoppedSince m t.signals := by
    rcases hm.1 with hmem | hprior
    · obtain ⟨before, rest, rfl⟩ := List.append_of_mem (mem_moments.mp hmem)
      obtain ⟨a, -, hrest⟩ := Steps.run_append_some.mp hrun
      obtain ⟨b, hb, hlast⟩ := Steps.run_cons_some.mp hrest
      refine stoppedSince_run ?_ hlast
      rw [← Option.some.inj hb]
      exact stoppedSince_emergencyStop a m
    · exact stoppedSince_run ⟨m, hprior, le_rfl⟩ hrun
  obtain ⟨u, hu, hmu⟩ := hsince
  have hle : u ≤ m := hm.2 (stoppedAt_run hrun u hu)
  rw [hu, le_antisymm hle hmu]

/-! ### Open races -/

/-- An attempt whose race is open was not sent before the latest stop. -/
def OpenAllowed (s : Actor) : Prop :=
  ∀ d del k, s.deliveries d = some del → del.stage = .running k none →
    s.signals.sentBeforeStop del.payload = false

theorem sentBeforeStop_eq {sig sig' : Signals} (h : sig'.stoppedAt = sig.stoppedAt) (p : Payload) :
    sig'.sentBeforeStop p = sig.sentBeforeStop p := by
  unfold Signals.sentBeforeStop
  rw [h]

theorem interruption_none {sig : Signals} {p : Payload} (h : interruption sig p = none) :
    sig.sentBeforeStop p = false := by
  unfold interruption at h
  split at h
  · exact absurd h (by simp)
  · rename_i hsent
    simpa using hsent

theorem openAllowed_step {s s' : Actor} {e : ActorEvent} (hflight : OpenInFlight s)
    (hs : OpenAllowed s) (h : s.step cfg e = some s') : OpenAllowed s' := by
  intro d del k hd hracing
  have hkept : ∀ {x : Delivery}, (∀ t, e ≠ .emergencyStop t) →
      s.signals.sentBeforeStop x.payload = false → s'.signals.sentBeforeStop x.payload = false := by
    intro x hno hx
    rcases stoppedAt_step h with hsame | ⟨t, heq, -⟩
    · rw [sentBeforeStop_eq hsame]
      exact hx
    · exact absurd heq (hno t)
  rcases step_change h d with hsame | ⟨p, b, rfl, -, hnew⟩ | ⟨a, old, del', rfl, hold, hr, hd'⟩ |
    ⟨err, old, herr, hold, hd'⟩
  · -- the delivery is as it was: a stop that is applied left its race open
    have hwas : s.deliveries d = some del := hsame ▸ hd
    cases e with
    | emergencyStop t =>
        have hin : d ∈ s.inFlight := hflight d del k hwas hracing
        obtain rfl := Option.some.inj h
        rcases s.emergencyStop_cases t with ⟨hnoop, -⟩ | happlied
        · rw [hnoop]
          exact hs d del k hwas hracing
        · rcases happlied.delivery hwas with ⟨-, -, habort⟩ | ⟨hspared, -⟩
          · rw [hd, Option.some.injEq] at habort
            rw [habort] at hracing
            exact absurd hracing (abort_not_racing del _ k)
          · by_contra hsent
            exact hspared ⟨hin, by simpa using hsent⟩
    | deliver x p b => exact hkept (fun _ => by simp) (hs d del k hwas hracing)
    | act x a => exact hkept (fun _ => by simp) (hs d del k hwas hracing)
    | stop => exact hkept (fun _ => by simp) (hs d del k hwas hracing)
  · rw [hnew, Option.some.injEq] at hd
    subst hd
    exact absurd hracing (processTask_not_racing s.signals p b k)
  · rw [hd', Option.some.injEq] at hd
    subst hd
    refine hkept (fun _ => by simp) ?_
    rcases hr.racing hracing with rfl | ⟨hopen, -⟩
    · cases hr with
      | late a ha => rcases ha with ha | ⟨j, out, ha⟩ <;> exact absurd ha (by simp)
      | started j hs' =>
          rw [Delivery.startAttempt_payload]
          rcases old.startAttempt_cases j with ⟨err, -, heq⟩ | ⟨hnone, -⟩
          · rw [heq] at hracing
            exact absurd hracing (by simp)
          · exact interruption_none hnone
    · rw [hr.payload]
      exact hs d old k hold hopen
  · rw [hd', Option.some.injEq] at hd
    subst hd
    exact absurd hracing (abort_not_racing old err k)

theorem open_run {es : List ActorEvent} {s : Actor} (hrun : Steps.run (step cfg) init es = some s) :
    OpenInFlight s ∧ OpenAllowed s :=
  Steps.invariant (P := fun s : Actor => OpenInFlight s ∧ OpenAllowed s)
    (fun _ _ _ h hstep => ⟨openInFlight_step h.1 hstep, openAllowed_step h.1 h.2 hstep⟩)
    ⟨fun _ _ _ h => absurd h (by simp [init]), fun _ _ _ h => absurd h (by simp [init])⟩ hrun

theorem sentBeforeStop_iff {sig : Signals} {m : Decimal} (hm : sig.stoppedAt = some m)
    (p : Payload) : sig.sentBeforeStop p = true ↔ SentBy m p := by
  constructor
  · intro h ts hts
    unfold Signals.sentBeforeStop at h
    rw [hm, hts] at h
    simpa using h
  · exact sentBeforeStop_of_sentBy ⟨m, hm, le_rfl⟩

/-- What was sent before a stop stays so. -/
theorem sentBeforeStop_step {s s' : Actor} {e : ActorEvent} {p : Payload}
    (hs : s.signals.sentBeforeStop p = true) (h : s.step cfg e = some s') :
    s'.signals.sentBeforeStop p = true := by
  cases hat : s.signals.stoppedAt with
  | none =>
      unfold Signals.sentBeforeStop at hs
      rw [hat] at hs
      exact absurd hs (by simp)
  | some u =>
      have hsent : SentBy u p := (sentBeforeStop_iff hat p).mp hs
      exact sentBeforeStop_of_sentBy (stoppedSince_step ⟨u, hat, le_rfl⟩ h) hsent

/-! ### Between the stops -/

/-- An event that no race waits for: neither a handler that settles, nor a timer, nor the
shutdown of the node. -/
def Quiet : ActorEvent → Prop
  | .act _ (.settles _ _) => False
  | .act _ .timer => False
  | .stop => False
  | _ => True

/-- A delivery whose race was open before some stops: it is as it was, or a stop at or
after its task aborted it. -/
def Spared (cfg : ActorConfig) (d k : ℕ) (before : Delivery) (s : Actor) : Prop :=
  s.deliveries d = some before ∨
    ((∃ del, s.deliveries d = some del ∧ Aftermath cfg before k del) ∧
      s.signals.sentBeforeStop before.payload = true)

theorem spared_step {s s' : Actor} {e : ActorEvent} {d k : ℕ} {before : Delivery}
    (hracing : before.stage = .running k none) (hquiet : Quiet e)
    (hs : Spared cfg d k before s) (h : s.step cfg e = some s') : Spared cfg d k before s' := by
  rcases hs with hopen | ⟨hafter, hsent⟩
  · rcases step_change h d with hsame | ⟨p, b, -, hnone, -⟩ | ⟨a, old, del', rfl, hold, hr, hd⟩ |
      ⟨err, old, herr, hold, hd⟩
    · exact .inl (hsame.trans hopen)
    · rw [hopen] at hnone
      exact absurd hnone (by simp)
    · -- the events that react to an open race are not quiet
      obtain rfl : before = old := Option.some.inj (hopen.symm.trans hold)
      cases hr with
      | settled j out hj => exact hquiet.elim
      | timedOut j hj => exact hquiet.elim
      | late a ha => exact .inl hd
      | _ => rename_i hstage; rw [hracing] at hstage; exact absurd hstage (by simp)
    · obtain rfl : before = old := Option.some.inj (hopen.symm.trans hold)
      rcases herr with ⟨t, rfl, rfl⟩ | ⟨rfl, -⟩
      · -- an abort that is seen comes from a stop that was applied to this task
        refine .inr ⟨⟨_, hd, .of_racing hracing⟩, ?_⟩
        have hchanged : ∀ {x : Delivery}, x = before.abort emergencyStopError → x ≠ before := by
          rintro x rfl heq
          exact abort_not_racing before _ k (heq.symm ▸ hracing)
        obtain rfl := Option.some.inj h
        rcases s.emergencyStop_cases t with ⟨hnoop, -⟩ | happlied
        · rw [hnoop, hopen, Option.some.injEq] at hd
          exact absurd rfl (hchanged hd)
        · rcases happlied.delivery hopen with ⟨-, hsent, -⟩ | ⟨-, hsame⟩
          · exact hsent
          · rw [hd, Option.some.injEq] at hsame
            exact absurd hsame (hchanged rfl)
      · exact hquiet.elim
  · exact .inr ⟨aftermath_step hafter h, sentBeforeStop_step hsent h⟩

theorem spared_run {es : List ActorEvent} {s t : Actor} {d k : ℕ} {before : Delivery}
    (hracing : before.stage = .running k none) (hquiet : ∀ e ∈ es, Quiet e)
    (hd : s.deliveries d = some before) (hrun : Steps.run (step cfg) s es = some t) :
    Spared cfg d k before t :=
  Steps.run_invariant (C := fun _ e => Quiet e) (P := Spared cfg d k before)
    (fun _ _ _ hs hq h => spared_step hracing hq hs h) (.inl hd)
    (Steps.along_of_mem es s hquiet) hrun

/-! ### Refused tasks -/

/-- The record of a refused task. -/
def refusalRecord (cfg : ActorConfig) (p : Payload) : Record :=
  Delivery.deadLetter cfg p (js "emergency_stop") (some (js "Sent before an emergency stop"))

/-- What can become of a delivery that was refused. -/
inductive Refusal (cfg : ActorConfig) (p : Payload) : Delivery → Prop
  | recording : Refusal cfg p ⟨p, .recording .refused, [.publish (refusalRecord cfg p)]⟩
  | ended (ending : Ending) :
      Refusal cfg p ⟨p, .ended ending, [.publish (refusalRecord cfg p)]⟩
  | reported (ending : Ending) :
      Refusal cfg p ⟨p, .ended ending, [.publish (refusalRecord cfg p), .onEmergencyStop]⟩

/-- A delivery is refused if its task was sent before the latest stop, and only then. -/
theorem processTask_refused {sig : Signals} {p : Payload} {b : Bool} (haddr : Addressed cfg p) :
    (sig.sentBeforeStop p = true → Refusal cfg p (processTask cfg sig p b)) ∧
      ((processTask cfg sig p b).stage = .recording .refused → sig.sentBeforeStop p = true) := by
  have hmine : ¬ (p.agentId ≠ cfg.id ∧ p.agentId ≠ js "*") := by
    rintro ⟨h1, h2⟩
    exact haddr.elim h1 h2
  unfold processTask
  rw [if_neg hmine]
  constructor
  · intro hsent
    rw [if_pos hsent]
    exact .recording
  · intro hstage
    by_contra hsent
    rw [if_neg hsent] at hstage
    unfold Delivery.afterFirewall at hstage
    split_ifs at hstage <;> simp at hstage

theorem Refusal.reaction {sig : Signals} {p : Payload} {del del' : Delivery} {a : Act}
    (h : Refusal cfg p del) (hr : Reaction cfg sig del a del') : Refusal cfg p del' := by
  cases h with
  | recording =>
      cases hr with
      | late => exact .recording
      | recorded ending hs =>
          rcases Delivery.recorded_cases _ ending with hd | hd <;> rw [hd]
          · exact .reported ending
          · exact .ended ending
      | notRecorded => exact .ended .failed
      | _ => rename_i hs; simp at hs
  | ended ending =>
      cases hr with
      | late => exact .ended ending
      | _ => rename_i hs; simp at hs
  | reported ending =>
      cases hr with
      | late => exact .reported ending
      | _ => rename_i hs; simp at hs

theorem refusal_step {s s' : Actor} {e : ActorEvent} {d : ℕ} {p : Payload}
    (hs : ∃ del, s.deliveries d = some del ∧ Refusal cfg p del) (h : s.step cfg e = some s') :
    ∃ del, s'.deliveries d = some del ∧ Refusal cfg p del := by
  obtain ⟨del, hdel, href⟩ := hs
  rcases step_change h d with hsame | ⟨q, b, -, hnone, -⟩ | ⟨a, old, del', -, hold, hr, hd⟩ |
    ⟨err, old, -, hold, hd⟩
  · exact ⟨del, hsame.trans hdel, href⟩
  · rw [hnone] at hdel
    exact absurd hdel (by simp)
  · obtain rfl : del = old := Option.some.inj (hdel.symm.trans hold)
    exact ⟨del', hd, href.reaction hr⟩
  · obtain rfl : del = old := Option.some.inj (hdel.symm.trans hold)
    refine ⟨_, hd, ?_⟩
    rcases del.abort_cases err with ⟨j, hj, -⟩ | ⟨-, hkept⟩
    · cases href <;> simp at hj
    · rw [hkept]
      exact href

/-- A refused delivery, seen at any time: it never ran and has one `emergency_stop`
record. -/
structure TurnedAway (cfg : ActorConfig) (p : Payload) (del : Delivery) : Prop where
  samePayload : del.payload = p
  noAttempt : del.invocations = 0
  oneRecord : ∃ r, records del.calls = [r] ∧ r.channel = .deadLetter ∧ r.taskId = p.taskId ∧
    r.agentId = cfg.id ∧ Json.get r.data (js "error") = some (.str (js "emergency_stop"))

theorem refusalRecord_error (p : Payload) :
    Json.get (refusalRecord cfg p).data (js "error") = some (.str (js "emergency_stop")) := by
  have hshort : byteLength (js "emergency_stop") ≤ maxDlqTextBytes := by decide +kernel
  show Json.get (deadLetterData _ _ _) _ = _
  rw [get_deadLetterData, truncateToBytes_of_le hshort]

theorem Refusal.turnedAway {p : Payload} {del : Delivery} (h : Refusal cfg p del) :
    TurnedAway cfg p del := by
  cases h with
  | recording => exact ⟨rfl, rfl, refusalRecord cfg p, rfl, rfl, rfl, rfl, refusalRecord_error p⟩
  | ended ending => exact ⟨rfl, rfl, refusalRecord cfg p, rfl, rfl, rfl, rfl, refusalRecord_error p⟩
  | reported ending =>
      exact ⟨rfl, rfl, refusalRecord cfg p, rfl, rfl, rfl, rfl, refusalRecord_error p⟩

/-! ### The outcome -/

/-- What some stops with the greatest moment `m` leave, `s` being the agent before them and
`t` the agent after them.  Nothing else about the stops matters. -/
structure StoppedAt (cfg : ActorConfig) (s t : Actor) (m : Decimal) : Prop where
  /-- The time of the latest stop is the greatest moment. -/
  latest : t.signals.stoppedAt = some m
  /-- An attempt of a task sent by then is aborted and ends with one record. -/
  aborted : ∀ d k before, s.deliveries d = some before → before.stage = .running k none →
    SentBy m before.payload →
    (∃ del, t.deliveries d = some del ∧ Aftermath cfg before k del) ∧
    ∀ later u, Steps.run (step cfg) t later = some u →
      ∃ del, u.deliveries d = some del ∧ CutShort cfg before del ∧
        ∃ v del' ending,
          Steps.run (step cfg) u ((restOf del.stage).map (.act d)) = some v ∧
          v.deliveries d = some del' ∧ del'.stage = .ended ending ∧ CutShort cfg before del'
  /-- Any other attempt runs on as if nothing had happened. -/
  spared : ∀ d k before, s.deliveries d = some before → before.stage = .running k none →
    ¬ SentBy m before.payload → t.deliveries d = some before
  /-- A task sent by then that arrives later is refused for good, with one record. -/
  refused : ∀ later u u' d p b, Steps.run (step cfg) t later = some u →
    u.step cfg (.deliver d p b) = some u' → Addressed cfg p → SentBy m p →
    ∀ rest v, Steps.run (step cfg) u' rest = some v →
      ∃ del, v.deliveries d = some del ∧ TurnedAway cfg p del
  /-- Any other task that arrives before a further stop is not. -/
  allowed : ∀ later u u' d p b, Steps.run (step cfg) t later = some u → moments later = [] →
    u.step cfg (.deliver d p b) = some u' → Addressed cfg p → ¬ SentBy m p →
    ∃ del, u'.deliveries d = some del ∧ del.stage ≠ .recording .refused

theorem deliver_step {s s' : Actor} {d : ℕ} {p : Payload} {b : Bool}
    (h : s.step cfg (.deliver d p b) = some s') :
    s'.deliveries d = some (processTask cfg s.signals p b) := by
  simp only [step] at h
  split at h
  · rw [← Option.some.inj h]
    exact setDelivery_self s d _
  · exact absurd h (by simp)

/-- **Stops are order-insensitive.**  Whatever run of quiet events delivers the stops of a
set of moments, in whatever order and however often, what it leaves depends on the
greatest of them alone. -/
theorem stops_order_insensitive {past es : List ActorEvent} {s t : Actor} {m : Decimal}
    (ms : Finset Decimal) (hpast : Steps.run (step cfg) init past = some s)
    (hms : ∀ x, x ∈ moments es ↔ x ∈ ms)
    (hm : IsGreatest {x | x ∈ ms ∨ s.signals.stoppedAt = some x} m)
    (hquiet : ∀ e ∈ es, Quiet e) (hrun : Steps.run (step cfg) s es = some t) :
    StoppedAt cfg s t m := by
  have hlatest : t.signals.stoppedAt = some m := by
    refine stoppedAt_greatest ?_ hrun
    simpa only [hms] using hm
  have hpast' : Steps.run (step cfg) init (past ++ es) = some t :=
    Steps.run_append_some.mpr ⟨s, hpast, hrun⟩
  refine ⟨hlatest, fun d k before hd hracing hsent => ?_, fun d k before hd hracing hsent => ?_,
    fun later u u' d p b hlater harrive haddr hsent rest v hrest => ?_,
    fun later u u' d p b hlater hnone harrive haddr hsent => ?_⟩
  · rcases spared_run hracing hquiet hd hrun with hopen | ⟨hafter, -⟩
    · have hallowed := (open_run hpast').2 d before k hopen hracing
      rw [(sentBeforeStop_iff hlatest before.payload).mpr hsent] at hallowed
      exact absurd hallowed (by simp)
    · exact ⟨hafter, fun later u hlater =>
        Aftermath.later hafter (deadLetters_racing hpast hd hracing) hlater⟩
  · rcases spared_run hracing hquiet hd hrun with hopen | ⟨-, hstopped⟩
    · exact hopen
    · exact absurd ((sentBeforeStop_iff hlatest before.payload).mp hstopped) hsent
  · have hsince : StoppedSince m u.signals := stoppedSince_run ⟨m, hlatest, le_rfl⟩ hlater
    have hnew : ∃ del, u'.deliveries d = some del ∧ Refusal cfg p del :=
      ⟨_, deliver_step harrive,
        (processTask_refused haddr).1 (sentBeforeStop_of_sentBy hsince hsent)⟩
    obtain ⟨del, hdel, href⟩ := Steps.invariant
      (P := fun s : Actor => ∃ del, s.deliveries d = some del ∧ Refusal cfg p del)
      (fun _ _ _ => refusal_step) hnew hrest
    exact ⟨del, hdel, href.turnedAway⟩
  · have hsame : u.signals.stoppedAt = some m := by
      refine stoppedAt_greatest ⟨.inr hlatest, ?_⟩ hlater
      rintro x (hx | hx)
      · rw [hnone] at hx
        exact absurd hx (by simp)
      · exact (Option.some.inj (hlatest.symm.trans hx)).ge
    refine ⟨_, deliver_step harrive, fun hrefused => hsent ?_⟩
    exact (sentBeforeStop_iff hsame p).mp ((processTask_refused haddr).2 hrefused)

/-- An agent with a task that runs. -/
def busyAgent : Actor :=
  (Steps.run (step plainConfig) init [.deliver 0 plainTask false, .act 0 .start]).getD init

def busyTask : Delivery := ⟨plainTask, .running 1 none, [.handler 1]⟩

def mixedStops : List ActorEvent :=
  [.emergencyStop (.ofInt 1), .emergencyStop 0, .emergencyStop (.ofInt 1)]

def mixedMoments : Finset Decimal := {0, .ofInt 1}

/-- Two stops, the newer of them twice, and an attempt they find running. -/
theorem stops_order_insensitive_running :
    Steps.run (step plainConfig) init [.deliver 0 plainTask false, .act 0 .start]
        = some busyAgent ∧
      ∃ t before del, Steps.run (step plainConfig) busyAgent mixedStops = some t ∧
        t.signals.stoppedAt = some (.ofInt 1) ∧ busyAgent.deliveries 0 = some before ∧
        t.deliveries 0 = some del ∧ Aftermath plainConfig before 1 del := by
  have hpast : Steps.run (step plainConfig) init [.deliver 0 plainTask false, .act 0 .start]
      = some busyAgent := rfl
  have hle : (0 : Decimal) ≤ .ofInt 1 := by decide +kernel
  have hsent : SentBy (.ofInt 1) plainTask := by
    intro ts hts
    obtain rfl : 0 = ts := by simpa [plainTask] using hts
    exact hle
  have hgreatest : IsGreatest
      {x | x ∈ mixedMoments ∨ busyAgent.signals.stoppedAt = some x} (.ofInt 1) := by
    constructor
    · exact Or.inl (Finset.mem_insert_of_mem (Finset.mem_singleton_self _))
    · rintro x (hx | hx)
      · rcases Finset.mem_insert.mp hx with rfl | hx
        · exact hle
        · exact (Finset.mem_singleton.mp hx).le
      · exact absurd hx (show (none : Option Decimal) ≠ some x by simp)
  have hquiet : ∀ e ∈ mixedStops, Quiet e := by
    intro e he
    simp only [mixedStops, List.mem_cons, List.not_mem_nil, or_false] at he
    rcases he with rfl | rfl | rfl <;> trivial
  have hmoments : ∀ x, x ∈ moments mixedStops ↔ x ∈ mixedMoments := by
    intro x
    show x ∈ [Decimal.ofInt 1, 0, .ofInt 1] ↔ x ∈ ({0, .ofInt 1} : Finset Decimal)
    rw [List.mem_cons, List.mem_pair, Finset.mem_insert, Finset.mem_singleton]
    tauto
  obtain ⟨t, hrun⟩ : ∃ t, Steps.run (step plainConfig) busyAgent mixedStops = some t :=
    ⟨_, rfl⟩
  have hafter : StoppedAt plainConfig busyAgent t (.ofInt 1) :=
    stops_order_insensitive mixedMoments hpast hmoments hgreatest hquiet hrun
  have hbusy : busyAgent.deliveries 0 = some busyTask := rfl
  obtain ⟨⟨del, hdel, hdone⟩, -⟩ := hafter.aborted 0 1 busyTask hbusy rfl hsent
  exact ⟨hpast, t, busyTask, del, hrun, hafter.latest, hbusy, hdel, hdone⟩

end Actor

end Kaiban
