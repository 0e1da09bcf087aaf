/-
The caller's wait bounds a task just when timed-out attempts are retried.

`Phase.latest` says when a phase is entered at the latest: attempt `k` starts after `k - 1`
attempts and the back-offs between them.  A phase is left by its deadline, and what it goes
on to is not later than that allows (`Goes.latest`), so three attempts and two back-offs
bound the whole.  Without the retry of time-outs the caller waits for one attempt, but an
attempt that fails is retried all the same.
-/
import Mathlib.Tactic.Linarith
import Mathlib.Tactic.Ring
import Mathlib.Tactic.NormNum
import Kaiban.TaskWait
import Kaiban.Proofs.Actor.Reactions

open JsString

namespace Kaiban

variable {cfg : ActorConfig} {d : ℕ}

/-! ### Phases -/

/-- What a delivery goes on to when it leaves a phase. -/
inductive Goes : Phase → Phase → Prop
  | runs (k : ℕ) : Goes (.starting k) (.running k)
  | interrupted (k : ℕ) : Goes (.starting k) .recording
  | decides (k : ℕ) : Goes (.running k) (.decided k)
  | publishes (k : ℕ) : Goes (.decided k) (.publishing k)
  | fails (k : ℕ) (p : Phase) (hp : p = .decided k ∨ p = .publishing k) (q : Phase)
      (hq : q = .recording ∨ q = .ended ∨ (q = .backoff k ∧ k < retryAttempts)) : Goes p q
  | retries (k : ℕ) : Goes (.backoff k) (.starting (k + 1))
  | published (k : ℕ) : Goes (.publishing k) .ended
  | ends : Goes .recording .ended

/-- The attempt a phase belongs to is one of the three. -/
def Phase.Counted : Phase → Prop
  | .guarded => False
  | .starting k => 1 ≤ k ∧ k ≤ retryAttempts
  | .running k => 1 ≤ k ∧ k ≤ retryAttempts
  | .decided k => 1 ≤ k ∧ k ≤ retryAttempts
  | .publishing k => 1 ≤ k ∧ k ≤ retryAttempts
  | .backoff k => 1 ≤ k ∧ k < retryAttempts
  | .recording => True
  | .ended => True

/-- The start of an attempt, after those before it and the back-offs between them. -/
def startBy (t : ℚ) (k : ℕ) : ℚ := (k - 1) * t + 50 * k * (k - 1)

/-- Three attempts and two back-offs. -/
def endBy (t : ℚ) : ℚ := 3 * t + 300

/-- When a phase is entered at the latest. -/
def Phase.latest (t : ℚ) : Phase → ℚ
  | .guarded => 0
  | .starting k => startBy t k
  | .running k => startBy t k
  | .decided k => startBy t k + t
  | .publishing k => startBy t k + t
  | .backoff k => startBy t k + t
  | .recording => endBy t
  | .ended => endBy t

theorem startBy_succ (t : ℚ) (k : ℕ) : startBy t (k + 1) = startBy t k + t + k * 100 := by
  unfold startBy
  push_cast
  ring

theorem startBy_le {t : ℚ} (ht : 0 ≤ t) {k : ℕ} (hk : k ≤ retryAttempts) :
    startBy t k + t ≤ endBy t := by
  have hk3 : (k : ℚ) ≤ 3 := by
    have : k ≤ 3 := hk
    exact_mod_cast this
  have hk0 : (0 : ℚ) ≤ k := Nat.cast_nonneg k
  unfold startBy endBy
  nlinarith [mul_nonneg (sub_nonneg.mpr hk3) ht, mul_nonneg (sub_nonneg.mpr hk3) hk0]

theorem Goes.counted {p q : Phase} (h : Goes p q) (hp : p.Counted) : q.Counted := by
  cases h with
  | runs k => exact hp
  | interrupted k => trivial
  | decides k => exact hp
  | publishes k => exact hp
  | fails k p hpk q hq =>
      have hk : 1 ≤ k := by
        rcases hpk with rfl | rfl
        · exact hp.1
        · exact hp.1
      rcases hq with rfl | rfl | ⟨rfl, hlt⟩
      · trivial
      · trivial
      · exact ⟨hk, hlt⟩
  | retries k => exact ⟨by omega, hp.2⟩
  | published k => trivial
  | ends => trivial

/-- **A phase that is left by its deadline leaves the next one its time.** -/
theorem Goes.latest {t : Decimal} (ht : 0 ≤ (t : ℚ)) {p q : Phase} (h : Goes p q)
    (hp : p.Counted) {since : ℚ} (hsince : since ≤ p.latest t) :
    ∃ due, p.deadline t since = some due ∧ due ≤ q.latest t := by
  cases h with
  | runs k => exact ⟨since, rfl, hsince⟩
  | interrupted k =>
      refine ⟨since, rfl, hsince.trans ?_⟩
      have hle := startBy_le ht hp.2
      unfold Phase.latest
      dsimp only
      linarith
  | decides k =>
      refine ⟨since + t, rfl, ?_⟩
      unfold Phase.latest at hsince ⊢
      dsimp only at hsince ⊢
      linarith
  | publishes k => exact ⟨since, rfl, hsince⟩
  | fails k p hpk q hq =>
      have hsince' : since ≤ startBy t k + t ∧ k ≤ retryAttempts ∧
          p.deadline t since = some since := by
        rcases hpk with rfl | rfl
        · exact ⟨hsince, hp.2, rfl⟩
        · exact ⟨hsince, hp.2, rfl⟩
      obtain ⟨hle, hk, hdue⟩ := hsince'
      refine ⟨since, hdue, hle.trans ?_⟩
      rcases hq with rfl | rfl | ⟨rfl, -⟩
      · exact startBy_le ht hk
      · exact startBy_le ht hk
      · exact le_refl _
  | retries k =>
      refine ⟨since + k * retryBaseDelayMs, rfl, ?_⟩
      have hdelay : ((retryBaseDelayMs : Decimal) : ℚ) = 100 := by simp [retryBaseDelayMs]
      unfold Phase.latest at hsince ⊢
      dsimp only at hsince ⊢
      rw [startBy_succ, hdelay]
      linarith
  | published k => exact ⟨since, rfl, hsince.trans (startBy_le ht hp.2)⟩
  | ends => exact ⟨since, rfl, hsince⟩

/-! ### Steps -/

theorem Delivery.caught_goes {sig : Signals} (del : Delivery) {k : ℕ} (err : Thrown) {p : Phase}
    (hp : p = .decided k ∨ p = .publishing k) :
    Goes p (del.caught cfg sig k err).stage.phase := by
  rcases del.caught_cases k err with
    ⟨e, -, h⟩ | ⟨-, -, h⟩ | ⟨text, -, -, hk, h⟩ | ⟨text, -, -, -, h⟩
  · rw [h]
    exact .fails k p hp _ (.inl rfl)
  · rw [h]
    exact .fails k p hp _ (.inr (.inl rfl))
  · rw [h]
    exact .fails k p hp _ (.inr (.inr ⟨rfl, hk⟩))
  · rw [h]
    exact .fails k p hp _ (.inl rfl)

/-- A reaction of a delivery past its guards leaves the phase or goes on. -/
theorem Reaction.goes {sig : Signals} {del del' : Delivery} {a : Act}
    (h : Reaction cfg sig del a del') (hguards : del.stage.phase ≠ .guarded) :
    del'.stage.phase = del.stage.phase ∨ Goes del.stage.phase del'.stage.phase := by
  cases h with
  | passedFirewall v hv hs => exact absurd (by rw [hs]; rfl) hguards
  | blockedByFirewall v hv hs => exact absurd (by rw [hs]; rfl) hguards
  | firewallThrew e hs => exact absurd (by rw [hs]; rfl) hguards
  | passedGate v hv hs => exact absurd (by rw [hs]; rfl) hguards
  | blockedByGate v hv hs => exact absurd (by rw [hs]; rfl) hguards
  | gateThrew e hs => exact absurd (by rw [hs]; rfl) hguards
  | started k hs =>
      rw [hs]
      rcases del.startAttempt_cases k with ⟨e, -, h⟩ | ⟨-, h⟩
      · rw [h]
        exact .inr (.interrupted k)
      · rw [h]
        exact .inr (.runs k)
  | settled k out hs =>
      rw [hs]
      exact .inr (.decides k)
  | late a ha => exact .inl rfl
  | timedOut k hs =>
      rw [hs]
      exact .inr (.decides k)
  | raced k out hs =>
      rw [hs]
      rcases del.attemptEnded_cases k out with
        ⟨e, -, h⟩ | ⟨v, e, -, -, h⟩ | ⟨v, data, -, -, h⟩
      · rw [h]
        exact .inr (Delivery.caught_goes _ e (.inl rfl))
      · rw [h]
        exact .inr (Delivery.caught_goes _ e (.inl rfl))
      · rw [h]
        exact .inr (.publishes k)
  | completed k hs =>
      rw [hs]
      exact .inr (.published k)
  | notCompleted k e hs =>
      rw [hs]
      exact .inr (Delivery.caught_goes _ e (.inr rfl))
  | recorded ending hs =>
      rw [hs]
      exact .inr .ends
  | notRecorded ending e hs =>
      rw [hs]
      exact .inr .ends
  | delayed k hs =>
      rw [hs]
      exact .inr (.retries k)

theorem Delivery.abort_goes (del : Delivery) (err : NonRetryableError) :
    (del.abort err).stage.phase = del.stage.phase ∨
      Goes del.stage.phase (del.abort err).stage.phase := by
  rcases del.abort_cases err with ⟨k, hs, h⟩ | ⟨-, h⟩
  · rw [h, hs]
    exact .inr (.decides k)
  · rw [h]
    exact .inl rfl

namespace Timed

theorem phase_of {s : Actor} {del : Delivery} (h : s.deliveries d = some del) :
    phase d s = del.stage.phase := by
  unfold phase
  rw [h]

/-- What a step of the agent does to the phase of the watched delivery. -/
theorem step_goes {s s' : Actor} {e : ActorEvent} (h : s.step cfg e = some s')
    (hguards : phase d s ≠ .guarded) :
    phase d s' = phase d s ∨ Goes (phase d s) (phase d s') := by
  rcases Actor.step_change h d with hsame | ⟨p, b, -, hnone, -⟩ | ⟨a, del, del', -, hdel, hr, hd⟩ |
    ⟨err, del, -, hdel, hd⟩
  · refine .inl ?_
    unfold phase
    rw [hsame]
  · refine absurd ?_ hguards
    unfold phase
    rw [hnone]
  · rw [phase_of hdel] at hguards ⊢
    rw [phase_of hd]
    exact hr.goes hguards
  · rw [phase_of hdel, phase_of hd]
    exact del.abort_goes err

/-- A record is published where the delivery ends. -/
theorem records_ends {s s' : Actor} {e : ActorEvent} (h : s.step cfg e = some s')
    (hrecords : e.records d = true) :
    (∃ k, phase d s = .publishing k) ∨ phase d s = .recording := by
  unfold ActorEvent.records at hrecords
  split at hrecords
  · rename_i x
    obtain rfl : x = d := by simpa using hrecords
    unfold Actor.step at h
    dsimp only at h
    split at h
    · exact absurd h (by simp)
    · rename_i del hdel
      obtain ⟨del', hstep, -⟩ := Option.map_eq_some_iff.mp h
      rw [phase_of hdel]
      cases Delivery.reaction hstep with
      | completed k hs =>
          rw [hs]
          exact .inl ⟨k, rfl⟩
      | recorded ending hs =>
          rw [hs]
          exact .inr rfl
      | late a ha => rcases ha with ha | ⟨j, out, ha⟩ <;> exact absurd ha (by simp)
  · exact absurd hrecords (by simp)

/-! ### The bound -/

/-- The delivery is in time: it entered its phase early enough, and has not stayed too long. -/
structure OnTime (cfg : ActorConfig) (d : ℕ) (w : Timed) : Prop where
  counted : (phase d w.actor).Counted
  entered : w.since ≤ (phase d w.actor).latest cfg.taskTimeoutMs
  due : ∀ due, w.deadline cfg d = some due → w.now ≤ due
  outcome : ∀ o, w.outcome = some o → o ≤ endBy cfg.taskTimeoutMs

theorem Counted.not_guarded {p : Phase} (h : p.Counted) : p ≠ .guarded := by
  rintro rfl
  exact h

/-- A phase that is entered now is not due before. -/
theorem deadline_le {t : Decimal} (ht : 0 ≤ (t : ℚ)) {p : Phase} {since due : ℚ}
    (h : p.deadline t since = some due) : since ≤ due := by
  have hdelay : ((retryBaseDelayMs : Decimal) : ℚ) = 100 := by simp [retryBaseDelayMs]
  unfold Phase.deadline at h
  split at h
  · exact absurd h (by simp)
  · rw [Option.some.inj h]
  · rw [← Option.some.inj h]
    linarith
  · rw [Option.some.inj h]
  · rw [Option.some.inj h]
  · rename_i k
    have hk : (0 : ℚ) ≤ k := Nat.cast_nonneg k
    rw [← Option.some.inj h, hdelay]
    linarith
  · rw [Option.some.inj h]
  · exact absurd h (by simp)

theorem OnTime.step (ht : 0 ≤ (cfg.taskTimeoutMs : ℚ)) {w w' : Timed} {e : TimedEvent}
    (hw : OnTime cfg d w) (h : Timed.step cfg d w e = some w') : OnTime cfg d w' := by
  unfold Timed.step at h
  cases e with
  | passes now =>
      dsimp only at h
      split at h
      · rename_i hgoes
        obtain rfl := Option.some.inj h
        exact ⟨hw.counted, hw.entered, fun due hdue => hgoes.2 due hdue, hw.outcome⟩
      · exact absurd h (by simp)
  | event e =>
      dsimp only at h
      split at h
      · obtain ⟨s', hstep, rfl⟩ := Option.map_eq_some_iff.mp h
        have hguards := Counted.not_guarded hw.counted
        have houtcome : ∀ o, (w.reacted d e s').outcome = some o →
            o ≤ endBy cfg.taskTimeoutMs := by
          intro o ho
          unfold reacted at ho
          dsimp only at ho
          split at ho
          · rename_i hrecords
            rw [← Option.some.inj ho]
            have hends : Goes (phase d w.actor) .ended := by
              rcases records_ends hstep hrecords with ⟨k, hk⟩ | hrec
              · rw [hk]
                exact .published k
              · rw [hrec]
                exact .ends
            obtain ⟨due, hdue, hle⟩ := hends.latest ht hw.counted hw.entered
            exact (hw.due due hdue).trans hle
          · exact hw.outcome o ho
        rcases step_goes hstep hguards with hsame | hgoes
        · have hsince : (w.reacted d e s').since = w.since := if_pos hsame
          refine ⟨?_, ?_, ?_, houtcome⟩
          · exact hsame.symm ▸ hw.counted
          · rw [hsince]
            exact hsame.symm ▸ hw.entered
          · unfold deadline
            rw [hsince]
            exact hsame.symm ▸ hw.due
        · obtain ⟨due, hdue, hle⟩ := hgoes.latest ht hw.counted hw.entered
          have hnow : w.now ≤ (phase d s').latest cfg.taskTimeoutMs :=
            (hw.due due hdue).trans hle
          have hsince : (w.reacted d e s').since ≤ (phase d s').latest cfg.taskTimeoutMs ∧
              ∀ due, (phase d s').deadline cfg.taskTimeoutMs (w.reacted d e s').since = some due →
                w.now ≤ due := by
            unfold reacted
            dsimp only
            split
            · rename_i hsame
              rw [hsame]
              exact ⟨hw.entered, hw.due⟩
            · exact ⟨hnow, fun due hd => deadline_le ht hd⟩
          exact ⟨hgoes.counted hw.counted, hsince.1, hsince.2, houtcome⟩
      · exact absurd h (by simp)

theorem latest_le {t : ℚ} (ht : 0 ≤ t) {p : Phase} (hp : p.Counted) : p.latest t ≤ endBy t := by
  cases p with
  | guarded => exact hp.elim
  | starting k =>
      have hle := startBy_le ht hp.2
      unfold Phase.latest
      dsimp only
      linarith
  | running k =>
      have hle := startBy_le ht hp.2
      unfold Phase.latest
      dsimp only
      linarith
  | decided k => exact startBy_le ht hp.2
  | publishing k => exact startBy_le ht hp.2
  | backoff k => exact startBy_le ht hp.2.le
  | recording => exact le_refl _
  | ended => exact le_refl _

/-- Every phase goes on, but the last. -/
theorem exists_goes {p : Phase} (hp : p.Counted) : p = .ended ∨ ∃ q, Goes p q := by
  cases p with
  | guarded => exact hp.elim
  | starting k => exact .inr ⟨_, .runs k⟩
  | running k => exact .inr ⟨_, .decides k⟩
  | decided k => exact .inr ⟨_, .publishes k⟩
  | publishing k => exact .inr ⟨_, .published k⟩
  | backoff k => exact .inr ⟨_, .retries k⟩
  | recording => exact .inr ⟨_, .ends⟩
  | ended => exact .inl rfl

/-- The outcome is recorded by the given time, and the delivery has ended by then. -/
structure InTime (d : ℕ) (wait : ℚ) (w : Timed) : Prop where
  outcome : ∀ o, w.outcome = some o → o ≤ wait
  ended : phase d w.actor ≠ .ended → w.now ≤ wait

theorem OnTime.inTime (ht : 0 ≤ (cfg.taskTimeoutMs : ℚ)) {w : Timed} (hw : OnTime cfg d w) :
    InTime d (endBy cfg.taskTimeoutMs) w := by
  refine ⟨hw.outcome, fun hopen => ?_⟩
  rcases exists_goes hw.counted with hended | ⟨q, hq⟩
  · exact absurd hended hopen
  · obtain ⟨due, hdue, hle⟩ := hq.latest ht hw.counted hw.entered
    exact (hw.due due hdue).trans (hle.trans (latest_le ht (hq.counted hw.counted)))

/-- The execution of a delivery is about to start. -/
def Executing (cfg : ActorConfig) (d : ℕ) (s : Actor) : Prop :=
  Steps.Reachable (Actor.step cfg) Actor.init s ∧
    ∃ del, s.deliveries d = some del ∧ del.stage = .starting 1

theorem start_onTime {s : Actor} (hs : Executing cfg d s) : OnTime cfg d (start s) := by
  obtain ⟨-, del, hdel, hstage⟩ := hs
  have hphase : phase d (start s).actor = .starting 1 := by
    rw [show (start s).actor = s from rfl, phase_of hdel, hstage]
    rfl
  refine ⟨?_, ?_, ?_, fun o ho => absurd ho (by simp [start])⟩
  · rw [hphase]
    exact ⟨le_refl 1, by decide⟩
  · rw [hphase]
    simp [Phase.latest, startBy, start]
  · unfold deadline
    rw [hphase]
    intro due hdue
    exact (Option.some.inj hdue).le

/-- **An execution ends within three attempts and two back-offs.** -/
theorem run_inTime (ht : 0 ≤ (cfg.taskTimeoutMs : ℚ)) {s : Actor} {es : List TimedEvent}
    {w : Timed} (hs : Executing cfg d s) (hrun : Steps.run (step cfg d) (start s) es = some w) :
    InTime d (endBy cfg.taskTimeoutMs) w :=
  (Steps.invariant (fun _ _ _ hw => OnTime.step ht hw) (start_onTime hs) hrun).inTime ht

end Timed

/-! ### The wait of the caller -/

/-- The wait in full: with the retry of time-outs it has the margin above three attempts. -/
theorem taskWaitMs_eq {t : Decimal} (hmax : retryAttempts • t + .ofInt 5300 < maxTimerMs)
    (hpos : 0 < t) (r : Bool) :
    ((taskWaitMs t r : Decimal) : ℚ) = if r = true then endBy t + 5000 else t := by
  have hthree : ((retryAttempts • t : Decimal) : ℚ) = 3 * t := by
    have : retryAttempts • t = t + t + t := by
      unfold retryAttempts
      rw [succ_nsmul, two_nsmul]
    rw [this, Decimal.coe_add, Decimal.coe_add]
    ring
  have hpos' : (0 : ℚ) < t := by
    have := Decimal.lt_iff.mp hpos
    rwa [Decimal.coe_zero] at this
  have hbelow : 3 * (t : ℚ) + 5300 < 2147483647 := by
    have := Decimal.lt_iff.mp hmax
    rw [Decimal.coe_add, hthree] at this
    simpa [maxTimerMs] using this
  cases r with
  | false =>
      have hle : t ≤ maxTimerMs := by
        refine le_of_lt (Decimal.lt_iff.mpr ?_)
        simp only [maxTimerMs, Decimal.coe_ofInt]
        push_cast
        linarith
      simp [taskWaitMs, min_eq_left hle]
  | true =>
      set total : Decimal := retryAttempts • t + taskWaitMarginMs + 1 • retryBaseDelayMs
        + 2 • retryBaseDelayMs with htotal
      have hvalue : (total : ℚ) = endBy t + 5000 := by
        rw [htotal, one_nsmul, two_nsmul]
        simp only [Decimal.coe_add, hthree, taskWaitMarginMs, retryBaseDelayMs,
          Decimal.coe_ofInt, endBy]
        push_cast
        ring
      have hle : total ≤ maxTimerMs := by
        refine le_of_lt (Decimal.lt_iff.mpr ?_)
        rw [hvalue]
        simp only [maxTimerMs, Decimal.coe_ofInt, endBy]
        push_cast
        linarith
      have hwait : taskWaitMs t true = min total maxTimerMs := rfl
      rw [hwait, min_eq_left hle, hvalue]
      simp

/-! ### A slow task without the retry -/

/-- No stop has come. -/
def quietSignals : Signals := ⟨false, none⟩

theorem interruption_quiet (p : Payload) : interruption quietSignals p = none := rfl

namespace Timed

/-- The watched delivery is at a stage, which it entered at a given time. -/
structure At (d : ℕ) (w : Timed) (stage : Stage) (now since : ℚ) : Prop where
  delivery : ∃ del, w.actor.deliveries d = some del ∧ del.stage = stage
  signals : w.actor.signals = quietSignals
  now : w.now = now
  since : w.since = since

theorem At.phase {w : Timed} {stage : Stage} {now since : ℚ} (h : At d w stage now since) :
    Timed.phase d w.actor = stage.phase := by
  obtain ⟨⟨del, hdel, hstage⟩, -, -, -⟩ := h
  rw [phase_of hdel, hstage]

/-- The delivery reacts and goes to another phase. -/
theorem At.act {w : Timed} {stage : Stage} {now since : ℚ} (h : At d w stage now since)
    (cfg : ActorConfig) (a : Act) (stage' : Stage)
    (hstep : ∀ del : Delivery, del.stage = stage →
      ∃ del', del.step cfg quietSignals a = some del' ∧ del'.stage = stage')
    (hphase : stage'.phase ≠ stage.phase)
    (hfires : (ActorEvent.act d a).fires d = true →
      stage.phase.deadline cfg.taskTimeoutMs since = some now) :
    ∃ w', step cfg d w (.event (.act d a)) = some w' ∧ At d w' stage' now now ∧
      ((ActorEvent.act d a).records d = true → w'.outcome = some now) := by
  obtain ⟨del, hdel, hstage⟩ := h.delivery
  obtain ⟨del', hdel', hstage'⟩ := hstep del hstage
  have hactor : w.actor.step cfg (.act d a) = some { w.actor.setDelivery d del' with
      inFlight := Actor.track d a del' w.actor.inFlight } := by
    simp only [Actor.step, hdel, h.signals, hdel', Option.map_some]
  have hfind : ({ w.actor.setDelivery d del' with
      inFlight := Actor.track d a del' w.actor.inFlight } : Actor).deliveries d = some del' :=
    Actor.setDelivery_self w.actor d del'
  refine ⟨w.reacted d (.act d a) { w.actor.setDelivery d del' with
      inFlight := Actor.track d a del' w.actor.inFlight }, ?_, ?_, ?_⟩
  · unfold step
    dsimp only
    rw [if_pos, hactor, Option.map_some]
    intro hfire
    unfold deadline
    rw [h.phase, h.since, h.now]
    exact hfires hfire
  · refine ⟨⟨del', hfind, hstage'⟩, h.signals, h.now, ?_⟩
    unfold reacted
    dsimp only
    rw [if_neg, h.now]
    rw [phase_of hfind, hstage', h.phase]
    exact hphase
  · intro hrecords
    unfold reacted
    dsimp only
    rw [if_pos hrecords, h.now]

/-- Time passes up to the deadline. -/
theorem At.passes {w : Timed} {stage : Stage} {now since : ℚ} (h : At d w stage now since)
    (cfg : ActorConfig) (due : ℚ)
    (hdue : stage.phase.deadline cfg.taskTimeoutMs since = some due) (hle : now ≤ due) :
    ∃ w', step cfg d w (.passes due) = some w' ∧ At d w' stage due since := by
  refine ⟨{ w with now := due }, ?_, ⟨h.delivery, h.signals, rfl, h.since⟩⟩
  unfold step
  dsimp only
  rw [if_pos]
  refine ⟨h.now ▸ hle, fun due' hdue' => ?_⟩
  have hdue' : w.deadline cfg d = some due' := hdue'
  unfold deadline at hdue'
  rw [h.phase, h.since, hdue] at hdue'
  exact (Option.some.inj hdue').le

/-- An agent without guards that does not retry time-outs. -/
def impatient (t : Decimal) : ActorConfig :=
  ⟨js "writer", js "9f86d081", false, false, false, false, t, false⟩

def watchedTask : Payload := ⟨js "task-1", js "writer", [], .finite 0⟩

/-- The task was delivered. -/
def delivered : Actor := Actor.init.setDelivery 0 ⟨watchedTask, .starting 1, []⟩

theorem delivered_executing (t : Decimal) : Executing (impatient t) 0 delivered :=
  ⟨⟨[.deliver 0 watchedTask false], rfl⟩, _, rfl, rfl⟩

theorem starts (cfg : ActorConfig) (k : ℕ) (del : Delivery) (hdel : del.stage = .starting k) :
    ∃ del', del.step cfg quietSignals .start = some del' ∧ del'.stage = .running k none := by
  refine ⟨del.startAttempt cfg quietSignals k, by simp [Delivery.step, hdel], ?_⟩
  simp [Delivery.startAttempt, interruption_quiet]

/-- The first attempt fails as it starts. -/
theorem fails_at_once (t : Decimal) :
    ∃ w, Steps.Reachable (step (impatient t) 0) (start delivered) w ∧ At 0 w (.backoff 1) 0 0 := by
  have hstart : At 0 (start delivered) (.starting 1) 0 0 := ⟨⟨_, rfl, rfl⟩, rfl, rfl, rfl⟩
  obtain ⟨w₁, h₁, hat₁, -⟩ := hstart.act (impatient t) .start (.running 1 none) (starts _ 1)
    (by simp [Stage.phase]) (by simp [ActorEvent.fires])
  obtain ⟨w₂, h₂, hat₂, -⟩ := hat₁.act (impatient t) (.settles 1 (.threw (.error [])))
    (.running 1 (some (.threw (.error []))))
    (fun del hdel => ⟨del.goto _, by simp [Delivery.step, hdel], rfl⟩)
    (by simp [Stage.phase]) (by simp [ActorEvent.fires])
  obtain ⟨w₃, h₃, hat₃, -⟩ := hat₂.act (impatient t) .resume (.backoff 1)
    (fun del hdel => ⟨del.attemptEnded (impatient t) quietSignals 1 (.threw (.error [])),
      by simp [Delivery.step, hdel],
      by simp [Delivery.attemptEnded, Delivery.caught, finalError, nonRetryable,
        interruption_quiet, Thrown.text, retryAttempts]⟩)
    (by simp [Stage.phase]) (by simp [ActorEvent.fires])
  exact ⟨w₃, (((Steps.Reachable.refl _).tail h₁).tail h₂).tail h₃, hat₃⟩

/-- The back-off is waited for, and the second attempt starts. -/
theorem starts_again (t : Decimal) {w : Timed} (h : At 0 w (.backoff 1) 0 0) :
    ∃ w', Steps.Reachable (step (impatient t) 0) w w' ∧ At 0 w' (.running 2 none) 100 100 := by
  have hdelay : ((retryBaseDelayMs : Decimal) : ℚ) = 100 := by simp [retryBaseDelayMs]
  have hdue : (Stage.backoff 1).phase.deadline t 0 = some 100 := by
    simp [Stage.phase, Phase.deadline, hdelay]
  obtain ⟨w₁, h₁, hat₁⟩ := h.passes (impatient t) 100 hdue (by norm_num)
  obtain ⟨w₂, h₂, hat₂, -⟩ := hat₁.act (impatient t) .delayed (.starting 2)
    (fun del hdel => ⟨del.goto _, by simp [Delivery.step, hdel], rfl⟩)
    (by simp [Stage.phase]) (fun _ => hdue)
  obtain ⟨w₃, h₃, hat₃, -⟩ := hat₂.act (impatient t) .start (.running 2 none) (starts _ 2)
    (by simp [Stage.phase]) (by simp [ActorEvent.fires])
  exact ⟨w₃, (((Steps.Reachable.refl _).tail h₁).tail h₂).tail h₃, hat₃⟩

/-- The second attempt times out, which is final. -/
theorem times_out {t : Decimal} (ht : 0 ≤ (t : ℚ)) {w : Timed}
    (h : At 0 w (.running 2 none) 100 100) :
    ∃ w', Steps.Reachable (step (impatient t) 0) w w' ∧ w'.outcome = some (100 + (t : ℚ)) := by
  set timeout := timeoutError (impatient t) with htimeout
  obtain ⟨w₁, h₁, hat₁⟩ := h.passes (impatient t) (100 + t) rfl (by linarith)
  obtain ⟨w₂, h₂, hat₂, -⟩ := hat₁.act (impatient t) .timer
    (.running 2 (some (.threw (.nonRetryable timeout))))
    (fun del hdel => ⟨del.abort timeout, by simp [Delivery.step, hdel, htimeout],
      by simp [Delivery.abort, hdel]⟩)
    (by simp [Stage.phase]) (fun _ => rfl)
  obtain ⟨w₃, h₃, hat₃, -⟩ := hat₂.act (impatient t) .resume (.recording (.rejected timeout))
    (fun del hdel => ⟨del.attemptEnded (impatient t) quietSignals 2
        (.threw (.nonRetryable timeout)), by simp [Delivery.step, hdel],
      by simp [Delivery.attemptEnded, Delivery.caught, finalError, nonRetryable, impatient]⟩)
    (by simp [Stage.phase]) (by simp [ActorEvent.fires])
  obtain ⟨w₄, h₄, -, houtcome⟩ := hat₃.act (impatient t) (.published (.ok ()))
    (.ended (.rejected timeout))
    (fun del hdel => ⟨del.recorded (impatient t) (.rejected timeout),
      by simp [Delivery.step, hdel], by simp⟩)
    (by simp [Stage.phase]) (by simp [ActorEvent.fires])
  exact ⟨w₄, ((((Steps.Reachable.refl _).tail h₁).tail h₂).tail h₃).tail h₄,
    houtcome (by simp [ActorEvent.records])⟩

/-- **A task can take longer than one attempt and is told of a time-out then.** -/
theorem slow_run {t : Decimal} (ht : 0 ≤ (t : ℚ)) :
    ∃ es w, Steps.run (step (impatient t) 0) (start delivered) es = some w ∧
      w.outcome = some (100 + (t : ℚ)) := by
  obtain ⟨w₁, ⟨es₁, h₁⟩, hat₁⟩ := fails_at_once t
  obtain ⟨w₂, ⟨es₂, h₂⟩, hat₂⟩ := starts_again t hat₁
  obtain ⟨w₃, ⟨es₃, h₃⟩, houtcome⟩ := times_out ht hat₂
  refine ⟨es₁ ++ (es₂ ++ es₃), w₃, ?_, houtcome⟩
  exact Steps.run_append_some.mpr ⟨w₁, h₁, Steps.run_append_some.mpr ⟨w₂, h₂, h₃⟩⟩

end Timed

/-! ### The bound of the wait -/

/-- Whoever waits for a task as long as the policy says is told its outcome: it is recorded
by then, in every execution by an agent of that time-out and that setting. -/
def TaskWaitBounds (t : Decimal) (retryOnTimeout : Bool) : Prop :=
  ∀ (cfg : ActorConfig) (d : ℕ) (s : Actor) (es : List TimedEvent) (w : Timed),
    cfg.taskTimeoutMs = t → cfg.retryOnTimeout = retryOnTimeout → Timed.Executing cfg d s →
    Steps.run (Timed.step cfg d) (Timed.start s) es = some w →
    Timed.InTime d (taskWaitMs t retryOnTimeout) w

/-- **The wait bounds a task just when time-outs are retried.** -/
theorem task_wait_bounds_iff {t : Decimal} (hpos : 0 < t)
    (hmax : retryAttempts • t + .ofInt 5300 < maxTimerMs) (r : Bool) :
    TaskWaitBounds t r ↔ r = true := by
  have ht : 0 ≤ (t : ℚ) := by
    have := Decimal.lt_iff.mp hpos
    rw [Decimal.coe_zero] at this
    exact this.le
  have hwait := taskWaitMs_eq hmax hpos r
  constructor
  · intro h
    by_contra hoff
    rw [if_neg hoff] at hwait
    obtain ⟨es, w, hrun, houtcome⟩ := Timed.slow_run ht
    have hr : (Timed.impatient t).retryOnTimeout = r := by
      cases r with
      | false => rfl
      | true => exact absurd rfl hoff
    have hin := h (Timed.impatient t) 0 Timed.delivered es w rfl hr
      (Timed.delivered_executing t) hrun
    have hle := hin.outcome _ houtcome
    rw [hwait] at hle
    linarith
  · intro hon cfg d s es w htimeout _ hs hrun
    rw [if_pos hon] at hwait
    have hin := Timed.run_inTime (by rw [htimeout]; exact ht) hs hrun
    rw [htimeout] at hin
    rw [hwait]
    exact ⟨fun o ho => (hin.outcome o ho).trans (by linarith),
      fun hopen => (hin.ended hopen).trans (by linarith)⟩

theorem task_wait_bounds_second :
    TaskWaitBounds (.ofInt 1000) true ∧ ¬ TaskWaitBounds (.ofInt 1000) false := by
  have hpos : (0 : Decimal) < .ofInt 1000 := by decide +kernel
  have hmax : retryAttempts • Decimal.ofInt 1000 + .ofInt 5300 < maxTimerMs := by decide +kernel
  exact ⟨(task_wait_bounds_iff hpos hmax true).mpr rfl,
    fun h => absurd ((task_wait_bounds_iff hpos hmax false).mp h) (by simp)⟩

theorem second_attempt_late :
    ¬ ∀ (t : Decimal) (r : Bool), 0 < t → retryAttempts • t + .ofInt 5300 < maxTimerMs →
      TaskWaitBounds t r := by
  intro h
  have hpos : (0 : Decimal) < .ofInt 1000 := by decide +kernel
  have hmax : retryAttempts • Decimal.ofInt 1000 + .ofInt 5300 < maxTimerMs := by decide +kernel
  have hvalue : ((Decimal.ofInt 1000 : Decimal) : ℚ) = 1000 := by simp
  obtain ⟨es, w, hrun, houtcome⟩ := Timed.slow_run (t := .ofInt 1000) (by rw [hvalue]; norm_num)
  have hin := h _ false hpos hmax (Timed.impatient (.ofInt 1000)) 0 Timed.delivered es w rfl rfl
    (Timed.delivered_executing _) hrun
  have hle := hin.outcome _ houtcome
  rw [taskWaitMs_eq hmax hpos, hvalue] at hle
  norm_num at hle

end Kaiban
