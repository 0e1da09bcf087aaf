/-
What a step of a node does.

Every later proof about nodes is a case split on `Move`, which names what can happen to
the actor and the publisher together.  A run of a node is a run of its actor and a run of
its publisher, so what is proved of either holds in a node.
-/
import Kaiban.AgentNode
import Kaiban.Proofs.Actor.Reactions
import Kaiban.Proofs.Publisher.Cards

open JsString

namespace Kaiban

namespace Actor

/-- The delivery becomes this one, and the others stay. -/
def Sets (a : Actor) (d : ℕ) (del : Delivery) (a' : Actor) : Prop :=
  a'.deliveries d = some del ∧ ∀ x, x ≠ d → a'.deliveries x = a.deliveries x

theorem Sets.trans {a b c : Actor} {d : ℕ} {del del' : Delivery} (h : a.Sets d del b)
    (h' : b.Sets d del' c) : a.Sets d del' c :=
  ⟨h'.1, fun x hx => (h'.2 x hx).trans (h.2 x hx)⟩

theorem sets_deliver {cfg : ActorConfig} {a a' : Actor} {d : ℕ} {p : Payload} {b : Bool}
    (h : a.step cfg (.deliver d p b) = some a') :
    a.deliveries d = none ∧ a.Sets d (processTask cfg a.signals p b) a' := by
  simp only [step] at h
  cases hd : a.deliveries d with
  | some del => simp [hd] at h
  | none =>
      simp only [hd, Option.some.injEq] at h
      subst h
      exact ⟨rfl, setDelivery_self a d _, fun x hx => setDelivery_ne a _ hx⟩

theorem sets_act {cfg : ActorConfig} {a a' : Actor} {d : ℕ} {act : Act}
    (h : a.step cfg (.act d act) = some a') :
    ∃ del del', a.deliveries d = some del ∧ del.step cfg a.signals act = some del' ∧
      a.Sets d del' a' := by
  simp only [step] at h
  cases hd : a.deliveries d with
  | none => simp [hd] at h
  | some del =>
      simp only [hd] at h
      obtain ⟨del', hdel, rfl⟩ := Option.map_eq_some_iff.mp h
      exact ⟨del, del', rfl, hdel, setDelivery_self a d del', fun x hx => setDelivery_ne a _ hx⟩

end Actor

/-- A delivery that ends this way was stopped. -/
def Ending.isStop : Ending → Bool
  | .refused => true
  | .rejected e => e.isEmergencyStop
  | _ => false

/-- What the end of the wrapper does to the race of its attempt. -/
theorem Delivery.settles_cases {cfg : ActorConfig} {sig : Signals} {del del' : Delivery} {k : ℕ}
    {out : Outcome} (h : del.step cfg sig (.settles k out) = some del') :
    (del.stage = .running k none ∧ del' = del.goto (.running k (some out))) ∨
      (del.stage ≠ .running k none ∧ del' = del) := by
  by_cases hs : del.stage = .running k none
  · simp only [Delivery.step, hs, if_true, Option.some.injEq] at h
    exact .inl ⟨hs, h.symm⟩
  · refine .inr ⟨hs, ?_⟩
    cases Delivery.reaction h with
    | settled j out hj => exact absurd hj hs
    | late a ha => rfl

/-- No race opens or is decided. -/
def SameRace (del del' : Delivery) : Prop :=
  ∀ k, del'.stage = .running k none ↔ del.stage = .running k none

/-- Only a start, a settlement and a timer touch a race that is open, or open one. -/
theorem Reaction.sameRace {cfg : ActorConfig} {sig : Signals} {del del' : Delivery} {a : Act}
    (hr : Reaction cfg sig del a del') (hstart : a ≠ .start) (htimer : a ≠ .timer)
    (hsettles : ∀ j out, a ≠ .settles j out) : SameRace del del' := by
  intro k
  constructor
  · intro hopen
    rcases hr.racing hopen with h | ⟨-, h | ⟨j, out, h⟩⟩
    · exact absurd h hstart
    · exact absurd h htimer
    · exact absurd h (hsettles j out)
  · intro hopen
    cases hr with
    | started => exact absurd rfl hstart
    | settled j out => exact absurd rfl (hsettles j out)
    | late act hact =>
        rcases hact with h | ⟨j, out, h⟩
        · exact absurd h htimer
        · exact absurd h (hsettles j out)
    | timedOut => exact absurd rfl htimer
    | _ =>
        rename_i hs
        rw [hs] at hopen
        exact absurd hopen (by simp)

/-- A `catch` calls no hook. -/
theorem Delivery.caught_unhooked {cfg : ActorConfig} {sig : Signals} (del : Delivery) (k : ℕ)
    (err : Thrown) : ∃ cs, (del.caught cfg sig k err).calls = del.calls ++ cs ∧
      cs.any Call.isStopHook = false := by
  rcases del.caught_cases k err with
    ⟨e, -, h⟩ | ⟨-, -, h⟩ | ⟨t, -, -, -, h⟩ | ⟨t, -, -, -, h⟩
  · rw [h, failNonRetryable_calls, List.append_assoc]
    refine ⟨_, rfl, ?_⟩
    split <;> rfl
  · exact ⟨[], by rw [h]; simp, rfl⟩
  · exact ⟨[], by rw [h]; simp, rfl⟩
  · rw [h, publishToDlq_calls, breaker_calls, List.append_assoc]
    refine ⟨_, rfl, ?_⟩
    split <;> rfl

namespace AgentNode

variable {cfg : AgentNodeConfig} {n n' : AgentNode}

/-! ### Aborts -/

/-- The signals of these attempts, aborted. -/
def aborting (s : AgentStatePublisher) (is : List ℕ) (reason : NonRetryableError) :
    AgentStatePublisher :=
  { s with
    attempts := fun i => (s.attempts i).map fun att =>
      if i ∈ is then { att with aborted := att.aborted.or (some reason) } else att }

theorem run_aborts {pub : PublisherConfig} {reason : NonRetryableError} :
    ∀ (is : List ℕ) {s t : AgentStatePublisher},
      Steps.run (AgentStatePublisher.step pub) s (is.map fun i => .abort i reason) = some t →
      t = aborting s is reason := by
  intro is
  induction is with
  | nil =>
      intro s t h
      obtain rfl : s = t := by simpa using h
      have hsame : (fun i => (s.attempts i).map fun att =>
          if i ∈ ([] : List ℕ) then { att with aborted := att.aborted.or (some reason) } else att)
            = s.attempts := by
        funext i
        cases s.attempts i <;> simp
      unfold aborting
      rw [hsame]
  | cons j rest ih =>
      intro s t h
      obtain ⟨m, hm, hrest⟩ := Steps.run_cons_some.mp h
      obtain ⟨att, hatt, rfl⟩ := Option.map_eq_some_iff.mp hm
      rw [ih hrest]
      unfold aborting AgentStatePublisher.setAttempt
      congr 1
      funext i
      dsimp only
      by_cases hi : i = j
      · subst hi
        rw [if_pos rfl, hatt]
        by_cases hmem : i ∈ rest
        · simp [hmem]
        · simp [hmem]
      · rw [if_neg hi]
        simp [hi]

theorem mem_attemptsOf {owns : ℕ → Bool} {i : ℕ} :
    i ∈ n.attemptsOf owns ↔ i ≤ n.publisher.attemptSeq ∧ ∃ d k, n.owner i = some (d, k) ∧
      owns d = true ∧ runningAttempt n.actor d = some k := by
  unfold attemptsOf
  rw [List.mem_filter, List.mem_range, Nat.lt_succ_iff, Option.any_eq_true]
  refine and_congr_right fun _ => ⟨?_, ?_⟩
  · rintro ⟨⟨d, k⟩, howner, h⟩
    rw [Bool.and_eq_true, decide_eq_true_iff] at h
    exact ⟨d, k, howner, h.1, h.2⟩
  · rintro ⟨d, k, howner, howns, hrunning⟩
    exact ⟨(d, k), howner, by simp [howns, hrunning]⟩

theorem runningAttempt_eq_some {a : Actor} {d k : ℕ} :
    runningAttempt a d = some k ↔
      ∃ del race, a.deliveries d = some del ∧ del.stage = .running k race := by
  unfold runningAttempt
  cases a.deliveries d with
  | none => simp
  | some del =>
      rw [Option.map_some]
      constructor
      · intro h
        split at h
        · rename_i j race hs
          obtain rfl := Option.some.inj h
          exact ⟨del, race, rfl, Option.some.inj hs⟩
        · exact absurd h (by simp)
      · rintro ⟨del', race, hdel, hs⟩
        obtain rfl := Option.some.inj hdel
        rw [hs]

/-! ### Steps of a node -/

/-- The event is none of those in which the actor and the publisher meet about a task: the
start of an attempt, a publish of the actor, the end of a handler. -/
def Elsewhere : NodeEvent → Prop
  | .act _ .start | .act _ (.published _) | .settles _ _ => False
  | _ => True

/-- What a step of a node can be. -/
inductive Move (cfg : AgentNodeConfig) (n : AgentNode) : NodeEvent → AgentNode → Prop
  | arrived (d : ℕ) (p : Payload) (b : Bool) (a' : Actor) (hnone : n.actor.deliveries d = none)
      (hsets : n.actor.Sets d (processTask cfg.actor n.actor.signals p b) a') :
      Move cfg n (.deliver d p b) { n with actor := a' }
  /-- The actor goes on alone. -/
  | reacted (d : ℕ) (a : Act) (del del' : Delivery) (a' : Actor)
      (hdel : n.actor.deliveries d = some del)
      (hr : Reaction cfg.actor n.actor.signals del a del') (hrace : SameRace del del')
      (hstop : ∀ ending, a = .published (.ok ()) → del.stage = .recording ending →
        ending.isStop = false) (hsets : n.actor.Sets d del' a') :
      Move cfg n (.act d a) { n with actor := a' }
  /-- The wrapper is called, and may be over at once. -/
  | invoked (d k : ℕ) (del : Delivery) (title : JsString) (t : AgentStatePublisher)
      (ended : Option Outcome) (a' : Actor) (hdel : n.actor.deliveries d = some del)
      (hs : del.stage = .starting k) (htitle : taskTitle del.payload = some title)
      (hcases : AgentStatePublisher.Invoked n.publisher del.payload title t)
      (hatt : t.attempts (n.publisher.attemptSeq + 1) = some ⟨del.payload, title, none, ended⟩)
      (hseq : t.attemptSeq = n.publisher.attemptSeq + 1)
      (hold : ∀ i, i ≠ n.publisher.attemptSeq + 1 → t.attempts i = n.publisher.attempts i)
      (hspares : ∀ taskId, del.payload.taskId ≠ taskId →
        AgentStatePublisher.Spares taskId n.publisher t)
      (hsets : n.actor.Sets d ((del.call [.handler k]).goto (.running k ended)) a') :
      Move cfg n (.act d .start)
        ⟨a', t, fun i => if i = n.publisher.attemptSeq + 1 then some (d, k) else n.owner i⟩
  /-- The wrapper finds no title, and never begins. -/
  | untitled (d k : ℕ) (del : Delivery) (a' : Actor) (hdel : n.actor.deliveries d = some del)
      (hs : del.stage = .starting k) (htitle : taskTitle del.payload = none)
      (hsets : n.actor.Sets d
        ((del.call [.handler k]).goto (.running k (some (.threw conversionError)))) a') :
      Move cfg n (.act d .start) { n with actor := a' }
  /-- A timer or a stop aborts what runs for some of the deliveries. -/
  | aborted (e : NodeEvent) (owns : ℕ → Bool) (reason : NonRetryableError) (a' : Actor)
      (hdel : ∀ d, a'.deliveries d = (n.actor.deliveries d).map fun del =>
        if owns d then del.abort reason else del) (helsewhere : Elsewhere e) :
      Move cfg n e ⟨a', aborting n.publisher (n.attemptsOf owns) reason, n.owner⟩
  | settled (i d k : ℕ) (out : HandlerOutcome) (att : Attempt) (del del' : Delivery) (a' : Actor)
      (hatt : n.publisher.attempts i = some att) (hended : att.ended = none)
      (howner : n.owner i = some (d, k)) (hdel : n.actor.deliveries d = some del)
      (hr : (del.stage = .running k none ∧ del' = del.goto (.running k
          (some (n.publisher.settled cfg.publisher i att out).2))) ∨
        (del.stage ≠ .running k none ∧ del' = del)) (hsets : n.actor.Sets d del' a') :
      Move cfg n (.settles i out)
        ⟨a', (n.publisher.settled cfg.publisher i att out).1.setAttempt i
          { att with ended := some (n.publisher.settled cfg.publisher i att out).2 }, n.owner⟩
  /-- The record of a stop is published, and the hook reports the stop. -/
  | stopped (d : ℕ) (del : Delivery) (ending : Ending) (a' : Actor)
      (hdel : n.actor.deliveries d = some del) (hs : del.stage = .recording ending)
      (hstop : ending.isStop = true)
      (hsets : n.actor.Sets d (del.recorded cfg.actor ending) a') :
      Move cfg n (.act d (.published (.ok ())))
        ⟨a', n.publisher.publishStopped cfg.publisher del.payload, n.owner⟩
  /-- The publisher announces the agent's row. -/
  | announced (e : NodeEvent) (row : AgentState) (s : AgentStatePublisher)
      (hs : s = n.publisher ∨ s = n.publisher.setCurrent .idle none) (helsewhere : Elsewhere e) :
      Move cfg n e { n with publisher := s.publish (some row) none }

/-- The end of an attempt, at the actor. -/
theorem settleRace_some {d k : ℕ} {out : Outcome} (h : n.settleRace cfg d k out = some n') :
    ∃ del del' a', n.actor.deliveries d = some del ∧
      ((del.stage = .running k none ∧ del' = del.goto (.running k (some out))) ∨
        (del.stage ≠ .running k none ∧ del' = del)) ∧
      n.actor.Sets d del' a' ∧ n' = { n with actor := a' } := by
  obtain ⟨a', ha, rfl⟩ := Option.map_eq_some_iff.mp h
  obtain ⟨del, del', hdel, hstep, hsets⟩ := Actor.sets_act ha
  exact ⟨del, del', a', hdel, Delivery.settles_cases hstep, hsets, rfl⟩

/-- The same for a race that is open. -/
theorem settleRace_open {d k : ℕ} {out : Outcome} {del : Delivery}
    (h : n.settleRace cfg d k out = some n') (hdel : n.actor.deliveries d = some del)
    (hs : del.stage = .running k none) :
    ∃ a', n.actor.Sets d (del.goto (.running k (some out))) a' ∧ n' = { n with actor := a' } := by
  obtain ⟨del₁, del', a', hdel₁, hcases, hsets, rfl⟩ := settleRace_some h
  obtain rfl : del = del₁ := Option.some.inj (hdel.symm.trans hdel₁)
  rcases hcases with ⟨-, rfl⟩ | ⟨hne, -⟩
  · exact ⟨a', hsets, rfl⟩
  · exact absurd hs hne

/-- The call of the wrapper. -/
theorem start_move {d : ℕ} (h : n.step cfg (.act d .start) = some n') :
    Move cfg n (.act d .start) n' := by
  obtain ⟨a, ha, hreact⟩ := Option.bind_eq_some_iff.mp h
  obtain ⟨del, del', hdel, hstep, hsets⟩ := Actor.sets_act ha
  have hr := Delivery.reaction hstep
  dsimp only at hreact
  rw [hsets.1] at hreact
  cases hr with
  | late act hact => simp at hact
  | started k hs =>
      rcases del.startAttempt_cases k with ⟨e, -, heq⟩ | ⟨-, heq⟩
      · have hrace : SameRace del (del.startAttempt cfg.actor n.actor.signals k) := by
          intro j
          rw [heq, hs]
          simp
        rw [heq] at hreact
        have hn' : { n with actor := a } = n' := Option.some.inj hreact
        rw [← hn']
        exact .reacted d .start del _ a hdel (.started k hs) hrace (fun _ he => by simp at he) hsets
      · rw [heq] at hreact hsets
        have hinvoke : ({ n with actor := a } : AgentNode).invoke cfg d k del.payload = some n' :=
          hreact
        unfold invoke at hinvoke
        cases htitle : taskTitle del.payload with
        | none =>
            rw [htitle] at hinvoke
            obtain ⟨a', hsets', rfl⟩ := settleRace_open hinvoke hsets.1 rfl
            exact .untitled d k del a' hdel hs htitle (hsets.trans hsets')
        | some title =>
            rw [htitle] at hinvoke
            obtain ⟨hcases, hseq, hold, hspares⟩ :=
              AgentStatePublisher.invoked_cases cfg.publisher n.publisher del.payload title
            obtain ⟨ended, hatt⟩ : ∃ ended,
              (n.publisher.invoked cfg.publisher del.payload title).attempts
                (n.publisher.attemptSeq + 1) = some ⟨del.payload, title, none, ended⟩ := by
              cases hcases with
              | refused e he hcard hmark hcurrent hatt => exact ⟨_, hatt⟩
              | begun hcard hmark hcurrent hatt => exact ⟨_, hatt⟩
            dsimp only at hinvoke
            rw [hseq, hatt] at hinvoke
            cases ended with
            | none =>
                rw [← Option.some.inj hinvoke]
                exact .invoked d k del title _ none a hdel hs htitle hcases hatt hseq hold hspares
                  hsets
            | some out =>
                obtain ⟨a', hsets', rfl⟩ := settleRace_open hinvoke hsets.1 rfl
                exact .invoked d k del title _ (some out) a' hdel hs htitle hcases hatt hseq hold
                  hspares (hsets.trans hsets')

theorem hooked_eq {a a' : Actor} {d : ℕ} {del del' : Delivery} {cs : List Call}
    (hdel : a.deliveries d = some del) (hsets : a.Sets d del' a')
    (hcalls : del'.calls = del.calls ++ cs) :
    hooked a a' d = if cs.any Call.isStopHook then some del'.payload else none := by
  unfold hooked
  rw [hdel, hsets.1]
  dsimp only
  rw [hcalls, List.drop_left]

/-- The hook is called with the record of a stop, and with no other. -/
theorem recorded_calls (hwired : cfg.actor.hasStopHook = true) (del : Delivery) (ending : Ending) :
    (del.recorded cfg.actor ending).calls
      = del.calls ++ if ending.isStop then [.onEmergencyStop] else [] := by
  unfold Delivery.recorded
  rw [hwired]
  cases ending with
  | rejected e =>
      cases he : e.isEmergencyStop <;> simp [Ending.isStop, he]
  | _ => simp [Ending.isStop]

/-- A publish of the actor resolves or fails. -/
theorem published_move {d : ℕ} {result : Except Thrown Unit}
    (h : n.step cfg (.act d (.published result)) = some n') :
    Move cfg n (.act d (.published result)) n' := by
  obtain ⟨a, ha, hreact⟩ := Option.bind_eq_some_iff.mp h
  obtain ⟨del, del', hdel, hstep, hsets⟩ := Actor.sets_act ha
  have hr := Delivery.reaction hstep
  have hrace := hr.sameRace (by simp) (by simp) (by simp)
  -- Nothing but the end of a stop calls the hook.
  have halone : (∃ cs, del'.calls = del.calls ++ cs ∧ cs.any Call.isStopHook = false) →
      n' = { n with actor := a } := by
    rintro ⟨cs, hcalls, hany⟩
    have hnone : hooked n.actor a d = none := by
      rw [hooked_eq hdel hsets hcalls, hany]
      rfl
    dsimp only at hreact
    rw [hnone] at hreact
    exact (Option.some.inj hreact).symm
  cases hr with
  | late act hact => simp at hact
  | completed k hs =>
      rw [halone ⟨[], by simp, rfl⟩]
      exact .reacted d _ del _ a hdel (.completed k hs) hrace
        (fun ending _ hrec => by rw [hs] at hrec; simp at hrec) hsets
  | notCompleted k e hs =>
      rw [halone (del.caught_unhooked k e)]
      exact .reacted d _ del _ a hdel (.notCompleted k e hs) hrace (fun _ hact => by simp at hact)
        hsets
  | notRecorded ending e hs =>
      rw [halone ⟨[], by simp, rfl⟩]
      exact .reacted d _ del _ a hdel (.notRecorded ending e hs) hrace
        (fun _ hact => by simp at hact) hsets
  | recorded ending hs =>
      cases hstop : ending.isStop with
      | false =>
          have hcalls := recorded_calls cfg.wired del ending
          rw [hstop] at hcalls
          rw [halone ⟨[], hcalls, rfl⟩]
          refine .reacted d _ del _ a hdel (.recorded ending hs) hrace (fun e _ hrec => ?_) hsets
          rw [hs] at hrec
          exact (by simpa using hrec : ending = e) ▸ hstop
      | true =>
          have hcalls := recorded_calls cfg.wired del ending
          rw [hstop] at hcalls
          have hsome : hooked n.actor a d = some del.payload := by
            rw [hooked_eq hdel hsets hcalls]
            exact congrArg some (del.recorded_payload ending)
          dsimp only at hreact
          rw [hsome] at hreact
          rw [← Option.some.inj hreact]
          exact .stopped d del ending a hdel hs hstop hsets

/-- A timer aborts the attempt it is for. -/
theorem timer_step {sig : Signals} {del del' : Delivery}
    (h : del.step cfg.actor sig .timer = some del') :
    del' = del.abort (timeoutError cfg.actor) := by
  rcases del.abort_cases (timeoutError cfg.actor) with ⟨k, hs, -⟩ | ⟨hno, habort⟩
  · simp only [Delivery.step, hs, Option.some.injEq] at h
    exact h.symm
  · rw [habort]
    cases Delivery.reaction h with
    | late act hact => rfl
    | timedOut k hs => exact absurd hs (hno k)

theorem timer_move {d : ℕ} (h : n.step cfg (.act d .timer) = some n') :
    Move cfg n (.act d .timer) n' := by
  obtain ⟨a, ha, hreact⟩ := Option.bind_eq_some_iff.mp h
  obtain ⟨del, del', hdel, hstep, hsets⟩ := Actor.sets_act ha
  obtain ⟨s, hs, rfl⟩ := Option.map_eq_some_iff.mp hreact
  rw [run_aborts _ hs]
  refine .aborted _ (fun x => x = d) (timeoutError cfg.actor) a (fun x => ?_) trivial
  by_cases hx : x = d
  · subst hx
    rw [hsets.1, hdel, timer_step hstep]
    simp
  · rw [hsets.2 x hx]
    cases n.actor.deliveries x <;> simp [hx]

/-- A stop aborts what runs for the deliveries it stops. -/
theorem emergencyStop_move {t : Decimal} (h : n.step cfg (.emergencyStop t) = some n') :
    Move cfg n (.emergencyStop t) n' := by
  obtain ⟨s, hs, rfl⟩ := Option.map_eq_some_iff.mp h
  rw [run_aborts _ hs]
  refine .aborted _ (n.stoppedBy t) emergencyStopError _ (fun d => ?_) trivial
  unfold stoppedBy Actor.emergencyStop
  split
  · cases n.actor.deliveries d <;> simp
  · cases hdel : n.actor.deliveries d <;> simp [hdel]

theorem stop_move (h : n.step cfg .stop = some n') : Move cfg n .stop n' := by
  obtain ⟨s, hs, rfl⟩ := Option.map_eq_some_iff.mp h
  rw [run_aborts _ hs]
  refine .aborted _ (fun d => d ∈ n.actor.inFlight) stoppedError _ (fun d => ?_) trivial
  unfold Actor.stop
  cases hdel : n.actor.deliveries d <;> simp [hdel]

/-- The handler inside the wrapper settles. -/
theorem settles_move {i : ℕ} {out : HandlerOutcome} (h : n.step cfg (.settles i out) = some n') :
    Move cfg n (.settles i out) n' := by
  obtain ⟨s, hs, hrace⟩ := Option.bind_eq_some_iff.mp h
  obtain ⟨att, hatt, hended, rfl⟩ := AgentStatePublisher.step_settles hs
  have hset : ((n.publisher.settled cfg.publisher i att out).1.setAttempt i
      { att with ended := some (n.publisher.settled cfg.publisher i att out).2 }).attempts i
        = some { att with ended := some (n.publisher.settled cfg.publisher i att out).2 } :=
    if_pos rfl
  rw [hset] at hrace
  cases howner : n.owner i with
  | none =>
      rw [howner] at hrace
      exact absurd hrace (by simp)
  | some o =>
      obtain ⟨d, k⟩ := o
      rw [howner] at hrace
      obtain ⟨del, del', a', hdel, hcases, hsets, rfl⟩ := settleRace_some hrace
      exact .settled i d k out att del del' a' hatt hended howner hdel hcases hsets

/-- **Every step of a node is one of the moves.** -/
theorem step_move {e : NodeEvent} (h : n.step cfg e = some n') : Move cfg n e n' := by
  cases e with
  | deliver d p b =>
      obtain ⟨a, ha, rfl⟩ := Option.map_eq_some_iff.mp h
      obtain ⟨hnone, hsets⟩ := Actor.sets_deliver ha
      exact .arrived d p b a hnone hsets
  | act d a =>
      cases a with
      | start => exact start_move h
      | timer => exact timer_move h
      | published result => exact published_move h
      | settles j out =>
          obtain ⟨a, -, hreact⟩ := Option.bind_eq_some_iff.mp h
          exact absurd hreact (by simp)
      | _ =>
          obtain ⟨a, ha, hreact⟩ := Option.bind_eq_some_iff.mp h
          obtain ⟨del, del', hdel, hstep, hsets⟩ := Actor.sets_act ha
          have hr := Delivery.reaction hstep
          rw [← Option.some.inj hreact]
          exact .reacted d _ del del' a hdel hr (hr.sameRace (by simp) (by simp) (by simp))
            (fun _ hact => by simp at hact) hsets
  | settles i out => exact settles_move h
  | emergencyStop t => exact emergencyStop_move h
  | stop => exact stop_move h
  | publishIdle =>
      rw [← Option.some.inj h]
      exact .announced _ _ _ (.inr rfl) trivial
  | heartbeat =>
      rw [← Option.some.inj h]
      exact .announced _ _ _ (.inl rfl) trivial

/-! ### The runs of the two parts -/

/-- What happened is a run of the actor and a run of the publisher. -/
def Parts (cfg : AgentNodeConfig) (n n' : AgentNode) : Prop :=
  (∃ es, Steps.run (Actor.step cfg.actor) n.actor es = some n'.actor) ∧
    ∃ es, Steps.run (AgentStatePublisher.step cfg.publisher) n.publisher es = some n'.publisher

theorem Parts.refl (cfg : AgentNodeConfig) (n : AgentNode) : Parts cfg n n :=
  ⟨⟨[], rfl⟩, [], rfl⟩

theorem Parts.trans {a b c : AgentNode} (h : Parts cfg a b) (h' : Parts cfg b c) :
    Parts cfg a c := by
  obtain ⟨⟨es, hes⟩, fs, hfs⟩ := h
  obtain ⟨⟨es', hes'⟩, fs', hfs'⟩ := h'
  exact ⟨⟨es ++ es', Steps.run_append_some.mpr ⟨_, hes, hes'⟩⟩,
    fs ++ fs', Steps.run_append_some.mpr ⟨_, hfs, hfs'⟩⟩

theorem Parts.actor {a : Actor} {e : ActorEvent} (h : n.actor.step cfg.actor e = some a) :
    Parts cfg n { n with actor := a } :=
  ⟨⟨[e], Steps.run_cons_some.mpr ⟨a, h, rfl⟩⟩, [], rfl⟩

theorem Parts.publisher {s : AgentStatePublisher} {owner : ℕ → Option (ℕ × ℕ)}
    (es : List PublisherEvent)
    (h : Steps.run (AgentStatePublisher.step cfg.publisher) n.publisher es = some s) :
    Parts cfg n { n with publisher := s, owner := owner } :=
  ⟨⟨[], rfl⟩, es, h⟩

theorem Parts.settleRace {d k : ℕ} {out : Outcome} (h : n.settleRace cfg d k out = some n') :
    Parts cfg n n' := by
  obtain ⟨a', ha, rfl⟩ := Option.map_eq_some_iff.mp h
  exact .actor ha

theorem Parts.invoke {d k : ℕ} {p : Payload} (h : n.invoke cfg d k p = some n') :
    Parts cfg n n' := by
  unfold AgentNode.invoke at h
  cases htitle : taskTitle p with
  | none =>
      rw [htitle] at h
      exact .settleRace h
  | some title =>
      rw [htitle] at h
      have hstep : n.publisher.step cfg.publisher (.invoke p)
          = some (n.publisher.invoked cfg.publisher p title) := by
        simp only [AgentStatePublisher.step, htitle]
      have hrun : Steps.run (AgentStatePublisher.step cfg.publisher) n.publisher [.invoke p]
          = some (n.publisher.invoked cfg.publisher p title) :=
        Steps.run_cons_some.mpr ⟨_, hstep, rfl⟩
      dsimp only at h
      split at h
      · rw [← Option.some.inj h]
        exact .publisher [.invoke p] hrun
      · exact (Parts.publisher [.invoke p] hrun).trans (.settleRace h)

/-- **A step of a node is a run of its actor and a run of its publisher.** -/
theorem parts_step {e : NodeEvent} (h : n.step cfg e = some n') : Parts cfg n n' := by
  cases e with
  | deliver d p b =>
      obtain ⟨a, ha, rfl⟩ := Option.map_eq_some_iff.mp h
      exact .actor ha
  | act d act =>
      obtain ⟨a, ha, hreact⟩ := Option.bind_eq_some_iff.mp h
      refine (Parts.actor ha).trans ?_
      cases act with
      | start =>
          dsimp only at hreact
          split at hreact
          · exact .invoke hreact
          · exact Option.some.inj hreact ▸ .refl cfg _
      | settles j out => exact absurd hreact (by simp)
      | timer =>
          obtain ⟨s, hs, rfl⟩ := Option.map_eq_some_iff.mp hreact
          exact Parts.publisher (n := { n with actor := a }) _ hs
      | published result =>
          dsimp only at hreact
          split at hreact
          · exact Option.some.inj hreact ▸ .refl cfg _
          · rename_i p _
            rw [← Option.some.inj hreact]
            exact Parts.publisher (n := { n with actor := a }) [.publishStopped p] rfl
      | _ => exact Option.some.inj hreact ▸ .refl cfg _
  | settles i out =>
      obtain ⟨s, hs, hrace⟩ := Option.bind_eq_some_iff.mp h
      split at hrace
      · refine Parts.trans ?_ (.settleRace hrace)
        exact .publisher [.settles i out] (Steps.run_cons_some.mpr ⟨s, hs, rfl⟩)
      · exact absurd hrace (by simp)
  | emergencyStop t =>
      obtain ⟨s, hs, rfl⟩ := Option.map_eq_some_iff.mp h
      exact ⟨⟨[.emergencyStop t], rfl⟩, _, hs⟩
  | stop =>
      obtain ⟨s, hs, rfl⟩ := Option.map_eq_some_iff.mp h
      exact ⟨⟨[.stop], rfl⟩, _, hs⟩
  | publishIdle =>
      rw [← Option.some.inj h]
      exact .publisher [.publishIdle] rfl
  | heartbeat =>
      rw [← Option.some.inj h]
      exact .publisher [.heartbeat] rfl

/-- **A run of a node is a run of its actor and a run of its publisher.** -/
theorem parts_run {es : List NodeEvent} (h : Steps.run (step cfg) n es = some n') :
    Parts cfg n n' :=
  Steps.run_relation (P := fun _ => True) (Parts.refl cfg) (fun _ _ _ => Parts.trans)
    (fun _ _ _ _ _ => trivial) (fun _ _ _ _ => parts_step) trivial h

end AgentNode

end Kaiban
