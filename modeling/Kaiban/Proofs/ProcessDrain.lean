/-
What a worker process has done when it exits.

A drain answers with the outcome of its shutdown, and a shutdown that has settled does not
change its mind, so the exit code says of every node whether all its parts were closed in time.
The flush is asked for after the last answer.  It is the first one unless the SDK's own
listener had a signal before a node had registered.

A deadline, the bound on the flush and the turns of the event loop are enough to come to the
exit from wherever a drain stands.
-/
import Kaiban.ProcessDrain
import Kaiban.Proofs.GracefulShutdown

open JsString

namespace Kaiban

namespace GracefulShutdown

/-! ### A settled shutdown -/

theorem Goes.outcome {s t : GracefulShutdown} (hgoes : Goes s t) (h : s.outcome ≠ none) :
    t.outcome = s.outcome := by
  cases hgoes with
  | on name rest _ => rfl
  | done _ hopen => exact absurd hopen h
  | overrun _ _ => rfl

/-- What has won the race has won it. -/
theorem step_outcome {s s' : GracefulShutdown} {e : ShutdownEvent} {o : RaceOutcome}
    (h : step s e = some s') (ho : s.outcome = some o) : s'.outcome = some o := by
  cases step_moves h with
  | recorded name e r _ _ =>
      exact ((goes_next _).outcome (by simp [ho])).trans ho
  | givenUp name e _ _ _ _ => simp [ho]
  | deadline _ hopen => exact absurd (ho.symm.trans hopen) (by simp)
  | late _ _ => exact ho

/-- After the steps have won nothing is left to happen. -/
theorem Kept.still {steps : List JsString} {s : GracefulShutdown} (h : Kept steps s)
    (hdone : s.outcome = some .done) (e : ShutdownEvent) : step s e = none := by
  have hfinished := h.finished hdone
  cases e with
  | ended e => rw [step, hfinished.idle]
  | deadline => rw [step, hfinished.timer]; rfl

/-- The timer runs as long as nothing has won the race. -/
def Timed (s : GracefulShutdown) : Prop := s.outcome = none → s.timer = true

theorem Goes.timed {s t : GracefulShutdown} (hgoes : Goes s t) (h : Timed s) : Timed t := by
  cases hgoes with
  | on name rest _ => exact h
  | done _ _ => intro hopen; exact absurd hopen (by simp [settle])
  | overrun _ hdecided => intro hopen; exact absurd hopen hdecided

theorem timed_step {s s' : GracefulShutdown} {e : ShutdownEvent} (h : Timed s)
    (hstep : step s e = some s') : Timed s' := by
  cases step_moves hstep with
  | recorded name e r _ _ => exact (goes_next _).timed h
  | givenUp name e _ _ _ _ =>
      intro hopen
      cases houtcome : s.outcome <;> simp [houtcome] at hopen
  | deadline _ _ => intro hopen; exact absurd hopen (by simp [settle])
  | late _ hdecided => intro hopen; exact absurd hopen hdecided

/-- A shutdown whose timer is running can be brought to its deadline. -/
theorem Timed.deadline {s : GracefulShutdown} (h : Timed s) (hopen : s.outcome = none) :
    ∃ s', step s .deadline = some s' ∧ s'.outcome = some .deadline := by
  refine ⟨({ s with result := { s.result with timedOut := true } }.settle .deadline), ?_, rfl⟩
  rw [step, if_pos (h hopen), if_pos hopen]

/-- Steps that are all recorded, and none of which threw, have all finished. -/
theorem finished_of_no_error {ends : List (JsString × StepEnd)} (h : ∀ p ∈ ends, p.2.Recorded)
    (hnone : ends.filterMap failedStep = []) :
    ends.filterMap finishedStep = ends.map Prod.fst := by
  induction ends with
  | nil => rfl
  | cons p rest ih =>
      obtain ⟨name, e⟩ := p
      cases e with
      | finished =>
          have hrest : rest.filterMap failedStep = [] := by
            rwa [List.filterMap_cons_none (f := failedStep) rfl] at hnone
          rw [List.filterMap_cons_some (f := finishedStep) rfl, List.map_cons,
            ih (fun q hq => h q (List.mem_cons_of_mem _ hq)) hrest]
      | threw err =>
          obtain ⟨message, hmessage⟩ := Option.isSome_iff_exists.mp (h _ List.mem_cons_self)
          rw [List.filterMap_cons_some (b := (name, message)) (by simp [failedStep, hmessage])]
            at hnone
          exact absurd hnone (by simp)

end GracefulShutdown

/-! ### A drain and its answer -/

namespace NodeDrain

/-- All parts of the node were closed, in order, before its deadline. -/
structure Clean (d : NodeDrain) : Prop where
  outcome : d.shutdown.outcome = some .done
  result : d.shutdown.result = ⟨workerDrainSteps, false, []⟩
  started : d.shutdown.started = workerDrainSteps

/-- The invariant of a drain that was called. -/
structure Sound (d : NodeDrain) : Prop where
  kept : d.shutdown.Kept workerDrainSteps
  timed : d.shutdown.Timed
  answered : ∀ b, d.answer = some b → d.reply = some b

theorem called_sound : Sound called := by
  refine ⟨?_, ?_, fun b hb => absurd hb (by simp [called])⟩
  · exact (GracefulShutdown.between_init _).kept_goes (GracefulShutdown.goes_next _)
  · exact (GracefulShutdown.goes_next _).timed fun _ => rfl

theorem reply_of_settled {d : NodeDrain} (h : d.shutdown.outcome ≠ none) :
    ∃ b, d.reply = some b := by
  obtain ⟨o, ho⟩ := Option.ne_none_iff_exists'.mp h
  unfold reply
  rw [ho]
  cases o with
  | done => exact ⟨_, rfl⟩
  | deadline => exact ⟨_, rfl⟩
  | rejected => exact ⟨_, rfl⟩

/-- A drain that replies goes on replying the same. -/
theorem Sound.reply_step {d : NodeDrain} {e : ShutdownEvent} {shutdown : GracefulShutdown}
    {b : Bool} (h : d.Sound) (hb : d.reply = some b) (hstep : d.shutdown.step e = some shutdown) :
    reply { d with shutdown } = some b := by
  have hkept := GracefulShutdown.kept_step h.kept hstep
  unfold reply at hb ⊢
  cases houtcome : d.shutdown.outcome with
  | none => rw [houtcome] at hb; exact absurd hb (by simp)
  | some o =>
      have hnow := GracefulShutdown.step_outcome hstep houtcome
      rw [houtcome] at hb
      dsimp only at hb ⊢
      rw [hnow]
      cases o with
      | rejected => exact hb
      | done => exact absurd (hstep.symm.trans (h.kept.still houtcome e)) (by simp)
      | deadline =>
          have hbefore := (h.kept.overrun houtcome).timedOut
          have hafter := (hkept.overrun hnow).timedOut
          dsimp only at hb ⊢
          rw [hbefore] at hb
          rw [hafter]
          exact hb

theorem Sound.step {d : NodeDrain} {e : ShutdownEvent} {shutdown : GracefulShutdown}
    (h : d.Sound) (hstep : d.shutdown.step e = some shutdown) : Sound { d with shutdown } :=
  ⟨GracefulShutdown.kept_step h.kept hstep, GracefulShutdown.timed_step h.timed hstep,
    fun b hb => h.reply_step (h.answered b hb) hstep⟩

theorem Sound.reply {d : NodeDrain} {b : Bool} (h : d.Sound) (hb : d.reply = some b) :
    Sound { d with answer := some b } := by
  refine ⟨h.kept, h.timed, fun c hc => ?_⟩
  obtain rfl : b = c := by simpa using hc
  exact hb

/-- **A drain answers true exactly if all parts of its node were closed in time.** -/
theorem Sound.clean_iff {d : NodeDrain} {b : Bool} (h : d.Sound) (hb : d.reply = some b) :
    b = true ↔ d.Clean := by
  unfold NodeDrain.reply at hb
  cases houtcome : d.shutdown.outcome with
  | none => rw [houtcome] at hb; exact absurd hb (by simp)
  | some o =>
      rw [houtcome] at hb
      cases o with
      | rejected =>
          obtain rfl := Option.some.inj hb
          exact iff_of_false (by simp) fun hc => absurd (houtcome.symm.trans hc.outcome) (by simp)
      | deadline =>
          dsimp only at hb
          rw [(h.kept.overrun houtcome).timedOut] at hb
          obtain rfl := Option.some.inj hb
          exact iff_of_false (by simp) fun hc => absurd (houtcome.symm.trans hc.outcome) (by simp)
      | done =>
          have hcomplete := h.kept.complete houtcome
          have hrecorded := (h.kept.finished houtcome).recorded
          dsimp only at hb
          rw [hcomplete.timedOut] at hb
          obtain rfl := Option.some.inj hb
          refine ⟨fun hempty => ⟨houtcome, ?_, hcomplete.started⟩, fun hc => by simp [hc.result]⟩
          have herrors : d.shutdown.result.errors = [] := by simpa using hempty
          have hcompleted : d.shutdown.result.completed = workerDrainSteps := by
            rw [hcomplete.completed, ← hcomplete.ended]
            exact GracefulShutdown.finished_of_no_error hrecorded
              (hcomplete.errors.symm.trans herrors)
          have htimedOut := hcomplete.timedOut
          cases hresult : d.shutdown.result with
          | mk completed timedOut errors =>
              rw [hresult] at hcompleted htimedOut herrors
              dsimp only at hcompleted htimedOut herrors
              rw [hcompleted, htimedOut, herrors]

end NodeDrain

namespace ProcessDrain

/-! ### The answers -/

/-- Everyone has answered. -/
theorem mapM_answer {nodes : List NodeDrain} {clean : List Bool} :
    nodes.mapM NodeDrain.answer = some clean ↔ nodes.map NodeDrain.answer = clean.map some := by
  induction nodes generalizing clean with
  | nil => cases clean <;> simp
  | cons d rest ih =>
      rw [List.mapM_cons]
      cases hd : d.answer with
      | none => cases clean <;> simp [hd]
      | some b =>
          cases hrest : rest.mapM NodeDrain.answer with
          | none =>
              cases clean with
              | nil => simp
              | cons c cs =>
                  have hnot : rest.map NodeDrain.answer ≠ cs.map some := fun h =>
                    absurd (hrest.symm.trans (ih.mpr h)) (by simp)
                  simp [hd, hnot]
          | some bs =>
              cases clean with
              | nil => simp
              | cons c cs =>
                  have hbs := ih.mp hrest
                  have hsame : rest.map NodeDrain.answer = cs.map some ↔ bs = cs := by
                    rw [hbs]
                    exact List.map_inj_right (fun _ _ => Option.some.inj)
                  simp [hd, hsame]

theorem mapM_answer_none {nodes : List NodeDrain} (h : nodes.mapM NodeDrain.answer = none) :
    ∃ d ∈ nodes, d.answer = none := by
  by_contra hall
  push Not at hall
  have hmap : nodes.map NodeDrain.answer
      = (nodes.map fun d => d.answer.getD false).map some := by
    rw [List.map_map]
    apply List.map_congr_left
    intro d hd
    obtain ⟨b, hb⟩ := Option.ne_none_iff_exists'.mp (hall d hd)
    simp [hb]
  exact absurd (h.symm.trans (mapM_answer.mpr hmap)) (by simp)

/-- A node whose shutdown goes on has not answered anything else. -/
theorem map_answer_set {nodes : List NodeDrain} {i : ℕ} {d d' : NodeDrain}
    (hd : nodes[i]? = some d) (h : d'.answer = d.answer) :
    (nodes.set i d').map NodeDrain.answer = nodes.map NodeDrain.answer := by
  apply List.ext_getElem?
  intro j
  rw [List.getElem?_map, List.getElem?_map, List.getElem?_set]
  split
  · next hij =>
      subst hij
      obtain ⟨hlt, -⟩ := List.getElem?_eq_some_iff.mp hd
      rw [if_pos hlt, hd]
      simp [h]
  · rfl

/-! ### The invariant -/

/-- The SDK is flushed at most once. -/
structure FlushOk (t : TelemetryShutdown) : Prop where
  early : t.tracked = none ∨ t.tracked = some .idle → t.flushes = []
  begun : t.tracked = some .inFlight ∨ t.tracked = some .settled → t.flushes.length = 1

/-- What is so in a phase. -/
def PhaseOk (s : ProcessDrain) : Prop :=
  match s.phase with
  | .serving => s.nodes = []
  | .draining => s.nodes ≠ [] ∧ s.answers = none
  | .flushing clean =>
      s.nodes ≠ [] ∧ s.answers = some clean ∧ s.telemetry.tracked ≠ some .idle
  | .exited code =>
      s.nodes ≠ [] ∧ (∃ clean, s.answers = some clean ∧ code = if clean.all id then 0 else 1) ∧
        (s.telemetry.tracked = none ∨ s.telemetry.tracked = some .settled)
  | .killed => True

/-- The invariant. -/
structure Sound (s : ProcessDrain) : Prop where
  nodes : ∀ d ∈ s.nodes, d.Sound
  listening : s.listening = true ↔ 0 < s.registered
  owned : s.telemetry.ownedByShutdown = s.listening
  unheard : s.listening = false → s.phase = .serving ∨ s.phase = .killed
  flush : FlushOk s.telemetry
  /-- A flush that was asked for by the drain. -/
  drained : true ∈ s.telemetry.flushes → s.listening = true
  phase : PhaseOk s

/-- A process that drains, flushes or has exited was listening. -/
theorem Sound.heard {s : ProcessDrain} (h : s.Sound) (hserving : s.phase ≠ .serving)
    (hkilled : s.phase ≠ .killed) : s.listening = true := by
  by_contra hnot
  rcases h.unheard (by simpa using hnot) with hphase | hphase
  · exact hserving hphase
  · exact hkilled hphase

theorem init_sound : Sound init :=
  ⟨fun d hd => absurd hd (by simp [init]), by simp [init], rfl,
    fun _ => .inl rfl, ⟨fun _ => rfl, fun h => absurd h (by simp [init, TelemetryShutdown.init])⟩,
    fun h => absurd h (by simp [init, TelemetryShutdown.init]), rfl⟩

theorem shutdownTelemetry_owned (t : TelemetryShutdown) (drained : Bool) :
    (t.shutdownTelemetry drained).ownedByShutdown = t.ownedByShutdown := by
  unfold TelemetryShutdown.shutdownTelemetry
  split <;> rfl

theorem flushOk_shutdown {t : TelemetryShutdown} (h : FlushOk t) (drained : Bool) :
    FlushOk (t.shutdownTelemetry drained) ∧
      (t.shutdownTelemetry drained).tracked ≠ some .idle := by
  unfold TelemetryShutdown.shutdownTelemetry
  split
  · next hidle =>
      refine ⟨⟨fun hearly => absurd hearly (by simp), fun _ => ?_⟩, by simp⟩
      simp [h.early (.inr hidle)]
  · next hidle => exact ⟨h, hidle⟩

/-! ### One event -/

theorem Sound.registerNodeDrain {s : ProcessDrain} (h : s.Sound) : s.registerNodeDrain.Sound := by
  unfold ProcessDrain.registerNodeDrain
  dsimp only
  split
  · next hlistening =>
      exact ⟨h.nodes, by simp [hlistening], h.owned, h.unheard, h.flush, h.drained, h.phase⟩
  · refine ⟨h.nodes, by simp, rfl, fun hnot => absurd hnot (by simp),
      ⟨h.flush.early, h.flush.begun⟩, fun _ => rfl, ?_⟩
    exact h.phase

theorem Sound.drainProcess {s : ProcessDrain} (h : s.Sound) (hlistening : s.listening = true) :
    s.drainProcess.Sound := by
  unfold ProcessDrain.drainProcess
  split
  · obtain ⟨n, hn⟩ := Nat.exists_eq_succ_of_ne_zero (h.listening.mp hlistening).ne'
    refine ⟨fun d hd => ?_, h.listening, h.owned,
      fun hnot => absurd (hlistening.symm.trans hnot) (by simp), h.flush, h.drained, ?_⟩
    · rw [List.eq_of_mem_replicate hd]
      exact NodeDrain.called_sound
    · simp [PhaseOk, answers, hn, List.replicate_succ, NodeDrain.called]
  · exact h

/-- The SDK's own listener. -/
theorem Sound.onTelemetrySigterm {s : ProcessDrain} (h : s.Sound)
    (hphase : s.phase = .serving ∨ s.listening = true) :
    Sound { s with telemetry := s.telemetry.onTelemetrySigterm } := by
  unfold TelemetryShutdown.onTelemetrySigterm
  split
  · exact h
  · next howned =>
      have hserving : s.phase = .serving :=
        hphase.resolve_right fun hlistening => howned (h.owned.trans hlistening)
      have hnodes : s.nodes = [] := by
        have := h.phase
        rwa [PhaseOk, hserving] at this
      refine ⟨h.nodes, h.listening, ?_, h.unheard, (flushOk_shutdown h.flush false).1,
        fun htrue => ?_, ?_⟩
      · exact (shutdownTelemetry_owned _ _).trans h.owned
      · unfold TelemetryShutdown.shutdownTelemetry at htrue
        split at htrue
        · rcases List.mem_append.mp htrue with hold | hnew
          · exact h.drained hold
          · exact absurd hnew (by simp)
        · exact h.drained htrue
      · rw [PhaseOk]
        dsimp only
        rw [hserving]
        exact hnodes

theorem Sound.receive {s : ProcessDrain} (h : s.Sound) (sig : Signal)
    (halive : s.phase ≠ .killed) : (s.receive sig).Sound := by
  unfold ProcessDrain.receive
  dsimp only
  split
  · next hlistening =>
      split
      · exact (h.onTelemetrySigterm (.inr hlistening)).drainProcess hlistening
      · exact h.drainProcess hlistening
  · next hnot =>
      split
      · have hunheard : s.listening = false := by simpa using hnot
        exact h.onTelemetrySigterm (.inl ((h.unheard hunheard).resolve_right halive))
      · exact ⟨h.nodes, h.listening, h.owned, fun _ => .inr rfl, h.flush, h.drained, trivial⟩

/-- A drain that is called goes on, or answers. -/
theorem Sound.setNode {s : ProcessDrain} (h : s.Sound) (i : ℕ) {d : NodeDrain} (hd : d.Sound) :
    ∀ d' ∈ s.nodes.set i d, d'.Sound := by
  intro d' hd'
  rcases List.mem_or_eq_of_mem_set hd' with hold | hnew
  · exact h.nodes d' hold
  · rw [hnew]
    exact hd

theorem Sound.node {s : ProcessDrain} (h : s.Sound) {i : ℕ} {d : NodeDrain} {e : ShutdownEvent}
    {shutdown : GracefulShutdown} (hd : s.nodes[i]? = some d)
    (hstep : d.shutdown.step e = some shutdown) :
    Sound { s with nodes := s.nodes.set i { d with shutdown } } := by
  have hmem := List.mem_of_getElem? hd
  have hanswers : (s.nodes.set i { d with shutdown }).mapM NodeDrain.answer = s.answers := by
    apply Option.ext
    intro clean
    have hsame : NodeDrain.answer { d with shutdown } = d.answer := rfl
    rw [mapM_answer, answers, mapM_answer, map_answer_set hd hsame]
  have hne : s.nodes.set i { d with shutdown } ≠ [] := by
    rw [ne_eq, List.set_eq_nil_iff]
    exact List.ne_nil_of_mem hmem
  refine ⟨h.setNode i ((h.nodes d hmem).step hstep), h.listening, h.owned, h.unheard, h.flush,
    h.drained, ?_⟩
  have hphase := h.phase
  unfold PhaseOk answers at *
  dsimp only
  rw [hanswers]
  split at hphase
  · exact absurd hphase (List.ne_nil_of_mem hmem)
  · exact ⟨hne, hphase.2⟩
  · exact ⟨hne, hphase.2⟩
  · exact ⟨hne, hphase.2⟩
  · trivial

/-- A drain that has not answered is waited for. -/
theorem Sound.waiting {s : ProcessDrain} (h : s.Sound) {d : NodeDrain} (hd : d ∈ s.nodes)
    (hnone : d.answer = none) (halive : s.alive = true) : s.phase = .draining := by
  have hopen : ∀ clean, s.answers ≠ some clean := by
    intro clean hclean
    have hmap := mapM_answer.mp hclean
    have hin : none ∈ clean.map some := by
      rw [← hmap, ← hnone]
      exact List.mem_map_of_mem hd
    exact absurd hin (by simp)
  have hphase := h.phase
  unfold PhaseOk at hphase
  split at hphase
  · rw [hphase] at hd
    exact absurd hd (by simp)
  · assumption
  · exact absurd hphase.2.1 (hopen _)
  · obtain ⟨clean, hclean, -⟩ := hphase.2.1
    exact absurd hclean (hopen _)
  · next hkilled => exact absurd halive (by simp [alive, hkilled])

theorem Sound.answer {s : ProcessDrain} (h : s.Sound) {i : ℕ} {d : NodeDrain} {b : Bool}
    (hd : s.nodes[i]? = some d) (hb : d.reply = some b) (hphase : s.phase = .draining) :
    Sound { s with nodes := s.nodes.set i { d with answer := some b } }.gathered := by
  have hmem := List.mem_of_getElem? hd
  have hne : s.nodes.set i { d with answer := some b } ≠ [] := by
    rw [ne_eq, List.set_eq_nil_iff]
    exact List.ne_nil_of_mem hmem
  have hnodes := h.setNode i ((h.nodes d hmem).reply hb)
  have hheard := h.heard (by simp [hphase]) (by simp [hphase])
  unfold gathered
  split
  · next hnone =>
      refine ⟨hnodes, h.listening, h.owned, h.unheard, h.flush,
    h.drained, ?_⟩
      unfold PhaseOk
      dsimp only
      rw [hphase]
      exact ⟨hne, hnone⟩
  · next clean hclean =>
      have hflush := flushOk_shutdown h.flush true
      exact ⟨hnodes, h.listening, (shutdownTelemetry_owned _ _).trans h.owned,
        fun hunheard => absurd (hheard.symm.trans hunheard) (by simp), hflush.1,
        fun _ => hheard, hne, hclean, hflush.2⟩

theorem Sound.flushed {s : ProcessDrain} (h : s.Sound) (hpending : s.telemetry.pending = true)
    (halive : s.alive = true) : s.flushed.Sound := by
  have hinFlight : s.telemetry.tracked = some .inFlight := by
    simpa [TelemetryShutdown.pending] using hpending
  refine ⟨h.nodes, h.listening, h.owned, h.unheard,
    ⟨fun hearly => absurd hearly (by simp [ProcessDrain.flushed]),
      fun _ => h.flush.begun (.inl hinFlight)⟩, h.drained, ?_⟩
  have hphase := h.phase
  unfold PhaseOk at *
  unfold ProcessDrain.flushed answers
  dsimp only
  split at hphase
  · exact hphase
  · exact hphase
  · exact ⟨hphase.1, hphase.2.1, by simp⟩
  · next code hexited => exact absurd halive (by simp [alive, hexited])
  · trivial

theorem Sound.exits {s : ProcessDrain} (h : s.Sound) {clean : List Bool}
    (hphase : s.phase = .flushing clean) (hpending : s.telemetry.pending = false) :
    Sound { s with phase := .exited (if clean.all id then 0 else 1) } := by
  have hat := h.phase
  rw [PhaseOk, hphase] at hat
  dsimp only at hat
  obtain ⟨hne, hanswers, hidle⟩ := hat
  have hover : s.telemetry.tracked = none ∨ s.telemetry.tracked = some .settled := by
    cases htracked : s.telemetry.tracked with
    | none => exact .inl rfl
    | some p =>
        cases p with
        | idle => exact absurd htracked hidle
        | inFlight => exact absurd hpending (by simp [TelemetryShutdown.pending, htracked])
        | settled => exact .inr rfl
  have hheard := h.heard (by simp [hphase]) (by simp [hphase])
  exact ⟨h.nodes, h.listening, h.owned, fun hnot => absurd (hheard.symm.trans hnot) (by simp),
    h.flush, h.drained, hne, ⟨clean, hanswers, rfl⟩, hover⟩

/-- What an event can do. -/
inductive Moves (s : ProcessDrain) : DrainEvent → ProcessDrain → Prop where
  | initTelemetry (htracked : s.telemetry.tracked = none) (hphase : s.phase = .serving) :
      Moves s .initTelemetry { s with telemetry := s.telemetry.trackTelemetrySdk }
  | registerNodeDrain : Moves s .registerNodeDrain s.registerNodeDrain
  | signal (sig : Signal) : Moves s (.signal sig) (s.receive sig)
  | node (i : ℕ) (e : ShutdownEvent) (d : NodeDrain) (shutdown : GracefulShutdown)
      (hd : s.nodes[i]? = some d) (hstep : d.shutdown.step e = some shutdown) :
      Moves s (.node i e) { s with nodes := s.nodes.set i { d with shutdown } }
  | answers (i : ℕ) (d : NodeDrain) (b : Bool) (hd : s.nodes[i]? = some d)
      (hnone : d.answer = none) (hb : d.reply = some b) :
      Moves s (.answers i) { s with nodes := s.nodes.set i { d with answer := some b } }.gathered
  | flushed (e : DrainEvent) (he : e = .flushSettles ∨ e = .flushTimesOut)
      (hpending : s.telemetry.pending = true) : Moves s e s.flushed
  | exits (clean : List Bool) (hphase : s.phase = .flushing clean)
      (hpending : s.telemetry.pending = false) :
      Moves s .exits { s with phase := .exited (if clean.all id then 0 else 1) }

theorem step_moves {s s' : ProcessDrain} {e : DrainEvent} (h : step s e = some s') :
    s.alive = true ∧ Moves s e s' := by
  unfold step at h
  split at h
  case isFalse => exact absurd h (by simp)
  case isTrue halive =>
    refine ⟨halive, ?_⟩
    cases e with
    | initTelemetry =>
        rw [react] at h
        split at h
        · next hboth =>
            obtain rfl := Option.some.inj h
            exact .initTelemetry hboth.1 hboth.2
        · exact absurd h (by simp)
    | registerNodeDrain =>
        obtain rfl := Option.some.inj h
        exact .registerNodeDrain
    | signal sig =>
        obtain rfl := Option.some.inj h
        exact .signal sig
    | node i e =>
        rw [react] at h
        split at h
        · exact absurd h (by simp)
        · next d hd =>
            obtain ⟨shutdown, hstep, rfl⟩ := Option.map_eq_some_iff.mp h
            exact .node i e d shutdown hd hstep
    | answers i =>
        rw [react] at h
        split at h
        · next shutdown hd =>
            obtain ⟨b, hb, rfl⟩ := Option.map_eq_some_iff.mp h
            exact .answers i ⟨shutdown, none⟩ b hd rfl hb
        · exact absurd h (by simp)
    | flushSettles =>
        rw [react] at h
        split at h
        · next hpending =>
            obtain rfl := Option.some.inj h
            exact .flushed _ (.inl rfl) hpending
        · exact absurd h (by simp)
    | flushTimesOut =>
        rw [react] at h
        split at h
        · next hpending =>
            obtain rfl := Option.some.inj h
            exact .flushed _ (.inr rfl) hpending
        · exact absurd h (by simp)
    | exits =>
        rw [react] at h
        split at h
        · next clean hphase =>
            split at h
            · exact absurd h (by simp)
            · next hpending =>
                obtain rfl := Option.some.inj h
                exact .exits clean hphase (by simpa using hpending)
        · exact absurd h (by simp)

theorem sound_step {s s' : ProcessDrain} {e : DrainEvent} (h : s.Sound)
    (hstep : step s e = some s') : s'.Sound := by
  obtain ⟨halive, hmove⟩ := step_moves hstep
  cases hmove with
  | initTelemetry htracked hphase =>
      refine ⟨h.nodes, h.listening, h.owned, h.unheard,
        ⟨fun _ => h.flush.early (.inl htracked), fun hbegun => ?_⟩, h.drained, ?_⟩
      · exact absurd hbegun (by simp [TelemetryShutdown.trackTelemetrySdk])
      · have hat := h.phase
        unfold PhaseOk at *
        dsimp only
        rw [hphase] at hat ⊢
        exact hat
  | registerNodeDrain => exact h.registerNodeDrain
  | signal sig => exact h.receive sig fun hkilled => absurd halive (by simp [alive, hkilled])
  | node i e d shutdown hd hgoes => exact h.node hd hgoes
  | answers i d b hd hnone hb =>
      exact h.answer hd hb (h.waiting (List.mem_of_getElem? hd) hnone halive)
  | flushed _ _ hpending => exact h.flushed hpending halive
  | exits clean hphase hpending => exact h.exits hphase hpending

/-! ### The exit -/

/-- The nodes that have registered by the first signal after a registration. -/
def drainedNodes : ℕ → List DrainEvent → ℕ
  | n, .registerNodeDrain :: es => drainedNodes (n + 1) es
  | n, .signal _ :: es => if n = 0 then drainedNodes 0 es else n
  | n, _ :: es => drainedNodes n es
  | n, [] => n

/-- The SDK's own listener does not get a signal before a node has registered. -/
def SparesFlush (s : ProcessDrain) (e : DrainEvent) : Prop :=
  e = .signal .sigterm → s.telemetry.tracked.isSome = true → s.listening = true

instance (s : ProcessDrain) : DecidablePred (SparesFlush s)
  | .signal .sigterm =>
      decidable_of_iff (s.telemetry.tracked.isSome = true → s.listening = true)
        ⟨fun h _ => h, fun h => h rfl⟩
  | .signal .sigint => .isTrue fun h => absurd h (by simp)
  | .initTelemetry | .registerNodeDrain | .node _ _ | .answers _ | .flushSettles
  | .flushTimesOut | .exits => .isTrue fun h => absurd h (by simp)

/-- What a process has done when it exits with a code. -/
structure Drained (es : List DrainEvent) (s : ProcessDrain) (code : ℕ) : Prop where
  /-- Every node that had registered was drained, once. -/
  called : s.nodes.length = drainedNodes 0 es
  answered : ∀ d ∈ s.nodes, d.answer.isSome = true
  code : code = 0 ∧ (∀ d ∈ s.nodes, d.Clean) ∨ code = 1 ∧ ∃ d ∈ s.nodes, ¬ d.Clean
  /-- The telemetry that was started was flushed once, and that is over. -/
  flushed : s.telemetry.tracked ≠ none →
    s.telemetry.tracked = some .settled ∧ s.telemetry.flushes.length = 1
  /-- It was flushed after the drains, unless the SDK's listener came before them. -/
  last : false ∉ s.telemetry.flushes ↔ Steps.Along step SparesFlush init es

theorem drainProcess_telemetry (s : ProcessDrain) : s.drainProcess.telemetry = s.telemetry := by
  unfold drainProcess
  split <;> rfl

theorem registerNodeDrain_flushes (s : ProcessDrain) :
    s.registerNodeDrain.telemetry.flushes = s.telemetry.flushes := by
  unfold registerNodeDrain
  dsimp only
  split <;> rfl

theorem gathered_flushes (s : ProcessDrain) :
    false ∈ s.gathered.telemetry.flushes ↔ false ∈ s.telemetry.flushes := by
  unfold gathered
  split
  · exact Iff.rfl
  · dsimp only
    unfold TelemetryShutdown.shutdownTelemetry
    split
    · simp
    · exact Iff.rfl

/-- A signal makes telemetry be flushed before the drains exactly if it does not spare it. -/
theorem receive_flushes {s : ProcessDrain} (h : s.Sound) (sig : Signal) :
    false ∈ (s.receive sig).telemetry.flushes ↔
      false ∈ s.telemetry.flushes ∨ ¬ SparesFlush s (.signal sig) := by
  unfold receive
  dsimp only
  split
  · next hlistening =>
      have hspares : SparesFlush s (.signal sig) := fun _ _ => hlistening
      have howned := h.owned.trans hlistening
      have hsame : s.telemetry.onTelemetrySigterm = s.telemetry := by
        rw [TelemetryShutdown.onTelemetrySigterm, if_pos howned]
      rw [drainProcess_telemetry, hsame]
      simp [hspares]
  · next hnot =>
      have hunheard : s.listening = false := by simpa using hnot
      split
      · next hlistens =>
          have hspoils : ¬ SparesFlush s (.signal sig) := by
            rw [hlistens.1]
            exact fun hspares => hnot (hspares rfl hlistens.2)
          refine iff_of_true ?_ (.inr hspoils)
          have howned : ¬ s.telemetry.ownedByShutdown = true := by
            rw [h.owned, hunheard]
            simp
          dsimp only
          rw [TelemetryShutdown.onTelemetrySigterm, if_neg howned,
            TelemetryShutdown.shutdownTelemetry]
          split
          · simp
          · next hidle =>
              -- the flush that has begun was not asked for by a drain
              have hone : s.telemetry.flushes.length = 1 := by
                apply h.flush.begun
                obtain ⟨p, hp⟩ := Option.isSome_iff_exists.mp hlistens.2
                cases p with
                | idle => exact absurd hp hidle
                | inFlight => exact .inl hp
                | settled => exact .inr hp
              obtain ⟨b, hb⟩ := List.length_eq_one_iff.mp hone
              cases b with
              | false => simp [hb]
              | true => exact absurd (h.drained (by simp [hb])) hnot
      · next hlistens =>
          have hspares : SparesFlush s (.signal sig) := by
            intro hsig hsome
            exact absurd ⟨by simpa using hsig, hsome⟩ hlistens
          simp [hspares]

theorem step_flushes {s s' : ProcessDrain} {e : DrainEvent} (h : s.Sound)
    (hstep : step s e = some s') :
    false ∈ s'.telemetry.flushes ↔ false ∈ s.telemetry.flushes ∨ ¬ SparesFlush s e := by
  cases (step_moves hstep).2 with
  | signal sig => exact receive_flushes h sig
  | initTelemetry _ _ => simp [TelemetryShutdown.trackTelemetrySdk, SparesFlush]
  | registerNodeDrain => simp [registerNodeDrain_flushes, SparesFlush]
  | node i e d shutdown _ _ => simp [SparesFlush]
  | answers i d b _ _ _ => simp [gathered_flushes, SparesFlush]
  | flushed _ he _ =>
      rcases he with rfl | rfl
      · simp [flushed, SparesFlush]
      · simp [flushed, SparesFlush]
  | exits clean _ _ => simp [SparesFlush]

/-- Once the drains have been called, no other is. -/
theorem nodes_step {s s' : ProcessDrain} {e : DrainEvent} (hstep : step s e = some s')
    (hphase : s.phase ≠ .serving) :
    s'.phase ≠ .serving ∧ s'.nodes.length = s.nodes.length := by
  cases (step_moves hstep).2 with
  | initTelemetry _ hserving => exact absurd hserving hphase
  | registerNodeDrain =>
      unfold registerNodeDrain
      dsimp only
      split
      · exact ⟨hphase, rfl⟩
      · exact ⟨hphase, rfl⟩
  | signal sig =>
      have hdrain (t : TelemetryShutdown) :
          ({ s with telemetry := t }.drainProcess) = { s with telemetry := t } := by
        unfold drainProcess
        dsimp only
        split
        · next hserving => exact absurd hserving hphase
        · rfl
      unfold receive
      dsimp only
      split
      · split
        · rw [hdrain]
          exact ⟨hphase, rfl⟩
        · exact (hdrain s.telemetry).symm ▸ ⟨hphase, rfl⟩
      · split
        · exact ⟨hphase, rfl⟩
        · exact ⟨by simp, rfl⟩
  | node i e d shutdown _ _ => exact ⟨hphase, List.length_set⟩
  | answers i d b _ _ _ =>
      unfold gathered
      split
      · exact ⟨hphase, List.length_set⟩
      · exact ⟨by simp, List.length_set⟩
  | flushed _ _ _ => exact ⟨hphase, rfl⟩
  | exits clean _ _ => exact ⟨by simp, rfl⟩

theorem nodes_run {es : List DrainEvent} {s t : ProcessDrain}
    (hrun : Steps.run step s es = some t) (hphase : s.phase ≠ .serving) :
    t.nodes.length = s.nodes.length := by
  have hkept := Steps.invariant
    (P := fun u => u.phase ≠ .serving ∧ u.nodes.length = s.nodes.length)
    (fun u e u' hu hstep => by
      obtain ⟨hstays, hlength⟩ := nodes_step hstep hu.1
      exact ⟨hstays, hlength.trans hu.2⟩) ⟨hphase, rfl⟩ hrun
  exact hkept.2

theorem killed_run {es : List DrainEvent} {s t : ProcessDrain}
    (hrun : Steps.run step s es = some t) (hphase : s.phase = .killed) : t.phase = .killed := by
  refine Steps.invariant (P := fun u => u.phase = .killed) (fun u e u' hu hstep => ?_) hphase hrun
  exact absurd (step_moves hstep).1 (by simp [alive, hu])

/-- A signal before any node has registered. -/
theorem receive_unheard {s : ProcessDrain} (h : ¬ s.listening = true) (sig : Signal) :
    (s.receive sig).phase = s.phase ∧ (s.receive sig).registered = s.registered ∨
      (s.receive sig).phase = .killed := by
  unfold receive
  dsimp only
  rw [if_neg h]
  split
  · exact .inl ⟨rfl, rfl⟩
  · exact .inr rfl

/-- The first signal after a node has registered. -/
theorem receive_heard {s : ProcessDrain} (h : s.listening = true) (hserving : s.phase = .serving)
    (sig : Signal) :
    (s.receive sig).phase ≠ .serving ∧ (s.receive sig).nodes.length = s.registered := by
  unfold receive
  dsimp only
  rw [if_pos h]
  split
  · simp [drainProcess, hserving]
  · simp [drainProcess, hserving]

/-- A process that still serves drains the nodes that will have registered by then. -/
theorem called_run : ∀ {es : List DrainEvent} {s t : ProcessDrain}, s.Sound →
    Steps.run step s es = some t → s.phase = .serving → t.phase ≠ .serving →
    t.phase ≠ .killed → t.nodes.length = drainedNodes s.registered es := by
  intro es
  induction es with
  | nil =>
      intro s t _ hrun hserving hover _
      obtain rfl : s = t := by simpa using hrun
      exact absurd hserving hover
  | cons e rest ih =>
      intro s t hs hrun hserving hover hkilled
      obtain ⟨m, hm, hrest⟩ := Steps.run_cons_some.mp hrun
      have hsound := sound_step hs hm
      have hnext (hphase : m.phase = .serving) (hregistered : m.registered = s.registered) :
          t.nodes.length = drainedNodes s.registered rest := by
        rw [← hregistered]
        exact ih hsound hrest hphase hover hkilled
      have hnodes : s.nodes = [] := by
        have := hs.phase
        rwa [PhaseOk, hserving] at this
      cases (step_moves hm).2 with
      | initTelemetry _ _ => exact hnext hserving rfl
      | registerNodeDrain =>
          have hphase : s.registerNodeDrain.phase = .serving ∧
              s.registerNodeDrain.registered = s.registered + 1 := by
            unfold registerNodeDrain
            dsimp only
            split
            · exact ⟨hserving, rfl⟩
            · exact ⟨hserving, rfl⟩
          rw [drainedNodes, ← hphase.2]
          exact ih hsound hrest hphase.1 hover hkilled
      | signal sig =>
          rw [drainedNodes]
          split
          · next hzero =>
              have hunheard : ¬ s.listening = true := fun hheard => by
                have := hs.listening.mp hheard
                omega
              rcases receive_unheard hunheard sig with hserves | hdead
              · rw [← hzero]
                exact hnext (hserves.1.trans hserving) hserves.2
              · exact absurd (killed_run hrest hdead) hkilled
          · next hpos =>
              have hheard := hs.listening.mpr (Nat.pos_of_ne_zero hpos)
              obtain ⟨hdraining, hlength⟩ := receive_heard hheard hserving sig
              rw [nodes_run hrest hdraining, hlength]
      | node i e d shutdown hd _ =>
          rw [hnodes] at hd
          exact absurd hd (by simp)
      | answers i d b hd _ _ =>
          rw [hnodes] at hd
          exact absurd hd (by simp)
      | flushed _ he _ =>
          rcases he with rfl | rfl
          · exact hnext hserving rfl
          · exact hnext hserving rfl
      | exits clean hphase _ => exact absurd (hserving.symm.trans hphase) (by simp)

/-- **A worker process exits once every node of it has been drained and its telemetry flushed,
and with 0 exactly if all parts of every node were closed in time.** -/
theorem process_drained :
    ∀ es s code, Steps.run step init es = some s → s.phase = .exited code →
      Drained es s code := by
  intro es s code hrun hexited
  have hsound : s.Sound := Steps.invariant (fun s e s' => sound_step) init_sound hrun
  have hphase := hsound.phase
  rw [PhaseOk, hexited] at hphase
  obtain ⟨hne, ⟨clean, hanswers, hcode⟩, hover⟩ := hphase
  have hmap := mapM_answer.mp hanswers
  have hreplies : ∀ d ∈ s.nodes, ∃ b ∈ clean, d.answer = some b ∧ (b = true ↔ d.Clean) := by
    intro d hd
    have hin : d.answer ∈ clean.map some := by
      rw [← hmap]
      exact List.mem_map_of_mem hd
    obtain ⟨b, hb, hanswer⟩ := List.mem_map.mp hin
    have hd := hsound.nodes d hd
    exact ⟨b, hb, hanswer.symm, hd.clean_iff (hd.answered b hanswer.symm)⟩
  refine ⟨?_, fun d hd => ?_, ?_, fun htracked => ?_, ?_⟩
  · exact called_run init_sound hrun rfl (by simp [hexited]) (by simp [hexited])
  · obtain ⟨b, -, hanswer, -⟩ := hreplies d hd
    simp [hanswer]
  · by_cases hall : clean.all id = true
    · refine .inl ⟨by rw [hcode, if_pos hall], fun d hd => ?_⟩
      obtain ⟨b, hb, -, hclean⟩ := hreplies d hd
      exact hclean.mp (List.all_eq_true.mp hall b hb)
    · refine .inr ⟨by rw [hcode, if_neg hall], ?_⟩
      obtain ⟨b, hb, hfalse⟩ : ∃ b ∈ clean, b = false := by simpa using hall
      have hin : some b ∈ s.nodes.map NodeDrain.answer := by
        rw [hmap]
        exact List.mem_map_of_mem hb
      obtain ⟨d, hd, hanswer⟩ := List.mem_map.mp hin
      obtain ⟨c, -, hc, hclean⟩ := hreplies d hd
      obtain rfl : c = b := Option.some.inj (hc.symm.trans hanswer)
      exact ⟨d, hd, fun hnot => absurd (hclean.mpr hnot) (by simp [hfalse])⟩
  · have hsettled := hover.resolve_left htracked
    exact ⟨hsettled, hsound.flush.begun (.inr hsettled)⟩
  · have hspoilt := Steps.run_spoilt_iff (C := SparesFlush) (D := fun _ => True)
      (B := fun s => false ∈ s.telemetry.flushes) (P := Sound)
      (fun s e s' hs _ hstep => sound_step hs hstep)
      (fun s e s' hs _ hstep => step_flushes hs hstep) init_sound (fun _ _ => trivial) hrun
    rw [hspoilt, not_or, not_not]
    exact ⟨And.right, fun halong => ⟨by simp [init, TelemetryShutdown.init], halong⟩⟩

/-- Two nodes, one of which hangs past its deadline. -/
def oneHangs : List DrainEvent :=
  [.initTelemetry, .registerNodeDrain, .registerNodeDrain, .signal .sigterm,
    .node 0 (.ended .finished), .node 0 (.ended .finished), .signal .sigint,
    .node 0 (.ended .finished), .node 0 (.ended .finished), .answers 0,
    .node 1 (.ended .finished), .node 1 .deadline, .answers 1, .flushSettles, .exits]

theorem process_drained_late :
    ∃ s, Steps.run step init oneHangs = some s ∧ s.phase = .exited 1 ∧ Drained oneHangs s 1 := by
  refine ⟨_, rfl, rfl, ?_⟩
  exact process_drained oneHangs _ 1 rfl rfl

/-! ### A hung part -/

/-- What comes about without any part of a node or the SDK: a deadline, the bound on the flush,
the turns of the event loop. -/
def Unaided : DrainEvent → Prop
  | .node _ .deadline | .answers _ | .flushTimesOut | .exits => True
  | _ => False

/-- The drains that have not answered. -/
def awaited (s : ProcessDrain) : ℕ := s.nodes.countP fun d => d.answer.isNone

/-- The process is on its way out. -/
def Leaving (s : ProcessDrain) : Prop :=
  s.phase = .draining ∨ ∃ clean, s.phase = .flushing clean

theorem awaited_set {nodes : List NodeDrain} {i : ℕ} {d : NodeDrain} {b : Bool}
    (hd : nodes[i]? = some d) (hnone : d.answer = none) :
    (nodes.set i { d with answer := some b }).countP (fun d => d.answer.isNone) + 1 =
      nodes.countP fun d => d.answer.isNone := by
  obtain ⟨hlt, hget⟩ := List.getElem?_eq_some_iff.mp hd
  have hpos : 0 < nodes.countP fun d => d.answer.isNone :=
    List.countP_pos_iff.mpr ⟨d, List.mem_of_getElem? hd, by simp [hnone]⟩
  rw [List.countP_set hlt, hget]
  simp only [hnone, Option.isNone_none, if_true, Option.isNone_some]
  simp
  omega

theorem gathered_awaited (s : ProcessDrain) : s.gathered.awaited = s.awaited := by
  unfold gathered
  split <;> rfl

theorem gathered_leaving {s : ProcessDrain} (h : s.phase = .draining) : s.gathered.Leaving := by
  unfold gathered
  split
  · exact .inl h
  · exact .inr ⟨_, rfl⟩

/-- A drain that can reply is no longer waited for. -/
theorem answers_step {s : ProcessDrain} {i : ℕ} {d : NodeDrain} {b : Bool}
    (hphase : s.phase = .draining) (hd : s.nodes[i]? = some d) (hnone : d.answer = none)
    (hb : d.reply = some b) :
    ∃ t, step s (.answers i) = some t ∧ t.Leaving ∧ t.awaited < s.awaited := by
  obtain ⟨shutdown, answer⟩ := d
  obtain rfl : answer = none := hnone
  let m : ProcessDrain := { s with nodes := s.nodes.set i ⟨shutdown, some b⟩ }
  refine ⟨m.gathered, ?_, gathered_leaving hphase, ?_⟩
  · rw [step, if_pos (by simp [alive, hphase]), react, hd]
    dsimp only
    rw [hb]
    rfl
  · have hone : m.awaited + 1 = s.awaited := awaited_set (b := b) hd rfl
    rw [gathered_awaited]
    omega

/-- One more drain answers, at its deadline at the latest. -/
theorem drain_next {s : ProcessDrain} (h : s.Sound) (hphase : s.phase = .draining) :
    ∃ fs t, Steps.run step s fs = some t ∧ t.Leaving ∧ t.awaited < s.awaited ∧
      ∀ f ∈ fs, Unaided f := by
  have hat := h.phase
  rw [PhaseOk, hphase] at hat
  obtain ⟨d, hmem, hnone⟩ := mapM_answer_none hat.2
  obtain ⟨i, hd⟩ := List.mem_iff_getElem?.mp hmem
  have hsound := h.nodes d hmem
  by_cases hopen : d.shutdown.outcome = none
  · -- its deadline fires, and it answers that it was late
    obtain ⟨shutdown, hfires, hlate⟩ := hsound.timed.deadline hopen
    let m : ProcessDrain := { s with nodes := s.nodes.set i { d with shutdown } }
    have hm : step s (.node i .deadline) = some m := by
      rw [step, if_pos (by simp [alive, hphase]), react, hd]
      dsimp only
      rw [hfires]
      rfl
    obtain ⟨hlt, -⟩ := List.getElem?_eq_some_iff.mp hd
    have hget : m.nodes[i]? = some { d with shutdown } := by
      show (s.nodes.set i _)[i]? = _
      rw [List.getElem?_set_self hlt]
    obtain ⟨b, hb⟩ := NodeDrain.reply_of_settled (d := { d with shutdown }) (by simp [hlate])
    obtain ⟨t, ht, hleaving, hless⟩ := answers_step (s := m) hphase hget hnone hb
    have hsame : m.awaited = s.awaited := by
      have hanswer : NodeDrain.answer { d with shutdown } = d.answer := rfl
      have hmap := map_answer_set hd hanswer
      have hcount (nodes : List NodeDrain) : nodes.countP (fun d => d.answer.isNone) =
          (nodes.map NodeDrain.answer).countP Option.isNone := by
        rw [List.countP_map]
        rfl
      unfold awaited
      rw [hcount, hcount, hmap]
    refine ⟨[.node i .deadline, .answers i], t, ?_, hleaving, hsame ▸ hless, ?_⟩
    · rw [Steps.run_cons, hm]
      show Steps.run step m [.answers i] = some t
      rw [Steps.run_cons, ht]
      rfl
    · intro f hf
      rcases List.mem_pair.mp hf with rfl | rfl
      · trivial
      · trivial
  · obtain ⟨b, hb⟩ := NodeDrain.reply_of_settled hopen
    obtain ⟨t, ht, hleaving, hless⟩ := answers_step hphase hd hnone hb
    refine ⟨[.answers i], t, ?_, hleaving, hless, ?_⟩
    · rw [Steps.run_cons, ht]
      rfl
    · intro f hf
      rw [List.mem_singleton.mp hf]
      trivial

/-- The process exits after the flush, which its bound ends. -/
theorem flush_exits {s : ProcessDrain} {clean : List Bool} (hphase : s.phase = .flushing clean) :
    ∃ fs t code, Steps.run step s fs = some t ∧ t.phase = .exited code ∧ ∀ f ∈ fs, Unaided f := by
  have halive : s.alive = true := by simp [alive, hphase]
  let code := if clean.all id then 0 else 1
  have hexits (u : ProcessDrain) (hu : u.phase = .flushing clean)
      (hpending : u.telemetry.pending = false) :
      step u .exits = some { u with phase := .exited code } := by
    rw [step, if_pos (by simp [alive, hu]), react, hu]
    dsimp only
    rw [hpending]
    rfl
  by_cases hpending : s.telemetry.pending = true
  · have hflush : step s .flushTimesOut = some s.flushed := by
      rw [step, if_pos halive, react, if_pos hpending]
    refine ⟨[.flushTimesOut, .exits], { s.flushed with phase := .exited code }, code, ?_, rfl, ?_⟩
    · rw [Steps.run_cons, hflush]
      show Steps.run step s.flushed [.exits] = _
      rw [Steps.run_cons, hexits s.flushed hphase rfl]
      rfl
    · intro f hf
      rcases List.mem_pair.mp hf with rfl | rfl
      · trivial
      · trivial
  · refine ⟨[.exits], { s with phase := .exited code }, code, ?_, rfl, ?_⟩
    · rw [Steps.run_cons, hexits s hphase (by simpa using hpending)]
      rfl
    · intro f hf
      rw [List.mem_singleton.mp hf]
      trivial

/-- By induction on the drains that are waited for. -/
theorem leaving_exits : ∀ (n : ℕ) {s : ProcessDrain}, s.Sound → s.Leaving → s.awaited = n →
    ∃ fs t code, Steps.run step s fs = some t ∧ t.phase = .exited code ∧
      ∀ f ∈ fs, Unaided f := by
  intro n
  induction n using Nat.strong_induction_on with
  | _ n ih =>
      intro s hs hleaving hn
      rcases hleaving with hdraining | ⟨clean, hflushing⟩
      · obtain ⟨fs, m, hm, hnext, hless, hunaided⟩ := drain_next hs hdraining
        have hsound : m.Sound := Steps.invariant (fun s e s' => sound_step) hs hm
        obtain ⟨gs, t, code, ht, hexited, hrest⟩ :=
          ih m.awaited (hn ▸ hless) hsound hnext rfl
        refine ⟨fs ++ gs, t, code, Steps.run_append_some.mpr ⟨m, hm, ht⟩, hexited, ?_⟩
        intro f hf
        rcases List.mem_append.mp hf with hfirst | hthen
        · exact hunaided f hfirst
        · exact hrest f hthen
      · exact flush_exits hflushing

/-- **No part that hangs can keep a worker process from exiting**: from wherever its drain
stands, the deadlines, the bound on the flush and the turns of the event loop lead to the exit. -/
theorem drain_ends :
    ∀ es s, Steps.run step init es = some s → s.Leaving →
      ∃ fs t code, Steps.run step s fs = some t ∧ t.phase = .exited code ∧
        ∀ f ∈ fs, Unaided f := by
  intro es s hrun hleaving
  have hsound : s.Sound := Steps.invariant (fun s e s' => sound_step) init_sound hrun
  exact leaving_exits s.awaited hsound hleaving rfl

/-- Both nodes hang, and so does the SDK. -/
theorem drain_ends_hung :
    ∃ s, Steps.run step init
        [.initTelemetry, .registerNodeDrain, .registerNodeDrain, .signal .sigterm] = some s ∧
      s.Leaving ∧ ∃ fs t code, Steps.run step s fs = some t ∧ t.phase = .exited code ∧
        ∀ f ∈ fs, Unaided f := by
  refine ⟨_, rfl, .inl rfl, ?_⟩
  exact drain_ends [.initTelemetry, .registerNodeDrain, .registerNodeDrain, .signal .sigterm] _
    rfl (.inl rfl)

end ProcessDrain

end Kaiban
