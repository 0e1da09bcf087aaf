/-
The deadline of a graceful shutdown.

The steps that lose the race run on, and write to the object the caller has.  So the deadline
is respected exactly as long as the step it interrupts does not end: its end is recorded in
the returned result, and starts the next step.  Before the deadline the steps are accounted
for unless one of them throws a value that has no text, which ends the sequence.
-/
import Kaiban.GracefulShutdown
import Kaiban.Lib.Steps

open JsString

namespace Kaiban

/-- A step that has ended is recorded: it finished, or threw a value with a text. -/
def StepEnd.Recorded : StepEnd → Prop
  | .finished => True
  | .threw err => (toMessage err).isSome

instance : DecidablePred StepEnd.Recorded
  | .finished => inferInstanceAs (Decidable True)
  | .threw err => inferInstanceAs (Decidable (toMessage err).isSome)

/-- The name of a step that has finished. -/
def finishedStep : JsString × StepEnd → Option JsString
  | (name, .finished) => some name
  | (_, .threw _) => none

/-- The name and the message of a step that has thrown. -/
def failedStep : JsString × StepEnd → Option (JsString × JsString)
  | (_, .finished) => none
  | (name, .threw err) => (toMessage err).map fun message => (name, message)

/-- Recorded steps are split into those that finished and those that threw. -/
theorem perm_of_recorded {ends : List (JsString × StepEnd)} (h : ∀ p ∈ ends, p.2.Recorded) :
    (ends.filterMap finishedStep ++ (ends.filterMap failedStep).map Prod.fst).Perm
      (ends.map Prod.fst) := by
  induction ends with
  | nil => exact .nil
  | cons p rest ih =>
      have hrest := ih fun q hq => h q (List.mem_cons_of_mem p hq)
      obtain ⟨name, e⟩ := p
      cases e with
      | finished =>
          rw [List.filterMap_cons_some (f := finishedStep) rfl,
            List.filterMap_cons_none (f := failedStep) rfl, List.cons_append]
          exact hrest.cons name
      | threw err =>
          obtain ⟨message, hmessage⟩ := Option.isSome_iff_exists.mp (h _ List.mem_cons_self)
          have hfailed : failedStep (name, .threw err) = some (name, message) := by
            show (toMessage err).map _ = _
            rw [hmessage]
            rfl
          rw [List.filterMap_cons_none (f := finishedStep) rfl, List.filterMap_cons_some hfailed,
            List.map_cons]
          exact List.perm_middle.trans (hrest.cons name)

namespace GracefulShutdownResult

/-- How many steps a result names. -/
def entries (r : GracefulShutdownResult) : ℕ := r.completed.length + r.errors.length

/-- What recording the end of a step does. -/
structure Recording (r r' : GracefulShutdownResult) (name : JsString) (e : StepEnd) : Prop where
  recorded : e.Recorded
  timedOut : r'.timedOut = r.timedOut
  completed : r'.completed = r.completed ++ (finishedStep (name, e)).toList
  errors : r'.errors = r.errors ++ (failedStep (name, e)).toList
  more : r.entries < r'.entries

theorem recording {r r' : GracefulShutdownResult} {name : JsString} {e : StepEnd}
    (h : r.record name e = some r') : Recording r r' name e := by
  cases e with
  | finished =>
      obtain rfl := Option.some.inj h
      refine ⟨trivial, rfl, rfl, (List.append_nil _).symm, ?_⟩
      simp only [entries, List.length_append, List.length_singleton]
      omega
  | threw err =>
      obtain ⟨message, hmessage, rfl⟩ := Option.map_eq_some_iff.mp h
      refine ⟨?_, rfl, (List.append_nil _).symm, ?_, ?_⟩
      · exact Option.isSome_iff_exists.mpr ⟨message, hmessage⟩
      · show _ = _ ++ ((toMessage err).map _).toList
        rw [hmessage]
        rfl
      · simp only [entries, List.length_append, List.length_singleton]
        omega

theorem record_eq_none {r : GracefulShutdownResult} {name : JsString} {e : StepEnd}
    (h : r.record name e = none) : ¬ e.Recorded := by
  cases e with
  | finished => exact absurd h (by simp [record])
  | threw err =>
      have hnone : toMessage err = none := Option.map_eq_none_iff.mp h
      simp [StepEnd.Recorded, hnone]

end GracefulShutdownResult

namespace GracefulShutdown

/-! ### The deadline -/

/-- All steps have ended, and the result accounts for them. -/
structure Complete (steps : List JsString) (s : GracefulShutdown) : Prop where
  returned : s.returned = some (s.result, s.started)
  timedOut : s.result.timedOut = false
  started : s.started = steps
  ended : s.ends.map Prod.fst = steps
  /-- The steps that finished, in order. -/
  completed : s.result.completed = s.ends.filterMap finishedStep
  /-- The steps that threw, in order. -/
  errors : s.result.errors = s.ends.filterMap failedStep
  once : (s.result.completed ++ s.result.errors.map Prod.fst).Perm steps

/-- The deadline has fired, and neither the returned result nor the steps have moved since. -/
structure Abandoned (s : GracefulShutdown) : Prop where
  returned : s.returned = some (s.result, s.started)
  timedOut : s.result.timedOut = true

/-- The deadline is respected so far. -/
def Sound (steps : List JsString) (s : GracefulShutdown) : Prop :=
  match s.outcome with
  | none => s.running ≠ none ∧ s.returned = none
  | some .done => Complete steps s
  | some .deadline => Abandoned s
  | some .rejected => False

/-- No step throws a value without a text before the deadline, and the step that is running
then ends, if at all, with one. -/
def Timely (s : GracefulShutdown) : ShutdownEvent → Prop
  | .ended e => if s.outcome = some .deadline then ¬ e.Recorded else e.Recorded
  | .deadline => True

instance (s : GracefulShutdown) : DecidablePred (Timely s)
  | .ended e =>
      inferInstanceAs (Decidable (if s.outcome = some .deadline then ¬ e.Recorded else e.Recorded))
  | .deadline => inferInstanceAs (Decidable True)

/-! ### The invariant -/

/-- What is always so of a call: its steps are taken in order, and its result is made of the
ends of them. -/
structure Ordered (steps : List JsString) (s : GracefulShutdown) : Prop where
  all : s.started ++ s.remaining = steps
  started : s.started = s.ends.map Prod.fst ++ s.running.toList
  completed : s.result.completed = s.ends.filterMap finishedStep
  errors : s.result.errors = s.ends.filterMap failedStep

/-- What is so while nothing has won the race. -/
structure Undecided (s : GracefulShutdown) : Prop where
  running : s.running ≠ none
  returned : s.returned = none
  timedOut : s.result.timedOut = false
  recorded : ∀ p ∈ s.ends, p.2.Recorded

/-- What is so once the steps have won. -/
structure Finished (s : GracefulShutdown) : Prop where
  idle : s.running = none
  remaining : s.remaining = []
  timer : s.timer = false
  returned : s.returned = some (s.result, s.started)
  timedOut : s.result.timedOut = false
  recorded : ∀ p ∈ s.ends, p.2.Recorded

/-- What is so once the deadline has won: the result has not lost an entry. -/
structure Overrun (s : GracefulShutdown) : Prop where
  timer : s.timer = false
  timedOut : s.result.timedOut = true
  returned : ∃ r started, s.returned = some (r, started) ∧ r.entries ≤ s.result.entries

/-- The invariant. -/
structure Kept (steps : List JsString) (s : GracefulShutdown) : Prop where
  ordered : Ordered steps s
  undecided : s.outcome = none → Undecided s
  finished : s.outcome = some .done → Finished s
  overrun : s.outcome = some .deadline → Overrun s
  rejected : s.outcome = some .rejected → s.running = none

/-- Under the invariant, the deadline is respected unless the steps were given up, or the
result or the steps have moved since it was returned. -/
def Whole (s : GracefulShutdown) : Prop :=
  s.outcome ≠ some .rejected ∧
    (s.outcome = some .deadline → s.returned = some (s.result, s.started))

theorem Kept.complete {steps : List JsString} {s : GracefulShutdown} (h : Kept steps s)
    (hdone : s.outcome = some .done) : Complete steps s := by
  have hf := h.finished hdone
  have hall : s.started = steps := by
    have := h.ordered.all
    rwa [hf.remaining, List.append_nil] at this
  have hended : s.ends.map Prod.fst = steps := by
    have := h.ordered.started
    rw [hf.idle, Option.toList_none, List.append_nil] at this
    rw [← this, hall]
  refine ⟨hf.returned, hf.timedOut, hall, hended, h.ordered.completed, h.ordered.errors, ?_⟩
  rw [h.ordered.completed, h.ordered.errors, ← hended]
  exact perm_of_recorded hf.recorded

theorem Kept.sound_iff {steps : List JsString} {s : GracefulShutdown} (h : Kept steps s) :
    Sound steps s ↔ Whole s := by
  unfold Sound Whole
  cases houtcome : s.outcome with
  | none =>
      have hu := h.undecided houtcome
      simp [hu.running, hu.returned]
  | some outcome =>
      cases outcome with
      | done => simp [h.complete houtcome]
      | rejected => simp
      | deadline =>
          refine ⟨fun ha => ⟨by simp, fun _ => ha.returned⟩, fun hw => ⟨hw.2 rfl, ?_⟩⟩
          exact (h.overrun houtcome).timedOut

/-! ### The next step -/

/-- Where a call goes when no step is running. -/
inductive Goes (s : GracefulShutdown) : GracefulShutdown → Prop where
  | on (name : JsString) (rest : List JsString) (hremaining : s.remaining = name :: rest) :
      Goes s { s with running := some name, remaining := rest, started := s.started ++ [name] }
  | done (hremaining : s.remaining = []) (hopen : s.outcome = none) :
      Goes s ({ s with running := none }.settle .done)
  | overrun (hremaining : s.remaining = []) (hdecided : s.outcome ≠ none) :
      Goes s { s with running := none }

theorem goes_next (s : GracefulShutdown) : Goes s s.next := by
  unfold next
  split
  · next name rest hremaining => exact .on name rest hremaining
  · next hremaining =>
      dsimp only
      split
      · next hopen => exact .done hremaining hopen
      · next hdecided => exact .overrun hremaining hdecided

/-- A call between two steps. -/
structure Between (steps : List JsString) (s : GracefulShutdown) : Prop where
  all : s.started ++ s.remaining = steps
  started : s.started = s.ends.map Prod.fst
  completed : s.result.completed = s.ends.filterMap finishedStep
  errors : s.result.errors = s.ends.filterMap failedStep
  undecided : s.outcome = none →
    s.returned = none ∧ s.result.timedOut = false ∧ ∀ p ∈ s.ends, p.2.Recorded
  overrun : s.outcome ≠ none → s.outcome = some .deadline ∧ Overrun s

theorem Between.ordered_goes {steps : List JsString} {s t : GracefulShutdown}
    (h : Between steps s) (hgoes : Goes s t) : Ordered steps t := by
  cases hgoes with
  | on name rest hremaining =>
      refine ⟨?_, ?_, h.completed, h.errors⟩
      · rw [← h.all, hremaining, List.append_assoc]
        rfl
      · show s.started ++ [name] = _
        rw [h.started]
        rfl
  | done hremaining _ =>
      exact ⟨h.all, h.started.trans (List.append_nil _).symm, h.completed, h.errors⟩
  | overrun hremaining _ =>
      exact ⟨h.all, h.started.trans (List.append_nil _).symm, h.completed, h.errors⟩

theorem Between.kept_goes {steps : List JsString} {s t : GracefulShutdown} (h : Between steps s)
    (hgoes : Goes s t) : Kept steps t := by
  refine ⟨h.ordered_goes hgoes, ?_, ?_, ?_, ?_⟩
  · intro hopen
    cases hgoes with
    | on name rest _ =>
        obtain ⟨hreturned, htimedOut, hrecorded⟩ := h.undecided hopen
        exact ⟨by simp, hreturned, htimedOut, hrecorded⟩
    | done _ _ => exact absurd hopen (by simp [settle])
    | overrun _ hdecided => exact absurd hopen hdecided
  · intro hdone
    have hundone (hnot : s.outcome = some .done) : False := by
      have hdeadline := (h.overrun (by simp [hnot])).1
      exact absurd (hnot.symm.trans hdeadline) (by simp)
    cases hgoes with
    | on name rest _ => exact (hundone hdone).elim
    | done hremaining hopen =>
        obtain ⟨hreturned, htimedOut, hrecorded⟩ := h.undecided hopen
        exact ⟨rfl, hremaining, rfl, rfl, htimedOut, hrecorded⟩
    | overrun _ _ => exact (hundone hdone).elim
  · intro hdeadline
    have hoverrun (hnot : s.outcome = some .deadline) : Overrun s :=
      (h.overrun (by simp [hnot])).2
    cases hgoes with
    | on name rest _ =>
        obtain ⟨htimer, htimedOut, hreturned⟩ := hoverrun hdeadline
        exact ⟨htimer, htimedOut, hreturned⟩
    | done _ _ => exact absurd hdeadline (by simp [settle])
    | overrun _ _ =>
        obtain ⟨htimer, htimedOut, hreturned⟩ := hoverrun hdeadline
        exact ⟨htimer, htimedOut, hreturned⟩
  · intro hrejected
    have hkept (hnot : s.outcome = some .rejected) : False := by
      have hdeadline := (h.overrun (by simp [hnot])).1
      exact absurd (hnot.symm.trans hdeadline) (by simp)
    cases hgoes with
    | on name rest _ => exact (hkept hrejected).elim
    | done _ _ => rfl
    | overrun _ _ => rfl

/-- As long as nothing has won the race, the next step is in time. -/
theorem whole_goes {s t : GracefulShutdown} (hgoes : Goes s t) (h : s.outcome = none) :
    Whole t := by
  cases hgoes with
  | on name rest _ => exact ⟨by simp [h], fun hnot => absurd (h.symm.trans hnot) (by simp)⟩
  | done _ _ => exact ⟨by simp [settle], fun _ => rfl⟩
  | overrun _ hdecided => exact absurd h hdecided

/-- A result with more entries than the one returned is no longer that one. -/
theorem not_whole_goes {s t : GracefulShutdown} {r : GracefulShutdownResult}
    {started : List JsString} (hgoes : Goes s t) (h : s.outcome = some .deadline)
    (hreturned : s.returned = some (r, started)) (hmore : r.entries < s.result.entries) :
    ¬ Whole t := by
  intro hwhole
  have hsame : t.outcome = some .deadline ∧ t.result = s.result ∧ t.returned = s.returned := by
    cases hgoes with
    | on name rest _ => exact ⟨h, rfl, rfl⟩
    | done _ hopen => exact absurd (h.symm.trans hopen) (by simp)
    | overrun _ _ => exact ⟨h, rfl, rfl⟩
  obtain ⟨houtcome, hresult, hkept⟩ := hsame
  have hnow := hwhole.2 houtcome
  rw [hkept, hreturned, hresult] at hnow
  have hr : r = s.result := congrArg Prod.fst (Option.some.inj hnow)
  rw [hr] at hmore
  exact lt_irrefl _ hmore

theorem between_init (steps : List JsString) :
    Between steps ⟨none, steps, .empty, true, none, [], [], none⟩ :=
  ⟨rfl, rfl, rfl, rfl, fun _ => ⟨rfl, rfl, by simp⟩, fun h => absurd rfl h⟩

/-! ### One event -/

/-- What an event can do. -/
inductive Moves (s : GracefulShutdown) : ShutdownEvent → GracefulShutdown → Prop where
  /-- The step that is running ends and is recorded. -/
  | recorded (name : JsString) (e : StepEnd) (r : GracefulShutdownResult)
      (hrunning : s.running = some name)
      (hrecording : GracefulShutdownResult.Recording s.result r name e) :
      Moves s (.ended e) { s with ends := s.ends ++ [(name, e)], result := r }.next
  /-- It throws what has no text, and the steps are given up. -/
  | givenUp (name : JsString) (e : StepEnd) (hrunning : s.running = some name)
      (hnot : ¬ e.Recorded) (hfinished : finishedStep (name, e) = none)
      (hfailed : failedStep (name, e) = none) :
      Moves s (.ended e) { s with
        ends := s.ends ++ [(name, e)], running := none, outcome := s.outcome.or (some .rejected) }
  | deadline (htimer : s.timer = true) (hopen : s.outcome = none) :
      Moves s .deadline ({ s with result := { s.result with timedOut := true } }.settle .deadline)
  /-- The timer fires after the steps were given up. -/
  | late (htimer : s.timer = true) (hdecided : s.outcome ≠ none) :
      Moves s .deadline { s with timer := false }

theorem step_moves {s s' : GracefulShutdown} {e : ShutdownEvent} (h : step s e = some s') :
    Moves s e s' := by
  cases e with
  | ended e =>
      rw [step] at h
      cases hrunning : s.running with
      | none => rw [hrunning] at h; exact absurd h (by simp)
      | some name =>
          rw [hrunning] at h
          dsimp only at h
          cases hrecord : s.result.record name e with
          | some r =>
              rw [hrecord] at h
              obtain rfl := Option.some.inj h
              have hmove := Moves.recorded (s := s) name e r hrunning
                (GracefulShutdownResult.recording hrecord)
              exact hmove
          | none =>
              rw [hrecord] at h
              obtain rfl := Option.some.inj h
              have hnot := GracefulShutdownResult.record_eq_none hrecord
              cases e with
              | finished => exact absurd trivial hnot
              | threw err =>
                  have hnone : toMessage err = none := by
                    simpa [StepEnd.Recorded] using hnot
                  exact .givenUp name _ hrunning hnot rfl (by simp [failedStep, hnone])
  | deadline =>
      rw [step] at h
      split at h
      · next htimer =>
          split at h
          · next hopen =>
              obtain rfl := Option.some.inj h
              exact .deadline htimer hopen
          · next hdecided =>
              obtain rfl := Option.some.inj h
              exact .late htimer hdecided
      · exact absurd h (by simp)

/-- A list of ends that one more is added to. -/
theorem filterMap_concat {β : Type} (f : JsString × StepEnd → Option β)
    (ends : List (JsString × StepEnd)) (p : JsString × StepEnd) :
    (ends ++ [p]).filterMap f = ends.filterMap f ++ (f p).toList := by
  rw [List.filterMap_append]
  cases hp : f p <;> simp [hp]

/-- A step runs only while the steps have neither won the race nor been given up. -/
theorem Kept.of_running {steps : List JsString} {s : GracefulShutdown} {name : JsString}
    (h : Kept steps s) (hrunning : s.running = some name) :
    s.outcome = none ∨ s.outcome = some .deadline := by
  cases houtcome : s.outcome with
  | none => exact .inl rfl
  | some outcome =>
      cases outcome with
      | deadline => exact .inr rfl
      | done => exact absurd (hrunning.symm.trans (h.finished houtcome).idle) (by simp)
      | rejected => exact absurd (hrunning.symm.trans (h.rejected houtcome)) (by simp)

/-- The step that ends is the one that was started last. -/
theorem Ordered.ended {steps : List JsString} {s : GracefulShutdown} {name : JsString}
    (h : Ordered steps s) (hrunning : s.running = some name) (e : StepEnd) :
    s.started = (s.ends ++ [(name, e)]).map Prod.fst := by
  rw [h.started, hrunning, List.map_append]
  rfl

theorem Kept.between {steps : List JsString} {s : GracefulShutdown} {name : JsString}
    {e : StepEnd} {r : GracefulShutdownResult} (h : Kept steps s)
    (hrunning : s.running = some name)
    (hrecording : GracefulShutdownResult.Recording s.result r name e) :
    Between steps { s with ends := s.ends ++ [(name, e)], result := r } := by
  refine ⟨h.ordered.all, h.ordered.ended hrunning e, ?_, ?_, fun hopen => ?_, fun hdecided => ?_⟩
  · show r.completed = _
    rw [hrecording.completed, h.ordered.completed, filterMap_concat]
  · show r.errors = _
    rw [hrecording.errors, h.ordered.errors, filterMap_concat]
  · obtain ⟨-, hreturned, htimedOut, hrecorded⟩ := h.undecided hopen
    refine ⟨hreturned, hrecording.timedOut.trans htimedOut, fun p hp => ?_⟩
    rcases List.mem_append.mp hp with hold | hnew
    · exact hrecorded p hold
    · rw [List.mem_singleton.mp hnew]
      exact hrecording.recorded
  · have hdeadline := (h.of_running hrunning).resolve_left hdecided
    obtain ⟨htimer, htimedOut, r', started, hreturned, hmore⟩ := h.overrun hdeadline
    refine ⟨hdeadline, htimer, hrecording.timedOut.trans htimedOut, r', started, hreturned, ?_⟩
    exact hmore.trans (le_of_lt hrecording.more)

theorem kept_step {steps : List JsString} {s s' : GracefulShutdown} {e : ShutdownEvent}
    (h : Kept steps s) (hstep : step s e = some s') : Kept steps s' := by
  cases step_moves hstep with
  | recorded name e r hrunning hrecording =>
      exact (h.between hrunning hrecording).kept_goes (goes_next _)
  | givenUp name e hrunning hnot hfinished hfailed =>
      have hordered : Ordered steps { s with
          ends := s.ends ++ [(name, e)], running := none,
          outcome := s.outcome.or (some .rejected) } := by
        refine ⟨h.ordered.all, ?_, ?_, ?_⟩
        · exact (h.ordered.ended hrunning e).trans (List.append_nil _).symm
        · show s.result.completed = _
          rw [h.ordered.completed, filterMap_concat, hfinished, Option.toList_none,
            List.append_nil]
        · show s.result.errors = _
          rw [h.ordered.errors, filterMap_concat, hfailed, Option.toList_none, List.append_nil]
      rcases h.of_running hrunning with hopen | hdeadline
      · refine ⟨hordered, ?_, ?_, ?_, fun _ => rfl⟩
        all_goals
          intro houtcome
          dsimp only at houtcome
          rw [hopen] at houtcome
          exact absurd houtcome (by simp)
      · refine ⟨hordered, ?_, ?_, fun _ => ?_, fun _ => rfl⟩
        · intro houtcome
          dsimp only at houtcome
          rw [hdeadline] at houtcome
          exact absurd houtcome (by simp)
        · intro houtcome
          dsimp only at houtcome
          rw [hdeadline] at houtcome
          exact absurd houtcome (by simp)
        · obtain ⟨htimer, htimedOut, hreturned⟩ := h.overrun hdeadline
          exact ⟨htimer, htimedOut, hreturned⟩
  | deadline htimer hopen =>
      refine ⟨?_, ?_, ?_, fun _ => ⟨rfl, rfl, _, _, rfl, le_rfl⟩, ?_⟩
      · exact ⟨h.ordered.all, h.ordered.started, h.ordered.completed, h.ordered.errors⟩
      all_goals
        intro houtcome
        exact absurd houtcome (by simp [settle])
  | late htimer hdecided =>
      refine ⟨?_, fun hopen => absurd hopen hdecided, fun hdone => ?_, fun hdeadline => ?_,
        h.rejected⟩
      · exact ⟨h.ordered.all, h.ordered.started, h.ordered.completed, h.ordered.errors⟩
      · exact absurd (htimer.symm.trans (h.finished hdone).timer) (by simp)
      · exact absurd (htimer.symm.trans (h.overrun hdeadline).timer) (by simp)

/-- **An event breaks the deadline exactly if it is not timely.** -/
theorem whole_step {steps : List JsString} {s s' : GracefulShutdown} {e : ShutdownEvent}
    (h : Kept steps s) (hstep : step s e = some s') : Whole s' ↔ Whole s ∧ Timely s e := by
  cases step_moves hstep with
  | recorded name e r hrunning hrecording =>
      have hgoes := goes_next { s with ends := s.ends ++ [(name, e)], result := r }
      rcases h.of_running hrunning with hopen | hdeadline
      · have hwhole : Whole s :=
          ⟨by simp [hopen], fun hnot => absurd (hopen.symm.trans hnot) (by simp)⟩
        have htimely : Timely s (.ended e) := by
          simp only [Timely, hopen]
          exact hrecording.recorded
        exact iff_of_true (whole_goes hgoes hopen) ⟨hwhole, htimely⟩
      · obtain ⟨-, -, r', started, hreturned, hmore⟩ := h.overrun hdeadline
        have hnot := not_whole_goes hgoes hdeadline hreturned
          (lt_of_le_of_lt hmore hrecording.more)
        refine iff_of_false hnot fun hboth => ?_
        have htimely := hboth.2
        rw [Timely, if_pos hdeadline] at htimely
        exact htimely hrecording.recorded
  | givenUp name e hrunning hnot _ _ =>
      rcases h.of_running hrunning with hopen | hdeadline
      · refine iff_of_false (fun hwhole => hwhole.1 (by simp [hopen])) fun hboth => hnot ?_
        simpa [Timely, hopen] using hboth.2
      · have htimely : Timely s (.ended e) := by
          rw [Timely, if_pos hdeadline]
          exact hnot
        simp only [Whole, hdeadline, htimely, and_true, Option.some_or]
  | deadline htimer hopen =>
      refine iff_of_true ⟨by simp [settle], fun _ => rfl⟩ ⟨?_, trivial⟩
      exact ⟨by simp [hopen], fun hnot => absurd (hopen.symm.trans hnot) (by simp)⟩
  | late htimer hdecided =>
      exact ⟨fun hwhole => ⟨hwhole, trivial⟩, fun hboth => hboth.1⟩

/-! ### The runs -/

/-- **A shutdown respects its deadline exactly if no step throws a value without a text before
it, and the step it interrupts does not end after it.**  In every run the result accounts for
every step, in order, or was returned at the deadline and has stood still since, exactly along
those events. -/
theorem gracefulShutdown_deadline :
    ∀ steps es s, Steps.run step (init steps) es = some s →
      (Sound steps s ↔ Steps.Along step Timely (init steps) es) := by
  intro steps es s hrun
  have hinit : Kept steps (init steps) := (between_init steps).kept_goes (goes_next _)
  have hwhole : Whole (init steps) := whole_goes (goes_next _) rfl
  have hspoilt := Steps.run_spoilt_iff (C := Timely) (D := fun _ => True) (P := Kept steps)
    (B := fun s => ¬ Whole s) (fun s e s' hkept _ hstep => kept_step hkept hstep)
    (fun s e s' hkept _ hstep => by rw [whole_step hkept hstep, not_and_or])
    hinit (fun _ _ => trivial) hrun
  have hkept : Kept steps s := Steps.invariant (fun s e s' => kept_step) hinit hrun
  rw [hkept.sound_iff, ← not_iff_not, hspoilt]
  simp [hwhole]

/-- Both steps end in time, the second by throwing. -/
theorem gracefulShutdown_in_time :
    ∃ s, Steps.run step (init [js "drain", js "close"])
        [.ended .finished, .ended (.threw (.error (js "nope")))] = some s ∧
      Sound [js "drain", js "close"] s := by
  refine ⟨_, rfl, ?_⟩
  apply (gracefulShutdown_deadline [js "drain", js "close"]
    [.ended .finished, .ended (.threw (.error (js "nope")))] _ rfl).mpr
  decide +kernel

/-- The first step hangs past the deadline, and ends: it is recorded in the result that was
returned, and the second one is started. -/
theorem late_end_moves_result :
    ∃ s, Steps.run step (init [js "drain", js "close"]) [.deadline, .ended .finished] = some s ∧
      s.outcome = some .deadline ∧ s.returned = some (⟨[], true, []⟩, [js "drain"]) ∧
      s.result = ⟨[js "drain"], true, []⟩ ∧ s.started = [js "drain", js "close"] ∧
      ¬ Sound [js "drain", js "close"] s := by
  refine ⟨_, rfl, rfl, rfl, rfl, rfl, ?_⟩
  intro hsound
  have hreturned := Abandoned.returned hsound
  exact absurd hreturned (by decide +kernel)

end GracefulShutdown

end Kaiban
