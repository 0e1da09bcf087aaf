/-
Each stopped send has one card that says so.

The stop of a send is reported by the hook of the actor, and by the wrapper when a handler
the stop aborted settles.  The set of marked task ids is to let the first of these reports
through and no other.  It holds ids and not sends, and the next attempt of the id clears
the mark.  So a send has its one card when its first report comes after an attempt of the id
has begun since the last report of another send, and when no attempt of the id begins
between its own two reports.

A card names a task and no send, so the cards are kept with the send whose step published
them.
-/
import Kaiban.Proofs.AgentNode.CardAgrees
import Kaiban.Proofs.Publisher.Marks
import Kaiban.Proofs.Publisher.StoppedCards

open JsString

namespace Kaiban

/-- A stop ends the delivery, or ended it. -/
def Stage.Halting (st : Stage) : Prop := st.Stopping ∧ st ≠ .ended .failed

/-- Only a record that is not published takes a delivery off its way to a stop. -/
theorem Reaction.halting {cfg : ActorConfig} {sig : Signals} {del del' : Delivery} {a : Act}
    (hr : Reaction cfg sig del a del') (h : del.stage.Halting)
    (hrecord : ∀ e, a ≠ .published (.error e)) : del'.stage.Halting := by
  refine ⟨hr.stopping h.1, ?_⟩
  have hstopping := h.1
  cases hr with
  | late => exact h.2
  | raced k out hs =>
      rw [hs] at hstopping
      cases out with
      | returned v => exact absurd hstopping id
      | threw t =>
          cases t with
          | nonRetryable e =>
              rw [del.attemptEnded_stop k hstopping]
              exact fun h => absurd h (by simp)
          | _ => exact absurd hstopping id
  | recorded ending hs =>
      rw [hs] at hstopping
      intro heq
      obtain rfl : ending = .failed := Stage.ended.inj heq
      exact absurd hstopping (by simp [Stage.Stopping, Ending.isStop])
  | notRecorded ending e hs => exact absurd rfl (hrecord e)
  | notCompleted k e hs => exact absurd rfl (hrecord e)
  | _ =>
      rename_i hs
      exact absurd hstopping (by simp [hs, Stage.Stopping])

theorem Delivery.abort_halting {del : Delivery} {e : NonRetryableError} (h : del.stage.Halting) :
    (del.abort e).stage.Halting := by
  rcases del.abort_cases e with ⟨k, hs, -⟩ | ⟨-, heq⟩
  · exact absurd h.1 (by simp [hs, Stage.Stopping])
  · rw [heq]
    exact h

namespace AgentNode

open AgentStatePublisher (ThrowsStop Silent)

variable {cfg : AgentNodeConfig} {n n' : AgentNode}

/-! ### Which send a card is for -/

/-- The send a step is about. -/
def sendOf (n : AgentNode) : NodeEvent → Option ℕ
  | .act d _ => some d
  | .settles i _ => (n.owner i).map Prod.fst
  | _ => none

/-- An attempt of a task that a step begins. -/
def attemptBegun (n n' : AgentNode) : List Happening :=
  if n'.publisher.attemptSeq = n.publisher.attemptSeq then []
  else match n'.publisher.attempts n'.publisher.attemptSeq with
    | some ⟨p, _, _, none⟩ => [.begun p.taskId]
    | _ => []

/-- The stop of the delivery, when its record is being published. -/
def stopRecorded (n : AgentNode) (d : ℕ) : List Happening :=
  match n.actor.deliveries d with
  | some ⟨p, .recording ending, _⟩ => if ending.isStop then [.told d p.taskId] else []
  | _ => []

/-- The wrapper rejects with a stop. -/
def rejectsWithStop : Outcome → Bool
  | .threw (.nonRetryable e) => e.isEmergencyStop
  | _ => false

/-- The stop the wrapper of an attempt has rejected with. -/
def stopThrown (n n' : AgentNode) (i : ℕ) : List Happening :=
  match n.owner i, n'.publisher.attempts i with
  | some (d, _), some ⟨p, _, _, some out⟩ =>
      if rejectsWithStop out then [.told d p.taskId] else []
  | _, _ => []

/-- What a step adds to the history. -/
def happened (n n' : AgentNode) : NodeEvent → List Happening
  | .act _ .start => attemptBegun n n'
  | .act d (.published (.ok ())) => stopRecorded n d
  | .settles i _ => stopThrown n n' i
  | _ => []

/-- A node with the `STOPPED` cards it published, each with the send its step was about, and
with the history of the attempts and the stops. -/
structure Ledger where
  node : AgentNode
  cards : List (Option ℕ × TaskCard)
  history : List Happening

namespace Ledger

def init : Ledger := ⟨.init, [], []⟩

/-- The cards a step publishes. -/
def newCards (n n' : AgentNode) : List TaskCard :=
  n'.publisher.stoppedCards.drop n.publisher.stoppedCards.length

def step (cfg : AgentNodeConfig) (l : Ledger) (e : NodeEvent) : Option Ledger :=
  (l.node.step cfg e).map fun n' =>
    ⟨n', l.cards ++ (newCards l.node n').map fun card => (l.node.sendOf e, card),
      l.history ++ happened l.node n' e⟩

/-- The `STOPPED` cards of a send. -/
def cardsOf (l : Ledger) (d : ℕ) : List TaskCard :=
  l.cards.filterMap fun (send, card) => if send = some d then some card else none

end Ledger

/-- Every send that ended with a stop has one card, and a card is for a send that a stop
ends or ended. -/
structure ReportedOnce (cfg : AgentNodeConfig) (l : Ledger) : Prop where
  stopped : ∀ d del ending, l.node.actor.deliveries d = some del → del.stage = .ended ending →
    ending.isStop = true → ∃ title, taskTitle del.payload = some title ∧ l.cardsOf d
      = [AgentStatePublisher.taskCard cfg.publisher del.payload.taskId title .stopped]
  others : ∀ send card, (send, card) ∈ l.cards → ∃ d del, send = some d ∧
    l.node.actor.deliveries d = some del ∧ del.stage.Halting

/-! ### The condition -/

/-- The delivery is over, by a stop. -/
def OverByStop (a : Actor) (d : ℕ) : Prop :=
  ∃ del ending, a.deliveries d = some del ∧ del.stage = .ended ending ∧ ending.isStop = true

/-- A handler of the delivery has settled, and the wrapper rejected with a stop. -/
def SettledByStop (n : AgentNode) (d : ℕ) : Prop :=
  ∃ i k att e, n.Owns d i k att ∧ att.ended = some (.threw (.nonRetryable e)) ∧
    e.isEmergencyStop = true

/-- The stop of the send was reported, by the hook or by the wrapper. -/
def Reported (n : AgentNode) (d : ℕ) : Prop := OverByStop n.actor d ∨ n.SettledByStop d

/-- The report of a stop comes in its turn, and the first one of a send finds a title. -/
structure Ledger.ReportsWell (l : Ledger) (d : ℕ) (p : Payload) : Prop where
  turn : InTurn l.history p.taskId (l.node.Reported d)
  title : ¬ l.node.Reported d → (taskTitle p).isSome = true

/-- The event reports no stop out of its turn.  A handler that was given up rejects with a stop
only when one ends its send, and the record of a stop that was reported is published. -/
def Ledger.ReportsInTurn (l : Ledger) : NodeEvent → Prop
  | .act d (.published (.ok ())) => ∀ del ending, l.node.actor.deliveries d = some del →
      del.stage = .recording ending → ending.isStop = true → l.ReportsWell d del.payload
  | .act d (.published (.error _)) => ∀ del ending, l.node.actor.deliveries d = some del →
      del.stage = .recording ending → ending.isStop = true → ¬ l.node.Reported d
  | .settles i out => ∀ d k att del, l.node.Owns d i k att →
      l.node.actor.deliveries d = some del → ThrowsStop att out →
        l.ReportsWell d att.payload ∧ (att.aborted = none ∨ del.stage.Halting)
  | _ => True

/-! ### The marks -/

/-- The id of a send is marked if and only if the stop of this send was reported, and the
first report finds a title. -/
structure MarkedAsReported (n : AgentNode) (d : ℕ) (p : Payload) : Prop where
  mark : n.publisher.Marked p.taskId ↔ n.Reported d
  title : ¬ n.Reported d → (taskTitle p).isSome = true

/-- What a step needs of the marks. -/
def MarksInStep (n : AgentNode) : NodeEvent → Prop
  | .act d (.published (.ok ())) => ∀ del ending, n.actor.deliveries d = some del →
      del.stage = .recording ending → ending.isStop = true → n.MarkedAsReported d del.payload
  | .act d (.published (.error _)) => ∀ del ending, n.actor.deliveries d = some del →
      del.stage = .recording ending → ending.isStop = true → ¬ n.Reported d
  | .settles i out => ∀ d k att del, n.Owns d i k att → n.actor.deliveries d = some del →
      ThrowsStop att out →
        n.MarkedAsReported d att.payload ∧ (att.aborted = none ∨ del.stage.Halting)
  | _ => True

/-- The marks follow the history. -/
def MarksFollow (l : Ledger) : Prop :=
  l.node.publisher.stoppedTaskIds = l.history.foldl remember .empty

theorem MarksFollow.marked {l : Ledger} (h : MarksFollow l) {d : ℕ} {p : Payload}
    (hp : l.ReportsWell d p) : l.node.MarkedAsReported d p := by
  refine ⟨?_, hp.title⟩
  unfold AgentStatePublisher.Marked
  rw [h]
  exact hp.turn.remembered_iff (remembered p.taskId l.history)

/-- **Reports in their turn find the marks as they should be.** -/
theorem MarksFollow.inStep {l : Ledger} (h : MarksFollow l) {e : NodeEvent}
    (he : l.ReportsInTurn e) : l.node.MarksInStep e := by
  cases e with
  | act d a =>
      cases a with
      | published r =>
          cases r with
          | ok _ => exact fun del ending hdel hs hstop => h.marked (he del ending hdel hs hstop)
          | error _ => exact he
      | _ => trivial
  | settles i out =>
      intro d k att del howns hdel hthrows
      obtain ⟨hwell, haborted⟩ := he d k att del howns hdel hthrows
      exact ⟨h.marked hwell, haborted⟩
  | _ => trivial

theorem happened_elsewhere (n n' : AgentNode) {e : NodeEvent} (h : Elsewhere e) :
    happened n n' e = [] := by
  cases e with
  | act d a =>
      cases a with
      | start => exact absurd h id
      | published r => exact absurd h id
      | _ => rfl
  | settles i out => exact absurd h id
  | _ => rfl

theorem stopThrown_afterEnd (a' : Actor) (t : AgentStatePublisher) {i d k : ℕ} (att : Attempt)
    (o : Outcome) (howner : n.owner i = some (d, k)) : stopThrown n (n.afterEnd a' t i att o) i
      = if rejectsWithStop o then [.told d att.payload.taskId] else [] := by
  have hnew : (n.afterEnd a' t i att o).publisher.attempts i
      = some { att with ended := some o } := if_pos rfl
  unfold stopThrown
  rw [howner, hnew]

theorem stoppedTaskIds_publishStopped (s : AgentStatePublisher) (p : Payload) (d : ℕ) :
    (s.publishStopped cfg.publisher p).stoppedTaskIds
      = remember s.stoppedTaskIds (.told d p.taskId) := by
  unfold AgentStatePublisher.publishStopped AgentStatePublisher.markStopped
  cases hget : s.stoppedTaskIds.get p.taskId with
  | some u => exact (remember_told_some hget d).symm
  | none =>
      rw [remember_told_none hget]
      dsimp only
      cases taskTitle p with
      | none => rfl
      | some title =>
          dsimp only
          split <;> rfl

/-- **Every step changes the marks as the history says.** -/
theorem marks_step {e : NodeEvent} (hstep : n.step cfg e = some n') :
    n'.publisher.stoppedTaskIds
      = (happened n n' e).foldl remember n.publisher.stoppedTaskIds := by
  cases step_move hstep with
  | arrived d p b a' hnone hsets => rfl
  | reacted d a del del' a' hdel hr hrace hstop hsets =>
      have hnothing : happened n { n with actor := a' } (.act d a) = [] := by
        cases a with
        | start => exact if_pos rfl
        | published r =>
            cases r with
            | error e => rfl
            | ok u =>
                obtain ⟨p, stage, calls⟩ := del
                show stopRecorded n d = []
                unfold stopRecorded
                rw [hdel]
                cases stage with
                | recording ending => simp [hstop ending rfl rfl]
                | _ => rfl
        | _ => rfl
      rw [hnothing]
      rfl
  | invoked d k del title t ended a' hdel hs htitle hcases hatt hseq hold hspares hsets =>
      show t.stoppedTaskIds = (attemptBegun n _).foldl remember n.publisher.stoppedTaskIds
      unfold attemptBegun
      rw [if_neg (by rw [hseq]; exact Nat.succ_ne_self _)]
      dsimp only
      rw [hseq, hatt]
      cases hcases with
      | refused e he hcard hmark hcurrent hatt' hmarks =>
          obtain rfl : ended = some (.threw e) := by simpa using hatt.symm.trans hatt'
          exact hmarks
      | begun hcard hmark hcurrent hatt' hmarks =>
          obtain rfl : ended = none := by simpa using hatt.symm.trans hatt'
          exact hmarks
  | untitled d k del a' hdel hs htitle hsets =>
      show n.publisher.stoppedTaskIds = (attemptBegun n _).foldl remember _
      unfold attemptBegun
      rw [if_pos rfl]
      rfl
  | aborted e owns reason a' hdel helsewhere =>
      rw [happened_elsewhere n _ helsewhere]
      rfl
  | settled i d k out att del del' a' hatt hended howner hdel hr hsets =>
      have hthrown := stopThrown_afterEnd (n := n) a'
        (n.publisher.settled cfg.publisher i att out).1 att
        (n.publisher.settled cfg.publisher i att out).2 howner
      show (n.publisher.settled cfg.publisher i att out).1.stoppedTaskIds
        = (stopThrown n (n.afterEnd a' _ i att _) i).foldl remember _
      rw [hthrown]
      rcases AgentStatePublisher.settled_reports cfg.publisher n.publisher i att out with
        ⟨t, e, hsilent, -, he, heq⟩ | ⟨hsilent, hnot⟩
      · have hstop : rejectsWithStop (.threw (.nonRetryable e)) = true := he
        rw [heq, if_pos hstop, stoppedTaskIds_publishStopped t att.payload d, hsilent.marks]
        rfl
      · have hno : rejectsWithStop (n.publisher.settled cfg.publisher i att out).2 = false := by
          cases hout : (n.publisher.settled cfg.publisher i att out).2 with
          | threw thrown =>
              cases thrown with
              | nonRetryable e => exact hnot e hout
              | _ => rfl
          | returned v => rfl
        rw [hno]
        exact hsilent.marks
  | stopped d del ending a' hdel hs hstop hsets =>
      obtain ⟨p, stage, calls⟩ := del
      obtain rfl : stage = .recording ending := hs
      have htold : stopRecorded n d = [.told d p.taskId] := by
        unfold stopRecorded
        rw [hdel]
        exact if_pos hstop
      show (n.publisher.publishStopped cfg.publisher p).stoppedTaskIds
        = (stopRecorded n d).foldl remember _
      rw [htold]
      exact stoppedTaskIds_publishStopped n.publisher p d
  | announced e row s hs helsewhere =>
      rw [happened_elsewhere n _ helsewhere]
      rcases hs with rfl | rfl <;> rfl

theorem MarksFollow.step {l l' : Ledger} {e : NodeEvent} (h : MarksFollow l)
    (hstep : Ledger.step cfg l e = some l') : MarksFollow l' := by
  obtain ⟨n', hn', rfl⟩ := Option.map_eq_some_iff.mp hstep
  unfold MarksFollow at h ⊢
  rw [List.foldl_append, ← h]
  exact marks_step hn'

/-! ### What one step reports -/

/-- The step reports no stop. -/
structure Quiet (n n' : AgentNode) : Prop where
  cards : n'.publisher.stoppedCards = n.publisher.stoppedCards
  ended : ∀ d, OverByStop n'.actor d ↔ OverByStop n.actor d
  settled : ∀ d, n'.SettledByStop d ↔ n.SettledByStop d
  kept : ∀ d del, n.actor.deliveries d = some del → ∃ del', n'.actor.deliveries d = some del' ∧
    del'.payload = del.payload ∧ (n.Reported d → del.stage.Halting → del'.stage.Halting)

/-- The step reports the stop of a send. -/
structure Told (cfg : AgentNodeConfig) (n n' : AgentNode) (d : ℕ) (p : Payload) : Prop where
  cards : (n.Reported d ∧ n'.publisher.stoppedCards = n.publisher.stoppedCards) ∨
    ¬ n.Reported d ∧ ∃ title, taskTitle p = some title ∧ n'.publisher.stoppedCards
      = n.publisher.stoppedCards
        ++ [AgentStatePublisher.taskCard cfg.publisher p.taskId title .stopped]
  reported : ∀ x, n'.Reported x ↔ n.Reported x ∨ x = d
  changed : ∃ del del', n.actor.deliveries d = some del ∧ n.actor.Sets d del' n'.actor ∧
    del.payload = p ∧ del'.payload = p ∧ del'.stage.Halting

/-- The report of a stop, by either of the two. -/
theorem told_cards {s : AgentStatePublisher} {d : ℕ} {p : Payload}
    (hsilent : Silent n.publisher s) (h : n.MarkedAsReported d p) :
    (n.Reported d ∧ (s.publishStopped cfg.publisher p).stoppedCards
        = n.publisher.stoppedCards) ∨
      ¬ n.Reported d ∧ ∃ title, taskTitle p = some title ∧
        (s.publishStopped cfg.publisher p).stoppedCards = n.publisher.stoppedCards
          ++ [AgentStatePublisher.taskCard cfg.publisher p.taskId title .stopped] := by
  have hmark : s.Marked p.taskId ↔ n.Reported d := by
    refine Iff.trans ?_ h.mark
    unfold AgentStatePublisher.Marked
    rw [hsilent.marks]
  by_cases hr : n.Reported d
  · refine .inl ⟨hr, ?_⟩
    rw [AgentStatePublisher.publishStopped_marked (hmark.mpr hr)]
    exact hsilent.cards
  · obtain ⟨title, htitle⟩ := Option.isSome_iff_exists.mp (h.title hr)
    refine .inr ⟨hr, title, htitle, ?_⟩
    rw [AgentStatePublisher.stoppedCards_unmarked (fun hm => hr (hmark.mp hm)) htitle,
      hsilent.cards]

/-- A delivery that changes and is over by a stop before and after, or neither. -/
theorem over_sets {a a' : Actor} {d : ℕ} {del del' : Delivery} (hdel : a.deliveries d = some del)
    (hsets : a.Sets d del' a')
    (hover : ∀ ending, ending.isStop = true →
      (del'.stage = .ended ending ↔ del.stage = .ended ending)) (x : ℕ) :
    OverByStop a' x ↔ OverByStop a x := by
  unfold OverByStop
  by_cases hxd : x = d
  · subst hxd
    rw [hsets.1, hdel]
    constructor
    · rintro ⟨_, ending, heq, hs, hstop⟩
      obtain rfl := Option.some.inj heq
      exact ⟨del, ending, rfl, (hover ending hstop).mp hs, hstop⟩
    · rintro ⟨_, ending, heq, hs, hstop⟩
      obtain rfl := Option.some.inj heq
      exact ⟨del', ending, rfl, (hover ending hstop).mpr hs, hstop⟩
  · rw [hsets.2 x hxd]

/-- The deliveries stay when one of them changes. -/
theorem kept_sets {a a' : Actor} {d : ℕ} {del del' : Delivery} {P : ℕ → Prop}
    (hdel : a.deliveries d = some del) (hsets : a.Sets d del' a')
    (hpayload : del'.payload = del.payload)
    (hhalting : P d → del.stage.Halting → del'.stage.Halting) (x : ℕ) (old : Delivery)
    (hx : a.deliveries x = some old) : ∃ new, a'.deliveries x = some new ∧
      new.payload = old.payload ∧ (P x → old.stage.Halting → new.stage.Halting) := by
  by_cases hxd : x = d
  · subst hxd
    obtain rfl : del = old := Option.some.inj (hdel.symm.trans hx)
    exact ⟨del', hsets.1, hpayload, hhalting⟩
  · exact ⟨old, (hsets.2 x hxd).trans hx, rfl, fun _ h => h⟩

/-! ### Steps without a report -/

/-- The actor goes on alone. -/
theorem quiet_sets {d : ℕ} {del del' : Delivery} {a' : Actor}
    (hdel : n.actor.deliveries d = some del) (hsets : n.actor.Sets d del' a')
    (hpayload : del'.payload = del.payload)
    (hover : ∀ ending, ending.isStop = true →
      (del'.stage = .ended ending ↔ del.stage = .ended ending))
    (hhalting : n.Reported d → del.stage.Halting → del'.stage.Halting) :
    Quiet n { n with actor := a' } where
  cards := rfl
  ended := over_sets hdel hsets hover
  settled _ := Iff.rfl
  kept := kept_sets hdel hsets hpayload hhalting

theorem quiet_arrived {d : ℕ} {p : Payload} {b : Bool} {a' : Actor}
    (hnone : n.actor.deliveries d = none)
    (hsets : n.actor.Sets d (processTask cfg.actor n.actor.signals p b) a') :
    Quiet n { n with actor := a' } where
  cards := rfl
  ended x := by
    unfold OverByStop
    by_cases hxd : x = d
    · subst hxd
      rw [hsets.1, hnone]
      constructor
      · rintro ⟨_, ending, heq, hs, hstop⟩
        obtain rfl := Option.some.inj heq
        obtain rfl := (processTask_stage cfg.actor n.actor.signals p b).2 ending hs
        exact absurd hstop (by simp [Ending.isStop])
      · rintro ⟨_, _, heq, -⟩
        exact absurd heq (by simp)
    · rw [hsets.2 x hxd]
  settled _ := Iff.rfl
  kept x del hx := by
    have hxd : x ≠ d := by
      rintro rfl
      exact absurd (hnone.symm.trans hx) (by simp)
    exact ⟨del, (hsets.2 x hxd).trans hx, rfl, fun _ h => h⟩

/-- A reaction that reports no stop leaves the deliveries that are over by one. -/
theorem reaction_over {sig : Signals} {del del' : Delivery} {a : Act}
    (hr : Reaction cfg.actor sig del a del')
    (hstop : ∀ ending, a = .published (.ok ()) → del.stage = .recording ending →
      ending.isStop = false) (ending : Ending) (hend : ending.isStop = true) :
    del'.stage = .ended ending ↔ del.stage = .ended ending := by
  constructor
  · intro hs
    rcases hr.ends hs with rfl | rfl | rfl | ⟨hact, hrec, -⟩
    · exact hs
    · exact absurd hend (by simp [Ending.isStop])
    · exact absurd hend (by simp [Ending.isStop])
    · exact absurd ((hstop ending hact hrec).symm.trans hend) (by simp)
  · intro hs
    cases hr with
    | late => exact hs
    | _ =>
        rename_i hother
        exact absurd (hother.symm.trans hs) (by simp)

theorem quiet_reacted {d : ℕ} {a : Act} {del del' : Delivery} {a' : Actor}
    (hdel : n.actor.deliveries d = some del)
    (hr : Reaction cfg.actor n.actor.signals del a del')
    (hstop : ∀ ending, a = .published (.ok ()) → del.stage = .recording ending →
      ending.isStop = false) (hsets : n.actor.Sets d del' a')
    (hmarks : n.MarksInStep (.act d a)) : Quiet n { n with actor := a' } := by
  refine quiet_sets hdel hsets hr.payload (reaction_over hr hstop) fun hreported h => ?_
  by_cases hrecord : ∀ e, a ≠ .published (.error e)
  · exact hr.halting h hrecord
  · exfalso
    push Not at hrecord
    obtain ⟨e, rfl⟩ := hrecord
    cases hr with
    | late act hact => simp at hact
    | notCompleted k e hs => exact absurd h.1 (by simp [hs, Stage.Stopping])
    | notRecorded ending e hs =>
        have hstopping := h.1
        rw [hs] at hstopping
        exact hmarks del ending hdel hs hstopping hreported

/-- A timer or a stop reports nothing. -/
theorem quiet_aborted {owns : ℕ → Bool} {reason : NonRetryableError} {a' : Actor}
    (hdel : ∀ d, a'.deliveries d = (n.actor.deliveries d).map fun del =>
      if owns d then del.abort reason else del) :
    Quiet n ⟨a', aborting n.publisher (n.attemptsOf owns) reason, n.owner⟩ := by
  have hstage : ∀ d (del : Delivery) ending,
      (if owns d then del.abort reason else del).stage = .ended ending
        ↔ del.stage = .ended ending := by
    intro d del ending
    split
    · rcases del.abort_cases reason with ⟨k, hs, heq⟩ | ⟨-, heq⟩
      · rw [heq, hs]
        simp
      · rw [heq]
    · exact Iff.rfl
  refine ⟨rfl, fun d => ?_, fun d => ?_, fun d del hd => ?_⟩
  · unfold OverByStop
    rw [hdel d]
    cases n.actor.deliveries d with
    | none => simp
    | some del => simp [hstage d del]
  · constructor
    · rintro ⟨i, k, att, e, hi, hended, he⟩
      obtain ⟨old, hold, rfl⟩ := aborting_some hi.2
      refine ⟨i, k, old, e, ⟨hi.1, hold⟩, ?_, he⟩
      split at hended <;> exact hended
    · rintro ⟨i, k, att, e, hi, hended, he⟩
      refine ⟨i, k, _, e, ⟨hi.1, congrArg (Option.map _) hi.2⟩, ?_, he⟩
      show (if i ∈ n.attemptsOf owns then _ else att).ended = _
      split <;> exact hended
  · refine ⟨_, by rw [hdel d, hd]; rfl, ?_⟩
    split
    · exact ⟨del.abort_payload reason, fun _ h => Delivery.abort_halting h⟩
    · exact ⟨rfl, fun _ h => h⟩

/-- The wrapper is called, and its attempt does not end by a stop. -/
theorem settledByStop_invoked (hw : Wired n) {d k : ℕ} {p : Payload} {title : JsString}
    {t : AgentStatePublisher} {ended : Option Outcome} {a' : Actor}
    (hcases : AgentStatePublisher.Invoked n.publisher p title t)
    (hatt : t.attempts (n.publisher.attemptSeq + 1) = some ⟨p, title, none, ended⟩)
    (hold : ∀ i, i ≠ n.publisher.attemptSeq + 1 → t.attempts i = n.publisher.attempts i) (x : ℕ) :
    SettledByStop
        ⟨a', t, fun i => if i = n.publisher.attemptSeq + 1 then some (d, k) else n.owner i⟩ x
      ↔ n.SettledByStop x := by
  have hended : ∀ e, ended = some (.threw (.nonRetryable e)) → e.isEmergencyStop = false := by
    rintro e rfl
    cases hcases with
    | refused e' he hcard hmark hcurrent hatt' =>
        have heq : e' = .nonRetryable e := by simpa using hatt'.symm.trans hatt
        exact he e heq
    | begun hcard hmark hcurrent hatt' => exact absurd (hatt'.symm.trans hatt) (by simp)
  constructor
  · rintro ⟨i, j, att, e, hi, hends, he⟩
    by_cases hin : i = n.publisher.attemptSeq + 1
    · subst hin
      obtain rfl := Option.some.inj (hatt.symm.trans hi.2)
      exact absurd ((hended e hends).symm.trans he) (by simp)
    · exact ⟨i, j, att, e, ⟨(if_neg hin).symm.trans hi.1, (hold i hin).symm.trans hi.2⟩, hends, he⟩
  · rintro ⟨i, j, att, e, hi, hends, he⟩
    have hin : i ≠ n.publisher.attemptSeq + 1 := by
      rintro rfl
      exact absurd (hw.numbered _ att hi.2) (by omega)
    exact ⟨i, j, att, e, ⟨(if_neg hin).trans hi.1, (hold i hin).trans hi.2⟩, hends, he⟩

/-- The start of an attempt publishes no stop. -/
theorem stoppedCards_start {d : ℕ} (h : n.step cfg (.act d .start) = some n') :
    n'.publisher.stoppedCards = n.publisher.stoppedCards := by
  obtain ⟨a, ha, hreact⟩ := Option.bind_eq_some_iff.mp h
  dsimp only at hreact
  split at hreact
  · rename_i p k calls _
    unfold invoke at hreact
    split at hreact
    · obtain ⟨del, del', a', -, -, -, rfl⟩ := settleRace_some hreact
      rfl
    · rename_i title _
      dsimp only at hreact
      have hinvoked :=
        AgentStatePublisher.stoppedCards_invoked cfg.publisher n.publisher p title
      split at hreact
      · rw [← Option.some.inj hreact]
        exact hinvoked
      · obtain ⟨del, del', a', -, -, -, rfl⟩ := settleRace_some hreact
        exact hinvoked
  · rw [← Option.some.inj hreact]

/-! ### Reports -/

/-- The hook reports the stop of its send. -/
theorem told_stopped {d : ℕ} {del : Delivery} {ending : Ending} {a' : Actor}
    (hdel : n.actor.deliveries d = some del) (hs : del.stage = .recording ending)
    (hstop : ending.isStop = true) (hsets : n.actor.Sets d (del.recorded cfg.actor ending) a')
    (hmarks : n.MarksInStep (.act d (.published (.ok ())))) :
    Told cfg n ⟨a', n.publisher.publishStopped cfg.publisher del.payload, n.owner⟩ d
      del.payload := by
  have hattempts :=
    (AgentStatePublisher.Publishes.stopped cfg.publisher n.publisher del.payload).attempts
  have hsettled : ∀ x, SettledByStop
      ⟨a', n.publisher.publishStopped cfg.publisher del.payload, n.owner⟩ x
        ↔ n.SettledByStop x := by
    intro x
    unfold SettledByStop Owns
    rw [hattempts]
  refine ⟨told_cards (.refl _) (hmarks del ending hdel hs hstop), fun x => ?_,
    del, _, hdel, hsets, rfl, del.recorded_payload ending, .inl hstop, ?_⟩
  · by_cases hxd : x = d
    · subst hxd
      exact ⟨fun _ => .inr rfl, fun _ => .inl ⟨_, ending, hsets.1, rfl, hstop⟩⟩
    · have hover : OverByStop a' x ↔ OverByStop n.actor x := by
        unfold OverByStop
        rw [hsets.2 x hxd]
      exact (or_congr hover (hsettled x)).trans (by simp [Reported, hxd])
  · intro hended
    obtain rfl : ending = .failed := Stage.ended.inj hended
    exact absurd hstop (by simp [Ending.isStop])

/-- The end of an attempt leaves the deliveries that are over. -/
theorem over_settled {d k : ℕ} {del del' : Delivery} {o : Outcome} {a' : Actor}
    (hdel : n.actor.deliveries d = some del)
    (hr : (del.stage = .running k none ∧ del' = del.goto (.running k (some o))) ∨
      (del.stage ≠ .running k none ∧ del' = del)) (hsets : n.actor.Sets d del' a') (x : ℕ) :
    OverByStop a' x ↔ OverByStop n.actor x := by
  refine over_sets hdel hsets (fun ending _ => ?_) x
  rcases hr with ⟨hrun, rfl⟩ | ⟨-, rfl⟩
  · rw [hrun]
    simp
  · exact Iff.rfl

/-- Which attempts are settled by a stop once one more has settled. -/
theorem settledByStop_afterEnd (a' : Actor) {t : AgentStatePublisher} {i d k : ℕ} {att : Attempt}
    (o : Outcome) (hattempts : t.attempts = n.publisher.attempts)
    (hatt : n.publisher.attempts i = some att) (hopen : att.ended = none)
    (howner : n.owner i = some (d, k)) (x : ℕ) :
    (n.afterEnd a' t i att o).SettledByStop x ↔ n.SettledByStop x ∨
      x = d ∧ ∃ e, o = .threw (.nonRetryable e) ∧ e.isEmergencyStop = true := by
  constructor
  · rintro ⟨j, kk, a, e, hj, hended, he⟩
    rcases owns_afterEnd hattempts hj with ⟨rfl, rfl⟩ | ⟨-, hold⟩
    · obtain ⟨rfl, -⟩ := Prod.mk.inj (Option.some.inj (howner.symm.trans hj.1))
      exact .inr ⟨rfl, e, Option.some.inj hended, he⟩
    · exact .inl ⟨j, kk, a, e, hold, hended, he⟩
  · rintro (⟨j, kk, a, e, hj, hended, he⟩ | ⟨rfl, e, rfl, he⟩)
    · have hji : j ≠ i := by
        rintro rfl
        obtain rfl := Option.some.inj (hatt.symm.trans hj.2)
        exact absurd (hopen.symm.trans hended) (by simp)
      refine ⟨j, kk, a, e, ⟨hj.1, ?_⟩, hended, he⟩
      show (if j = i then _ else t.attempts j) = some a
      rw [if_neg hji, hattempts]
      exact hj.2
    · exact ⟨i, k, _, e, ⟨howner, if_pos rfl⟩, rfl, he⟩

/-- The end of an attempt reports the stop of its send, or none. -/
theorem settled_told (hw : Wired n) {i d k : ℕ} {out : HandlerOutcome} {att : Attempt}
    {del del' : Delivery} {a' : Actor} {res : AgentStatePublisher × Outcome}
    (hreports : AgentStatePublisher.Reports cfg.publisher n.publisher att out res)
    (hattempts : res.1.attempts = n.publisher.attempts)
    (hatt : n.publisher.attempts i = some att) (hopen : att.ended = none)
    (howner : n.owner i = some (d, k)) (hdel : n.actor.deliveries d = some del)
    (hr : (del.stage = .running k none ∧ del' = del.goto (.running k (some res.2))) ∨
      (del.stage ≠ .running k none ∧ del' = del)) (hsets : n.actor.Sets d del' a')
    (hmarks : n.MarksInStep (.settles i out)) :
    Quiet n (n.afterEnd a' res.1 i att res.2) ∨
      Told cfg n (n.afterEnd a' res.1 i att res.2) d del.payload := by
  have hover := over_settled hdel hr hsets
  have hsettled := fun x =>
    settledByStop_afterEnd a' res.2 hattempts hatt hopen howner x
  have hpayload : del'.payload = del.payload := by
    rcases hr with ⟨-, rfl⟩ | ⟨-, rfl⟩ <;> rfl
  rcases hreports with ⟨t, e, hsilent, hthrows, he, rfl⟩ | ⟨hsilent, hnot⟩
  · obtain ⟨hmarked, hhalting⟩ := hmarks d k att del ⟨howner, hatt⟩ hdel hthrows
    have htask : att.payload = del.payload := by
      obtain ⟨x, j, old, howner', hold, hp⟩ := hw.owned i att hatt
      obtain ⟨rfl, -⟩ := Prod.mk.inj (Option.some.inj (howner.symm.trans howner'))
      exact Option.some.inj (hold.symm.trans hdel) ▸ hp
    rw [htask] at hmarked hattempts hsettled ⊢
    refine .inr ⟨told_cards hsilent hmarked, fun x => ?_, del, del', hdel, hsets, rfl, hpayload, ?_⟩
    · refine (or_congr (hover x) (hsettled x)).trans ?_
      rw [← or_assoc]
      exact or_congr Iff.rfl ⟨And.left, fun hx => ⟨hx, e, rfl, he⟩⟩
    · rcases hr with ⟨hrun, rfl⟩ | ⟨hne, rfl⟩
      · exact ⟨he, by simp⟩
      · refine hhalting.resolve_left fun haborted => ?_
        exact hne (hw.racing d i k att del' ⟨howner, hatt⟩ hopen haborted hdel)
  · refine .inl ⟨hsilent.cards, hover, fun x => (hsettled x).trans ⟨?_, .inl⟩,
      kept_sets hdel hsets hpayload fun _ h => ?_⟩
    · rintro (h | ⟨-, e, he, hstop⟩)
      · exact h
      · exact absurd ((hnot e he).symm.trans hstop) (by simp)
    · rcases hr with ⟨hrun, rfl⟩ | ⟨-, rfl⟩
      · exact absurd h.1 (by simp [hrun, Stage.Stopping])
      · exact h

/-- **A step reports no stop, or the stop of the send it is about.** -/
theorem quiet_or_told {e : NodeEvent} (hw : Wired n) (hmarks : n.MarksInStep e)
    (hstep : n.step cfg e = some n') :
    Quiet n n' ∨ ∃ d p, n.sendOf e = some d ∧ Told cfg n n' d p := by
  have hcards : ∀ d, e = .act d .start → n'.publisher.stoppedCards = n.publisher.stoppedCards := by
    intro d he
    rw [he] at hstep
    exact stoppedCards_start hstep
  cases step_move hstep with
  | arrived d p b a' hnone hsets => exact .inl (quiet_arrived hnone hsets)
  | reacted d a del del' a' hdel hr hrace hstop hsets =>
      exact .inl (quiet_reacted hdel hr hstop hsets hmarks)
  | invoked d k del title t ended a' hdel hs htitle hcases hatt hseq hold hspares hsets =>
      refine .inl ⟨hcards d rfl, over_sets hdel hsets fun ending _ => ?_,
        settledByStop_invoked hw hcases hatt hold, kept_sets hdel hsets rfl fun _ h => ?_⟩
      · rw [hs]
        simp
      · exact absurd h.1 (by simp [hs, Stage.Stopping])
  | untitled d k del a' hdel hs htitle hsets =>
      refine .inl (quiet_sets hdel hsets rfl (fun ending _ => ?_) fun _ h => ?_)
      · rw [hs]
        simp
      · exact absurd h.1 (by simp [hs, Stage.Stopping])
  | aborted e owns reason a' hdel => exact .inl (quiet_aborted hdel)
  | settled i d k out att del del' a' hatt hended howner hdel hr hsets =>
      have hattempts :=
        (AgentStatePublisher.Publishes.settled cfg.publisher n.publisher i att out).attempts
      rcases settled_told hw (AgentStatePublisher.settled_reports cfg.publisher n.publisher i att
        out) hattempts hatt hended howner hdel hr hsets hmarks with hquiet | htold
      · exact .inl hquiet
      · refine .inr ⟨d, del.payload, ?_, htold⟩
        exact congrArg (Option.map Prod.fst) howner
  | stopped d del ending a' hdel hs hstop hsets =>
      exact .inr ⟨d, del.payload, rfl, told_stopped hdel hs hstop hsets hmarks⟩
  | announced e row s hs =>
      refine .inl ⟨?_, fun _ => Iff.rfl, fun d => ?_, fun d del hd => ⟨del, hd, rfl, fun _ h => h⟩⟩
      · have hsilent : Silent n.publisher s := by
          rcases hs with rfl | rfl
          · exact .refl _
          · exact .idle _ none
        exact (hsilent.trans (.publish s (by simp))).cards
      · have hattempts : s.attempts = n.publisher.attempts := by
          rcases hs with rfl | rfl <;> rfl
        unfold SettledByStop Owns
        show (∃ i k att e, (_ ∧ s.attempts i = some att) ∧ _) ↔ _
        rw [hattempts]

/-! ### Runs -/

/-- What the ledger shows of each send. -/
structure Accounted (cfg : AgentNodeConfig) (l : Ledger) : Prop where
  halting : ∀ d, l.node.Reported d → ∃ del, l.node.actor.deliveries d = some del ∧
    del.stage.Halting
  one : ∀ d del, l.node.actor.deliveries d = some del → l.node.Reported d →
    ∃ title, taskTitle del.payload = some title ∧ l.cardsOf d
      = [AgentStatePublisher.taskCard cfg.publisher del.payload.taskId title .stopped]
  none_ : ∀ d, ¬ l.node.Reported d → l.cardsOf d = []
  sent : ∀ send card, (send, card) ∈ l.cards → ∃ d, send = some d

theorem accounted_init : Accounted cfg .init where
  halting d h := by
    rcases h with ⟨del, ending, hdel, -⟩ | ⟨i, k, att, e, hi, -⟩
    · exact absurd hdel (by simp [Ledger.init, init, Actor.init])
    · exact absurd hi.1 (by simp [Ledger.init, init])
  one d del hdel := absurd hdel (by simp [Ledger.init, init, Actor.init])
  none_ _ _ := rfl
  sent send card h := absurd h (by simp [Ledger.init])

theorem cardsOf_append (n : AgentNode) (cards : List (Option ℕ × TaskCard)) (send : Option ℕ)
    (new : List TaskCard) (hist : List Happening) (d : ℕ) :
    Ledger.cardsOf ⟨n, cards ++ new.map fun card => (send, card), hist⟩ d
      = Ledger.cardsOf ⟨n, cards, hist⟩ d ++ if send = some d then new else [] := by
  unfold Ledger.cardsOf
  rw [List.filterMap_append, List.filterMap_map]
  congr 1
  split
  · rename_i hsend
    induction new with
    | nil => rfl
    | cons card rest ih => simp [hsend]
  · rename_i hsend
    rw [List.filterMap_eq_nil_iff]
    intro card _
    exact if_neg hsend

/-- **An accounted ledger reports each stop once.** -/
theorem Accounted.reportedOnce {l : Ledger} (h : Accounted cfg l) : ReportedOnce cfg l where
  stopped d del ending hdel hs hstop := h.one d del hdel (.inl ⟨del, ending, hdel, hs, hstop⟩)
  others send card hmem := by
    obtain ⟨d, rfl⟩ := h.sent send card hmem
    by_cases hreported : l.node.Reported d
    · obtain ⟨del, hdel, hhalting⟩ := h.halting d hreported
      exact ⟨d, del, rfl, hdel, hhalting⟩
    · have hcard : card ∈ l.cardsOf d := by
        unfold Ledger.cardsOf
        exact List.mem_filterMap.mpr ⟨(some d, card), hmem, if_pos rfl⟩
      rw [h.none_ d hreported] at hcard
      exact absurd hcard List.not_mem_nil

theorem Accounted.quiet {l : Ledger} (h : Accounted cfg l) (hq : Quiet l.node n')
    (send : Option ℕ) (hist : List Happening) :
    Accounted cfg
      ⟨n', l.cards ++ (Ledger.newCards l.node n').map fun card => (send, card), hist⟩ := by
  have hnew : Ledger.newCards l.node n' = [] := by
    unfold Ledger.newCards
    rw [hq.cards, List.drop_length]
  have hreported : ∀ d, n'.Reported d ↔ l.node.Reported d := fun d =>
    or_congr (hq.ended d) (hq.settled d)
  rw [hnew, List.map_nil, List.append_nil]
  refine ⟨fun d hd => ?_, fun d del' hdel' hd => ?_, fun d hd => ?_, h.sent⟩
  · obtain ⟨del, hdel, hhalting⟩ := h.halting d ((hreported d).mp hd)
    obtain ⟨del', hdel', -, hkept⟩ := hq.kept d del hdel
    exact ⟨del', hdel', hkept ((hreported d).mp hd) hhalting⟩
  · obtain ⟨del, hdel, -⟩ := h.halting d ((hreported d).mp hd)
    obtain ⟨new, hnew, hpayload, -⟩ := hq.kept d del hdel
    obtain rfl : new = del' := Option.some.inj (hnew.symm.trans hdel')
    rw [hpayload]
    exact h.one d del hdel ((hreported d).mp hd)
  · exact h.none_ d fun hr => hd ((hreported d).mpr hr)

theorem Accounted.told {l : Ledger} {d : ℕ} {p : Payload} (h : Accounted cfg l)
    (ht : Told cfg l.node n' d p) (hist : List Happening) :
    Accounted cfg
      ⟨n', l.cards ++ (Ledger.newCards l.node n').map fun card => (some d, card), hist⟩ := by
  obtain ⟨del, del', hdel, hsets, hp, hp', hhalting⟩ := ht.changed
  have hcardsOf := fun x =>
    cardsOf_append n' l.cards (some d) (Ledger.newCards l.node n') hist x
  -- The cards of the send are those it has, or the one that is new.
  have hone : ∃ title, taskTitle p = some title ∧
      l.cardsOf d ++ Ledger.newCards l.node n'
        = [AgentStatePublisher.taskCard cfg.publisher p.taskId title .stopped] := by
    unfold Ledger.newCards
    rcases ht.cards with ⟨hr, heq⟩ | ⟨hr, title, htitle, heq⟩
    · rw [heq, List.drop_length, List.append_nil]
      exact hp ▸ h.one d del hdel hr
    · rw [heq, List.drop_left, h.none_ d hr]
      exact ⟨title, htitle, rfl⟩
  have hother : ∀ x, x ≠ d → Ledger.cardsOf ⟨n', l.cards ++ (Ledger.newCards l.node n').map
      fun card => (some d, card), hist⟩ x = l.cardsOf x := by
    intro x hxd
    rw [hcardsOf, if_neg (fun hd => hxd (Option.some.inj hd).symm), List.append_nil]
    rfl
  refine ⟨fun x hx => ?_, fun x new hnew hx => ?_, fun x hx => ?_, fun send card hmem => ?_⟩
  · by_cases hxd : x = d
    · subst hxd
      exact ⟨del', hsets.1, hhalting⟩
    · obtain ⟨old, hold, hh⟩ := h.halting x (((ht.reported x).mp hx).resolve_right hxd)
      exact ⟨old, (hsets.2 x hxd).trans hold, hh⟩
  · by_cases hxd : x = d
    · subst hxd
      obtain rfl := Option.some.inj (hsets.1.symm.trans hnew)
      rw [hcardsOf, if_pos rfl, hp']
      exact hone
    · rw [hother x hxd]
      exact h.one x new ((hsets.2 x hxd).symm.trans hnew)
        (((ht.reported x).mp hx).resolve_right hxd)
  · have hxd : x ≠ d := fun hxd => hx ((ht.reported x).mpr (.inr hxd))
    rw [hother x hxd]
    exact h.none_ x fun hr => hx ((ht.reported x).mpr (.inl hr))
  · rcases List.mem_append.mp hmem with hold | hnew
    · exact h.sent send card hold
    · obtain ⟨c, -, heq⟩ := List.mem_map.mp hnew
      exact ⟨d, (Prod.mk.inj heq).1.symm⟩

theorem accounted_step {l l' : Ledger} {e : NodeEvent} (hw : Wired l.node)
    (h : Accounted cfg l) (hmarks : l.node.MarksInStep e)
    (hstep : Ledger.step cfg l e = some l') : Wired l'.node ∧ Accounted cfg l' := by
  obtain ⟨n', hn', rfl⟩ := Option.map_eq_some_iff.mp hstep
  refine ⟨wired_step hw hn', ?_⟩
  rcases quiet_or_told hw hmarks hn' with hquiet | ⟨d, p, hsend, htold⟩
  · exact h.quiet hquiet _ _
  · rw [hsend]
    exact h.told htold _

/-- **Each stop is reported once**, in every state of a run in which every report comes in its
turn. -/
theorem stops_reported_once {es : List NodeEvent} {l : Ledger}
    (hturn : Steps.Along (Ledger.step cfg) Ledger.ReportsInTurn .init es)
    (hrun : Steps.run (Ledger.step cfg) .init es = some l) : ReportedOnce cfg l := by
  have hall : Wired l.node ∧ Accounted cfg l ∧ MarksFollow l := by
    refine Steps.run_invariant (C := Ledger.ReportsInTurn)
      (P := fun l => Wired l.node ∧ Accounted cfg l ∧ MarksFollow l) ?_
      ⟨wired_init, accounted_init, rfl⟩ hturn hrun
    rintro l e l' ⟨hw, h, hmarks⟩ hin hstep
    obtain ⟨hw', h'⟩ := accounted_step hw h (hmarks.inStep hin) hstep
    exact ⟨hw', h', hmarks.step hstep⟩
  exact hall.2.1.reportedOnce

/-! ### Two runs -/

theorem stops_reported_once_deaf :
    ∃ l, Steps.run (Ledger.step plainNode) .init deafToStop = some l ∧
      ReportedOnce plainNode l := by
  obtain ⟨l, hrun⟩ : ∃ l, Steps.run (Ledger.step plainNode) .init deafToStop = some l := ⟨_, rfl⟩
  refine ⟨l, hrun, stops_reported_once ?_ hrun⟩
  refine ⟨trivial, fun l1 h1 => ⟨trivial, fun l2 h2 => ⟨trivial, fun l3 h3 => ⟨trivial,
    fun l4 h4 => ⟨?_, fun l5 h5 => ⟨?_, fun _ _ => trivial⟩⟩⟩⟩⟩⟩
  · obtain rfl := Option.some.inj h1
    obtain rfl := Option.some.inj h2
    obtain rfl := Option.some.inj h3
    obtain rfl := Option.some.inj h4
    intro del ending hdel hs hstop
    obtain rfl := Option.some.inj hdel
    refine ⟨@inTurn_untold [.begun (js "task-1")] _ _ ?_ fun x => by simp, fun _ => rfl⟩
    rintro (⟨del, ending', hover, hended, -⟩ | ⟨i, k, att, e, hi, hended, -⟩)
    · obtain rfl := Option.some.inj hover
      have hstage : Stage.recording (.rejected emergencyStopError) = .ended ending' := hended
      exact absurd hstage (by simp)
    · have howner : (if i = 1 then some (0, 1) else none) = some (0, k) := hi.1
      obtain rfl : i = 1 := by
        by_contra hne
        exact absurd ((if_neg hne).symm.trans howner) (by simp)
      obtain rfl := Option.some.inj hi.2
      have hnone : (none : Option Outcome) = some (.threw (.nonRetryable e)) := hended
      exact absurd hnone (by simp)
  · obtain rfl := Option.some.inj h1
    obtain rfl := Option.some.inj h2
    obtain rfl := Option.some.inj h3
    obtain rfl := Option.some.inj h4
    obtain rfl := Option.some.inj h5
    intro d k att del hi hdel _
    obtain ⟨rfl, -⟩ := Prod.mk.inj (Option.some.inj hi.1)
    obtain rfl := Option.some.inj hi.2
    obtain rfl := Option.some.inj hdel
    refine ⟨⟨@inTurn_told [.begun (js "task-1")] _ _ (fun after => ?_) 0
      (.inl ⟨_, _, rfl, rfl, rfl⟩), fun _ => rfl⟩, .inr ⟨.inl rfl, by simp⟩⟩
    exact not_outstanding_untold fun x => by simp

/-- The send is over by a stop, and has no card. -/
def Ledger.unreported (l : Ledger) (d : ℕ) : Bool :=
  (l.cardsOf d).isEmpty && (l.node.actor.deliveries d).any fun del =>
    match del.stage with
    | .ended ending => ending.isStop
    | _ => false

theorem ReportedOnce.not_unreported {l : Ledger} (h : ReportedOnce cfg l) (d : ℕ) :
    l.unreported d = false := by
  rw [Bool.eq_false_iff]
  intro hd
  unfold Ledger.unreported at hd
  rw [Bool.and_eq_true, List.isEmpty_iff, Option.any_eq_true] at hd
  obtain ⟨hnone, del, hdel, hstage⟩ := hd
  split at hstage
  · rename_i ending hs
    obtain ⟨title, -, hone⟩ := h.stopped d del ending hdel hs hstage
    rw [hnone] at hone
    exact absurd hone (by simp)
  · exact absurd hstage (by simp)

/-- The task is sent again and stopped again, before an attempt of it begins. -/
def resentAndRefused : List NodeEvent :=
  [.deliver 0 Actor.plainTask false, .act 0 .start, .emergencyStop 0, .act 0 .resume,
    .act 0 (.published (.ok ())), .emergencyStop (.ofInt 2),
    .deliver 1 { Actor.plainTask with timestamp := .finite (.ofInt 1) } false,
    .act 1 (.published (.ok ()))]

/-- The second stop has no card. -/
theorem second_stop_unreported :
    ¬ ∀ (cfg : AgentNodeConfig) (es : List NodeEvent) (l : Ledger), es.length < 1000 →
      Steps.run (Ledger.step cfg) .init es = some l → ReportedOnce cfg l := by
  intro h
  have hunreported : (Steps.run (Ledger.step plainNode) .init resentAndRefused).any
      (fun l => l.unreported 1) = true := by decide +kernel
  obtain ⟨l, hrun, hl⟩ := (Option.any_eq_true _ _).mp hunreported
  have honce := h plainNode resentAndRefused l (by decide) hrun
  exact absurd ((honce.not_unreported 1).symm.trans hl) (by simp)

end AgentNode

end Kaiban
