/-
The control plane a gateway shows does not depend on the order of its messages.

Acknowledgements come over the state channel and the commands themselves over the control
channel, so those of several stops interleave in any way.  The first message of a stop
that is newer than the last one replaces it and clears the count.  No acknowledgement of
the new stop is lost by that, for none can have come before: it would have replaced the
last stop itself.

What is left is a function of the messages as a multiset, and a board that gets the
snapshot and the broadcasts shows the same, since it merges one message as the gateway does.
-/
import Kaiban.StopAcks
import Kaiban.Proofs.Board
import Mathlib.Data.Multiset.Count

open JsString

namespace Kaiban

/-- What a gateway hears of emergency stops: an acknowledgement on the state channel or a
command on the control channel. -/
inductive StopMessage where
  | ack (a : SentAck)
  | note (cmd : LastStop)

namespace StopMessage

/-- The command a message is about. -/
def stop : StopMessage → LastStop
  | ack a => a.toLastStop
  | note cmd => cmd

/-- The acknowledgement of a node, applied or not. -/
def isNodeAck : StopMessage → Bool
  | ack a => a.outcome ≠ .issued
  | note _ => false

def event : StopMessage → GatewayEvent
  | ack a => .delta ⟨none, none, none, none, none, some a.toControlAck, none⟩
  | note cmd => .noteStop cmd

/-- The messages of one command agree on its fields, and no two commands have one moment. -/
structure Agree (ms : Multiset StopMessage) : Prop where
  sameId : ∀ x ∈ ms, ∀ y ∈ ms, x.stop.commandId = y.stop.commandId → x.stop = y.stop
  sameMoment : ∀ x ∈ ms, ∀ y ∈ ms, x.stop.issuedAt = y.stop.issuedAt → x.stop = y.stop

/-- The message is a node's acknowledgement of the last stop of a control plane. -/
def Counts (plane : ControlPlane) (x : StopMessage) : Prop :=
  x.isNodeAck = true ∧ some x.stop.commandId = plane.lastStop.map LastStop.commandId

instance (plane : ControlPlane) : DecidablePred (Counts plane) :=
  fun _ => inferInstanceAs (Decidable (_ ∧ _))

/-- What counts depends on the last stop alone. -/
theorem counts_congr {p q : ControlPlane} (h : p.lastStop = q.lastStop) : Counts p = Counts q := by
  funext x
  unfold Counts
  rw [h]

end StopMessage

open StopMessage

/-- The control plane some messages stand for: the newest stop among them, and how many
nodes acknowledged it. -/
structure Shows (ms : Multiset StopMessage) (plane : ControlPlane) : Prop where
  seen : ∀ last, plane.lastStop = some last → ∃ x ∈ ms, x.stop = last
  newest : ∀ x ∈ ms, ∃ last, plane.lastStop = some last ∧ x.stop.issuedAt ≤ last.issuedAt
  acks : plane.acks = ms.countP (Counts plane)

/-! ### One message -/

/-- What one message makes of the control plane. -/
def nextPlane (plane : ControlPlane) (x : StopMessage) : ControlPlane :=
  let plane := StateSnapshot.latestStop plane x.stop
  if Counts plane x then { plane with acks := plane.acks + 1 } else plane

theorem latestStop_cases (plane : ControlPlane) (stop : LastStop) :
    ((∀ last, plane.lastStop = some last → last.issuedAt < stop.issuedAt) ∧
      StateSnapshot.latestStop plane stop = ⟨some stop, 0⟩) ∨
    ∃ last, plane.lastStop = some last ∧ stop.issuedAt ≤ last.issuedAt ∧
      StateSnapshot.latestStop plane stop = plane := by
  unfold StateSnapshot.latestStop
  cases hlast : plane.lastStop with
  | none => exact .inl ⟨fun _ h => absurd h (by simp), rfl⟩
  | some last =>
      by_cases hlt : last.issuedAt < stop.issuedAt
      · refine .inl ⟨fun l hl => Option.some.inj hl ▸ hlt, ?_⟩
        simp only
        rw [if_pos hlt]
      · refine .inr ⟨last, rfl, not_lt.mp hlt, ?_⟩
        simp only
        rw [if_neg hlt]

/-- The gateway's control plane after one message. -/
theorem step_controlPlane {s : StateSnapshot} {plane : ControlPlane}
    (hs : s.controlPlane = some plane) (x : StopMessage) :
    (s.step x.event).1.controlPlane = some (nextPlane plane x) := by
  cases x with
  | ack a =>
      show (StateSnapshot.applyControl s _).controlPlane = _
      unfold StateSnapshot.applyControl
      rw [hs]
      show some (StateSnapshot.applyAck plane a.toControlAck) = _
      unfold StateSnapshot.applyAck nextPlane Counts
      simp only [StopMessage.stop, isNodeAck, StateSnapshot.stopOfAck, decide_eq_true_eq, and_comm]
  | note cmd =>
      have hcount : ∀ p, ¬ Counts p (.note cmd) := fun p h => absurd h.1 (by simp [isNodeAck])
      show (s.noteStop cmd).1.controlPlane = _
      unfold StateSnapshot.noteStop nextPlane
      rw [hs]
      simp only [if_neg (hcount _)]
      rcases latestStop_cases plane cmd with ⟨hnewer, heq⟩ | ⟨last, hlast, hle, heq⟩
      · rw [show StopMessage.stop (.note cmd) = cmd from rfl, heq, if_neg]
        · rfl
        · cases hlast : plane.lastStop with
          | none => simp
          | some last => simpa using hnewer last hlast
      · rw [show StopMessage.stop (.note cmd) = cmd from rfl, heq, if_pos, hs]
        simpa [hlast] using hle

/-- A board that shows the gateway's control plane, and gets what the gateway broadcasts,
shows the next one. -/
theorem board_controlPlane {s : StateSnapshot} {plane : ControlPlane} {b : Board}
    (hs : s.controlPlane = some plane) (hb : b.controlPlane = some plane) (x : StopMessage) :
    ((s.step x.event).2.toList.foldl Board.applyDelta b).controlPlane
      = some (nextPlane plane x) := by
  rw [← step_controlPlane hs x]
  cases x with
  | ack a =>
      let d : StateDelta := ⟨none, none, none, none, none, some a.toControlAck, none⟩
      show Board.applyControl b.controlPlane d = (StateSnapshot.applyControl s d).controlPlane
      unfold Board.applyControl StateSnapshot.applyControl
      rw [hs, hb]
      exact congrArg some (applyControlAck_eq a.reason_sent plane)
  | note cmd =>
      show ((s.noteStop cmd).2.toList.foldl Board.applyDelta b).controlPlane
        = (s.noteStop cmd).1.controlPlane
      unfold StateSnapshot.noteStop
      rw [hs]
      simp only
      split
      · rw [hs]
        exact hb
      · rfl

/-! ### All messages -/

/-- **One more message: what is shown stands for the messages with it.** -/
theorem Shows.next {ms : Multiset StopMessage} {plane : ControlPlane} {x : StopMessage}
    (hagree : Agree (x ::ₘ ms)) (h : Shows ms plane) : Shows (x ::ₘ ms) (nextPlane plane x) := by
  have hmem : ∀ {y}, y ∈ ms → y ∈ x ::ₘ ms := fun hy => Multiset.mem_cons_of_mem hy
  have hself : x ∈ x ::ₘ ms := Multiset.mem_cons_self x ms
  -- the count of the new plane is the count over all messages, once it is over the old ones
  have hcount : ∀ p : ControlPlane, p.acks = ms.countP (Counts p) →
      (if Counts p x then { p with acks := p.acks + 1 } else p).acks
        = (x ::ₘ ms).countP (Counts p) := by
    intro p hp
    by_cases hx : Counts p x
    · rw [if_pos hx, Multiset.countP_cons_of_pos _ hx, hp]
    · rw [if_neg hx, Multiset.countP_cons_of_neg _ hx, hp]
  have hlast : (nextPlane plane x).lastStop
      = (StateSnapshot.latestStop plane x.stop).lastStop := by
    unfold nextPlane
    dsimp only
    split <;> rfl
  have hacks : ∀ p, StateSnapshot.latestStop plane x.stop = p → p.acks = ms.countP (Counts p) →
      (nextPlane plane x).acks = (x ::ₘ ms).countP (Counts (nextPlane plane x)) := by
    intro p hp hpcount
    simp only [counts_congr (hlast.trans (congrArg ControlPlane.lastStop hp))]
    rw [← hcount p hpcount]
    unfold nextPlane
    rw [hp]
  rcases latestStop_cases plane x.stop with ⟨hnewer, heq⟩ | ⟨last, hl, hle, heq⟩
  · refine ⟨fun last hlast' => ?_, fun y hy => ⟨x.stop, by rw [hlast, heq], ?_⟩, hacks _ heq ?_⟩
    · rw [hlast, heq] at hlast'
      exact ⟨x, hself, Option.some.inj hlast'⟩
    · rcases Multiset.mem_cons.mp hy with rfl | hy
      · exact le_rfl
      · obtain ⟨last, hl, hle⟩ := h.newest y hy
        exact hle.trans (hnewer last hl).le
    · -- no acknowledgement of a stop can have come before its first message
      refine (Multiset.countP_eq_zero.mpr fun y hy hcounts => ?_).symm
      have hsame : y.stop = x.stop :=
        hagree.sameId y (hmem hy) x hself (Option.some.inj hcounts.2)
      obtain ⟨last, hl, hle⟩ := h.newest y hy
      rw [hsame] at hle
      exact absurd (hnewer last hl) (not_lt.mpr hle)
  · refine ⟨fun last' hlast' => ?_, fun y hy => ⟨last, by rw [hlast, heq, hl], ?_⟩,
      hacks plane heq h.acks⟩
    · rw [hlast, heq] at hlast'
      obtain ⟨y, hy, hstop⟩ := h.seen last' hlast'
      exact ⟨y, hmem hy, hstop⟩
    · rcases Multiset.mem_cons.mp hy with rfl | hy
      · exact hle
      · obtain ⟨last', hl', hle'⟩ := h.newest y hy
        obtain rfl := Option.some.inj (hl.symm.trans hl')
        exact hle'

theorem StopMessage.Agree.mono {ms ns : Multiset StopMessage} (h : Agree ms) (hle : ns ≤ ms) :
    Agree ns :=
  ⟨fun x hx y hy => h.sameId x (Multiset.mem_of_le hle hx) y (Multiset.mem_of_le hle hy),
    fun x hx y hy => h.sameMoment x (Multiset.mem_of_le hle hx) y (Multiset.mem_of_le hle hy)⟩

theorem shows_run {es : List StopMessage} :
    ∀ {past : Multiset StopMessage} {s : StateSnapshot} {plane : ControlPlane} {b : Board},
      Agree (past + es) → Shows past plane → s.controlPlane = some plane →
      b.controlPlane = some plane →
      ∃ plane', Shows (past + es) plane' ∧
        (s.after (es.map event)).controlPlane = some plane' ∧
        ((s.broadcasts (es.map event)).foldl Board.applyDelta b).controlPlane = some plane' := by
  induction es with
  | nil =>
      intro past s plane b _ hshows hs hb
      exact ⟨plane, by simpa using hshows, hs, hb⟩
  | cons x rest ih =>
      intro past s plane b hagree hshows hs hb
      have hsplit : past + (x :: rest : List StopMessage) = x ::ₘ past + rest := by
        rw [← Multiset.cons_coe, Multiset.add_cons, Multiset.cons_add]
      rw [hsplit] at hagree ⊢
      have hnext := hshows.next (hagree.mono (Multiset.le_add_right _ _))
      obtain ⟨plane', hshows', hs', hb'⟩ :=
        ih hagree hnext (step_controlPlane hs x) (board_controlPlane hs hb x)
      refine ⟨plane', hshows', hs', ?_⟩
      have hbroadcasts : s.broadcasts ((x :: rest).map event)
          = (s.step x.event).2.toList ++ (s.step x.event).1.broadcasts (rest.map event) := rfl
      rw [hbroadcasts, List.foldl_append]
      exact hb'

theorem shows_empty : Shows 0 ⟨none, 0⟩ :=
  ⟨fun _ h => absurd h (by simp), fun _ h => absurd h (Multiset.notMem_zero _), rfl⟩

/-- Messages that agree stand for one control plane. -/
theorem Shows.unique {ms : Multiset StopMessage} (hagree : Agree ms) {p q : ControlPlane}
    (hp : Shows ms p) (hq : Shows ms q) : p = q := by
  have hone : ∀ {p q : ControlPlane}, Shows ms p → Shows ms q → ∀ last, p.lastStop = some last →
      q.lastStop = some last := by
    intro p q hp hq last hlast
    obtain ⟨x, hx, rfl⟩ := hp.seen last hlast
    obtain ⟨last', hlast', hle⟩ := hq.newest x hx
    obtain ⟨y, hy, rfl⟩ := hq.seen last' hlast'
    obtain ⟨last, hl, hge⟩ := hp.newest y hy
    rw [hlast, Option.some.injEq] at hl
    rw [hlast', hagree.sameMoment x hx y hy (le_antisymm hle (hl ▸ hge))]
  have hlast : p.lastStop = q.lastStop := Option.ext fun last =>
    ⟨hone hp hq last, hone hq hp last⟩
  have hacks : p.acks = q.acks := by
    rw [hp.acks, hq.acks]
    simp only [counts_congr hlast]
  cases p
  cases q
  exact congrArg₂ ControlPlane.mk hlast hacks

/-- **The control plane does not depend on the order of its messages.**  There is one
control plane for them, and in whatever order they arrive the gateway has it in the end,
and so does a board that got the gateway's first snapshot and its broadcasts. -/
theorem controlPlane_order_insensitive (ms : Multiset StopMessage) (hagree : Agree ms) :
    ∃ plane, Shows ms plane ∧ ∀ es : List StopMessage, (es : Multiset StopMessage) = ms →
      ((StateSnapshot.initial true).after (es.map event)).controlPlane = some plane ∧
      ∀ b : Board, (((StateSnapshot.initial true).broadcasts (es.map event)).foldl
        Board.applyDelta (b.applyDelta (StateSnapshot.initial true).buildSnapshot)).controlPlane
          = some plane := by
  have hrun : ∀ es : List StopMessage, (es : Multiset StopMessage) = ms → ∀ b : Board,
      ∃ plane, Shows ms plane ∧
        ((StateSnapshot.initial true).after (es.map event)).controlPlane = some plane ∧
        (((StateSnapshot.initial true).broadcasts (es.map event)).foldl
          Board.applyDelta (b.applyDelta (StateSnapshot.initial true).buildSnapshot)).controlPlane
            = some plane := by
    rintro es rfl b
    have hstart : (0 : Multiset StopMessage) + es = es := zero_add _
    obtain ⟨plane, hshows, hs, hb⟩ :=
      shows_run (hstart.symm ▸ hagree) shows_empty (s := StateSnapshot.initial true)
        (b := b.applyDelta (StateSnapshot.initial true).buildSnapshot) rfl rfl
    rw [hstart] at hshows
    exact ⟨plane, hshows, hs, hb⟩
  obtain ⟨es, hes⟩ : ∃ es : List StopMessage, (es : Multiset StopMessage) = ms :=
    ⟨ms.toList, Multiset.coe_toList ms⟩
  obtain ⟨plane, hshows, -, -⟩ := hrun es hes Board.initialState
  refine ⟨plane, hshows, fun fs hfs => ⟨?_, fun b => ?_⟩⟩
  · obtain ⟨plane', hshows', hs, -⟩ := hrun fs hfs Board.initialState
    rw [hs, hshows.unique hagree hshows']
  · obtain ⟨plane', hshows', -, hb⟩ := hrun fs hfs b
    rw [hb, hshows.unique hagree hshows']

def olderStop : LastStop := ⟨js "stop-1", .ofInt 1, js "operator", none⟩

def newerStop : LastStop := ⟨js "stop-2", .ofInt 2, js "operator", none⟩

/-- The acknowledgement of an earlier stop, and a later one with its own. -/
def twoStops : List StopMessage :=
  [.ack ⟨⟨olderStop, .noop⟩, by simp [olderStop]⟩, .note newerStop,
    .ack ⟨⟨newerStop, .applied⟩, by simp [newerStop]⟩]

theorem twoStops_agree : Agree twoStops := by
  have hids : olderStop.commandId ≠ newerStop.commandId := by decide
  have hmoments : olderStop.issuedAt ≠ newerStop.issuedAt := fun h =>
    absurd (Decimal.ofInt_injective h) (by decide)
  have hstops : ∀ x ∈ (twoStops : Multiset StopMessage),
      x.stop = olderStop ∨ x.stop = newerStop := by
    intro x hx
    simp only [twoStops, Multiset.mem_coe, List.mem_cons, List.not_mem_nil, or_false] at hx
    rcases hx with rfl | rfl | rfl
    · exact .inl rfl
    · exact .inr rfl
    · exact .inr rfl
  constructor
  · intro x hx y hy hid
    rcases hstops x hx with h | h <;> rcases hstops y hy with h' | h' <;> rw [h, h'] at hid ⊢
    · exact absurd hid hids
    · exact absurd hid.symm hids
  · intro x hx y hy hmoment
    rcases hstops x hx with h | h <;> rcases hstops y hy with h' | h' <;> rw [h, h'] at hmoment ⊢
    · exact absurd hmoment hmoments
    · exact absurd hmoment.symm hmoments

theorem controlPlane_order_insensitive_two :
    ∃ plane, Shows twoStops plane ∧
      ((StateSnapshot.initial true).after (twoStops.map event)).controlPlane = some plane ∧
      ((StateSnapshot.initial true).after (twoStops.reverse.map event)).controlPlane
        = some plane := by
  obtain ⟨plane, hshows, hall⟩ := controlPlane_order_insensitive twoStops twoStops_agree
  exact ⟨plane, hshows, (hall twoStops rfl).1,
    (hall twoStops.reverse (Multiset.coe_reverse twoStops)).1⟩

end Kaiban
