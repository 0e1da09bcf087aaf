/-
Stops and the start of a node.

`start()` waits for SUBSCRIBE before it reads the saved key, and the actor starts after
that read.  As long as the connection stays up, a stop that is published before SUBSCRIBE
was saved before the read, and one that is published after it reaches the connection.

The saved value is the latest command only where Redis's Lua can read it.  A text with a
lone surrogate is written as an escape that it rejects, and an earlier command is then
saved over it.
-/
import Kaiban.Proofs.Actor.EmergencyStop
import Kaiban.Proofs.Control.Stops

open JsString

namespace Kaiban.ControlSystem

variable {sg : Signing} {lua : Lua} {cfg : ActorConfig} {s s' : ControlSystem}

/-! ### A start that failed -/

/-- The start has failed, the actor has nothing, and no read will start it. -/
structure Refused (s : ControlSystem) : Prop where
  failed : s.phase = .failed
  quiet : ∀ d, s.actor.deliveries d = none
  reads : ∀ k r, s.reads k = some r → r.forStart = false

theorem Refused.deliverAny (h : Refused s) (cmd : Option StopAllCommand) :
    Refused (s.deliverAny cmd) := by
  cases cmd with
  | none => exact h
  | some cmd => exact ⟨h.failed, emergencyStop_quiet h.quiet _, h.reads⟩

theorem Refused.setRead (h : Refused s) {k : ℕ} {r : Option SavedRead}
    (hr : ∀ x, r = some x → x.forStart = false) : Refused (s.setRead k r) := by
  refine ⟨h.failed, h.quiet, fun x y hy => ?_⟩
  have hy' : (if x = k then r else s.reads x) = some y := hy
  by_cases hxk : x = k
  · rw [if_pos hxk] at hy'
    exact hr y hy'
  · rw [if_neg hxk] at hy'
    exact h.reads x y hy'

/-- A start that failed stays failed, and the actor gets nothing. -/
theorem refused_step {e : ControlEvent} (h : Refused s)
    (hstep : s.step sg lua cfg e = some s') : Refused s' := by
  have hphase : s.phase = .failed := h.failed
  cases moved hstep with
  | saved cmd => exact ⟨h.failed, h.quiet, h.reads⟩
  | published i ts cmd hi => exact ⟨h.failed, h.quiet, h.reads⟩
  | started hp => exact absurd (hphase.symm.trans hp) (by simp)
  | becameReady hp hc =>
      refine ⟨h.failed, h.quiet, fun k r hk => ?_⟩
      have hk' : (if k = s.readCount then some ⟨false, .sent⟩ else s.reads k) = some r := hk
      by_cases hnew : k = s.readCount
      · rw [if_pos hnew] at hk'
        rw [← Option.some.inj hk']
      · rw [if_neg hnew] at hk'
        exact h.reads k r hk'
  | subscribed hc => exact ⟨h.failed, h.quiet, h.reads⟩
  | confirmed hp hs => exact absurd (hphase.symm.trans hp) (by simp)
  | startFailed hp => exact absurd (hphase.symm.trans hp) (by simp)
  | redisRead k forStart hk =>
      have hnot : forStart = false := h.reads k _ hk
      exact h.setRead fun x hx => by rw [← Option.some.inj hx]; exact hnot
  | startReadFailed k hk => exact absurd (h.reads k _ hk) (by simp)
  | readFailed k hk => exact h.setRead fun x hx => by rw [← Option.some.inj hx]
  | retried k forStart hk =>
      have hnot : forStart = false := h.reads k _ hk
      exact h.setRead fun x hx => by rw [← Option.some.inj hx]; exact hnot
  | startReadReturned k value hk => exact absurd (h.reads k _ hk) (by simp)
  | readReturned k value hk => exact (h.setRead (by simp)).deliverAny _
  | message raw rest hi =>
      exact Refused.deliverAny (s := { s with inbox := rest }) ⟨h.failed, h.quiet, h.reads⟩ _
  | dropped => exact ⟨h.failed, h.quiet, h.reads⟩
  | ran hp => exact absurd (hphase.symm.trans hp) (by simp)
  | acted e a hp ha => exact absurd (hphase.symm.trans hp) (by simp)

/-! ### Subscribed before the read -/

/-- Once `start()` reads, the connection is subscribed. -/
def Listening (s : ControlSystem) : Prop :=
  (s.subscribed = true → s.connected = true) ∧
    (s.phase = .idle ∨ s.phase = .subscribing ∨ s.phase = .failed ∨ s.subscribed = true)

theorem Listening.deliverAny (h : Listening s) (cmd : Option StopAllCommand) :
    Listening (s.deliverAny cmd) := by
  obtain ⟨actor, delivered, hs⟩ := s.deliverAny_frame cmd
  rw [hs]
  exact h

/-- A connection that stays up stays subscribed. -/
theorem listening_step {e : ControlEvent} (hb : Books sg s) (h : Listening s) (he : e ≠ .drop)
    (hstep : s.step sg lua cfg e = some s') : Listening s' := by
  have hlate : (∃ k, s.phase = .reading k) ∨ s.phase = .attached → s.subscribed = true := by
    intro hp
    rcases h.2 with hi | hi | hi | hi
    · rcases hp with ⟨k, hp⟩ | hp <;> exact absurd (hi.symm.trans hp) (by simp)
    · rcases hp with ⟨k, hp⟩ | hp <;> exact absurd (hi.symm.trans hp) (by simp)
    · rcases hp with ⟨k, hp⟩ | hp <;> exact absurd (hi.symm.trans hp) (by simp)
    · exact hi
  cases moved hstep with
  | started hp => exact ⟨h.1, .inr (.inl rfl)⟩
  | becameReady hp hc => exact ⟨fun _ => rfl, h.2⟩
  | subscribed hc => exact ⟨fun _ => hc, .inr (.inr (.inr rfl))⟩
  | confirmed hp hs => exact ⟨h.1, .inr (.inr (.inr hs))⟩
  | startFailed hp => exact ⟨h.1, .inr (.inr (.inl rfl))⟩
  | startReadFailed k hk => exact ⟨h.1, .inr (.inr (.inl rfl))⟩
  | startReadReturned k value hk =>
      have hsub : s.subscribed = true := hlate (.inl ⟨k, hb.reading k _ hk rfl⟩)
      obtain ⟨actor, delivered, hs⟩ := (s.setRead k none).deliverAny_frame (readLastStop sg value)
      rw [hs]
      exact ⟨h.1, .inr (.inr (.inr hsub))⟩
  | readReturned k value hk =>
      have herased : Listening (s.setRead k none) := h
      exact herased.deliverAny _
  | message raw rest hi =>
      have hrest : Listening { s with inbox := rest } := h
      exact hrest.deliverAny _
  | dropped => exact absurd rfl he
  | ran hp => exact ⟨h.1, .inr (.inr (.inr (hlate (.inr hp))))⟩
  | _ => exact h

/-- A stop that is published reaches a connection that is subscribed, or the read of the
start is still to come. -/
theorem Listening.caught (h : Listening s) (e : ControlEvent) : Caught sg false s e := by
  cases e with
  | publish i ts =>
      intro cmd hi
      rcases h.2 with hp | hp | hp | hsub
      · exact .inr (.early (.inl hp))
      · exact .inr (.early (.inr (.inl hp)))
      · exact .inr (.early (.inr (.inr hp)))
      · exact .inl hsub
  | _ => trivial

/-! ### What a start guarantees -/

/-- No stop is missed at the start of a node. -/
structure NoneMissed (sg : Signing) (lua : Lua) (cfg : ActorConfig) (s : ControlSystem) :
    Prop where
  /-- A stop that was issued has stopped the actor once the start is done. -/
  stopped : s.phase = .attached ∨ s.phase = .running → s.inbox = [] → ∀ i issue,
    s.issues i = some issue → issue.published = true →
    StoppedSince (Decimal.ofInt issue.cmd.issuedAt) s.actor.signals
  /-- No task has run that was sent by a stop saved before the start began. -/
  ran : RanLater s.savesBefore s.actor
  latest : Latest sg s.saved s.saves
  /-- If the key cannot be read, the actor never starts. -/
  unread : ∀ k, s.reads k = some ⟨true, .sent⟩ → ∀ s' es t,
    s.step sg lua cfg (.readFails k) = some s' → Steps.run (step sg lua cfg) s' es = some t →
    Refused t

/-- What the steps of a start keep. -/
structure Starts (sg : Signing) (s : ControlSystem) : Prop where
  books : Books sg s
  node : Node sg s
  listening : Listening s
  covered : PublishedCovered sg false s

theorem starts_init : Starts sg init where
  books := books_init
  node := node_init
  listening := ⟨fun h => absurd h (by simp [init]), .inl rfl⟩
  covered := by simp [PublishedCovered, init]

theorem starts_step {e : ControlEvent} (h : Starts sg s) (he : Legible e ∧ e ≠ .drop)
    (hstep : s.step sg lua cfg e = some s') : Starts sg s' where
  books := books_step h.books he.1 hstep
  node := node_step h.books h.node hstep
  listening := listening_step h.books h.listening he.2 hstep
  covered := publishedCovered_step h.books h.covered (.inr he.2) (h.listening.caught e) hstep

/-- The start that could not read the key is refused for good. -/
theorem Starts.unread (h : Starts sg s) {k : ℕ} (hk : s.reads k = some ⟨true, .sent⟩)
    {es : List ControlEvent} {t : ControlSystem}
    (hstep : s.step sg lua cfg (.readFails k) = some s')
    (hrun : Steps.run (step sg lua cfg) s' es = some t) : Refused t := by
  have hphase : s.phase = .reading k := h.books.reading k _ hk rfl
  have hrefused : Refused s' := by
    cases moved hstep with
    | startReadFailed _ _ =>
        exact ⟨rfl, h.node.quiet (by simp [hphase]), h.books.noStart_erase hk rfl⟩
    | readFailed _ hother => exact absurd (hk.symm.trans hother) (by simp)
  exact Steps.invariant (fun s e s' hs hstep => refused_step hs hstep) hrefused hrun

/-- **No stop is missed at the start of a node**, as long as the texts of the saved
commands are Unicode. -/
theorem start_misses_none {es : List ControlEvent} (hstays : ∀ e ∈ es, e ≠ .drop)
    (htexts : ∀ e ∈ es, Legible e) (hrun : Steps.run (step sg lua cfg) init es = some s) :
    NoneMissed sg lua cfg s := by
  have h : Starts sg s := by
    have halong : Steps.Along (step sg lua cfg) (fun _ e => Legible e ∧ e ≠ .drop) init es :=
      Steps.along_of_mem es init fun e he => ⟨htexts e he, hstays e he⟩
    exact Steps.run_invariant (fun s e s' hp he hstep => starts_step hp he hstep) starts_init
      halong hrun
  refine ⟨fun hp hinbox i issue hi hpub => ?_, h.node.ran, h.books.latest,
    fun k hk s' es t hstep hrest => h.unread hk hstep hrest⟩
  cases h.covered i issue hi hpub with
  | delivered d hd hn => exact stoppedSince_mono (h.node.stopped d hd) (ofInt_mono hn)
  | message raw hraw d hd hn =>
      rw [hinbox] at hraw
      exact absurd hraw (by simp)
  | read k r hk hcounts hr =>
      have hstart : r.forStart = true := by simpa using hcounts
      have hphase := h.books.reading k r hk hstart
      rcases hp with hp | hp <;> exact absurd (hphase.symm.trans hp) (by simp)
  | early hearly => rcases hp with hp | hp <;> simp [hp] at hearly
  | down hcounts hconn => exact absurd hcounts (by simp)

/-! ### A stop that is issued after the start -/

/-- A node starts, and both of its reads find nothing. -/
def startEvents : List ControlEvent :=
  [.start, .ready, .subscribes, .confirmed, .redisReads 0, .readReturns 0, .redisReads 1,
    .readReturns 1]

/-- The connection is up and subscribed, and there is nothing to read or to receive. -/
structure Quiet (s : ControlSystem) : Prop where
  attached : s.phase = .attached
  connected : s.connected = true
  subscribed : s.subscribed = true
  handled : s.inbox = []
  reads : ∀ k, s.reads k = none
  issues : ∀ i, s.issues i = none
  issueCount : s.issueCount = 0
  saves : s.saves = []

theorem start_run :
    ∃ s, Steps.run (step fixedSigning strictLua Actor.plainConfig) init startEvents = some s ∧
      Quiet s := by
  refine ⟨_, rfl, rfl, rfl, rfl, rfl, fun k => ?_, fun i => rfl, rfl, rfl⟩
  show (if k = 1 then none else if k = 1 then _ else if k = 0 then none else if k = 0 then _
    else if k = 1 then _ else if k = 0 then _ else none) = none
  split_ifs <;> rfl

/-- The stop that is issued once the node is subscribed. -/
def lateStop : StopAllCommand := stopAt 1 (by decide)

theorem lateStop_unicode : lateStop.UnicodeTexts where
  commandId := unicode_of_small (js_small rfl)
  issuedBy := unicode_of_small (js_small rfl)
  reason := by simp [lateStop, stopAt]

/-- The stop is saved and published, and arrives. -/
def lateEvents : List ControlEvent := [.save lateStop, .publish 0 0, .message]

theorem Quiet.lateStop_run (h : Quiet s) :
    ∃ t, Steps.run (step fixedSigning strictLua Actor.plainConfig) s lateEvents = some t ∧
      t.phase = .attached ∧ t.connected = true ∧ t.subscribed = true ∧ t.inbox = [] ∧
      (∀ k, t.reads k = none) ∧ t.saves = [lateStop] ∧
      ∀ i, t.issues i = if i = 0 then some (Issue.mk lateStop true) else none := by
  let msg := publishedStop fixedSigning 0 lateStop
  let s1 := s.save fixedSigning strictLua lateStop
  let s2 := s1.publish fixedSigning 0 0 lateStop
  let s3 := ({ s2 with inbox := [] }).deliver lateStop
  have h2 : s1.step fixedSigning strictLua Actor.plainConfig (.publish 0 0) = some s2 := by
    have hissue : s1.issues 0 = some ⟨lateStop, false⟩ := if_pos h.issueCount.symm
    simp only [step, hissue]
    rfl
  have h3 : s2.step fixedSigning strictLua Actor.plainConfig .message = some s3 := by
    have hin : s2.inbox = [msg] := by
      show (if s.subscribed = true then s.inbox ++ [msg] else s.inbox) = [msg]
      rw [if_pos h.subscribed, h.handled]
      rfl
    simp only [step, hin]
    rw [show commandOfMessage fixedSigning msg = some lateStop from commandOfMessage_published 0 _]
    rfl
  refine ⟨s3, ?_, h.attached, h.connected, h.subscribed, rfl, h.reads, ?_, fun i => ?_⟩
  · exact Steps.run_cons_some.mpr ⟨s1, rfl, Steps.run_cons_some.mpr ⟨s2, h2,
      Steps.run_cons_some.mpr ⟨s3, h3, rfl⟩⟩⟩
  · show s.saves ++ [lateStop] = [lateStop]
    rw [h.saves]
    rfl
  · show (if i = 0 then some (Issue.mk lateStop true) else s1.issues i) = _
    by_cases h0 : i = 0
    · rw [if_pos h0, if_pos h0]
    · rw [if_neg h0, if_neg h0]
      show (if i = s.issueCount then _ else s.issues i) = none
      rw [if_neg (by rw [h.issueCount]; exact h0)]
      exact h.issues i

/-- A stop that is issued after the start stops the actor. -/
theorem start_misses_none_late :
    ∃ s, Steps.run (step fixedSigning strictLua Actor.plainConfig) init (startEvents ++ lateEvents)
        = some s ∧
      s.saves = [lateStop] ∧ StoppedSince (Decimal.ofInt lateStop.issuedAt) s.actor.signals := by
  obtain ⟨s, hstart, hquiet⟩ := start_run
  obtain ⟨t, hlate, hphase, -, -, hinbox, -, hsaves, hissues⟩ := hquiet.lateStop_run
  have hrun : Steps.run (step fixedSigning strictLua Actor.plainConfig) init
    (startEvents ++ lateEvents)
      = some t := Steps.run_append_some.mpr ⟨s, hstart, hlate⟩
  have hevents : ∀ e ∈ startEvents ++ lateEvents, Legible e ∧ e ≠ .drop := by
    intro e he
    simp only [startEvents, lateEvents, List.cons_append, List.nil_append, List.mem_cons,
      List.not_mem_nil, or_false] at he
    rcases he with rfl | rfl | rfl | rfl | rfl | rfl | rfl | rfl | rfl | rfl | rfl <;>
      exact ⟨by first | exact lateStop_unicode | trivial, by simp⟩
  have hnone : NoneMissed fixedSigning strictLua Actor.plainConfig t :=
    start_misses_none (fun e he => (hevents e he).2) (fun e he => (hevents e he).1) hrun
  have hissued := (hissues 0).trans (if_pos rfl)
  exact ⟨t, hrun, hsaves, hnone.stopped (.inl hphase) hinbox 0 _ hissued rfl⟩

/-! ### An earlier stop that is saved over a later one -/

/-- A stop with a lone surrogate in its reason, later than `lateStop`. -/
def tornStop : StopAllCommand where
  commandId := js "stop"
  issuedBy := js "operator"
  issuedAt := 2
  reason := some [⟨0xD800, by decide⟩]
  commandId_size := lateStop.commandId_size
  issuedBy_size := lateStop.issuedBy_size
  issuedAt_safe := by decide
  reason_size := by simp

theorem strictLua_tornStop :
    strictLua.decode (sealStopCommand fixedSigning tornStop) = none := by
  have hseal : sealStopCommand fixedSigning tornStop
      = Json.stringify (.obj (sealedMembers fixedSigning tornStop)) := if_neg (by decide)
  rw [hseal]
  unfold strictLua
  dsimp only
  rw [parse_sealed]
  rfl

/-- **An earlier stop is saved over a later one with a lone surrogate in its reason.** -/
theorem torn_stop_overwritten :
    ∃ s, Steps.run (step fixedSigning strictLua Actor.plainConfig) init
      [.save tornStop, .save lateStop]
        = some s ∧ ¬ Latest fixedSigning s.saved s.saves := by
  have hkeeps : keeps strictLua (sealStopCommand fixedSigning tornStop)
      (NumberText.numberText (Decimal.ofInt lateStop.issuedAt)) = false := by
    unfold keeps savedMoment
    rw [strictLua_tornStop]
  have hsaved : savedAfter fixedSigning strictLua (some (sealStopCommand fixedSigning tornStop))
      lateStop = sealStopCommand fixedSigning lateStop := by
    unfold savedAfter saveIfLater
    exact congrArg Prod.fst (if_neg (by simp [hkeeps]))
  refine ⟨_, rfl, ?_⟩
  intro h
  have h' : Latest fixedSigning (some (savedAfter fixedSigning strictLua
      (some (sealStopCommand fixedSigning tornStop)) lateStop)) [tornStop, lateStop] := h
  rw [hsaved] at h'
  rcases h' with ⟨hnil, -⟩ | ⟨c, hc, heq, hmax⟩
  · exact absurd hnil (by simp)
  · have hopen : openSavedStopCommand fixedSigning (sealStopCommand fixedSigning lateStop)
        = some c := by
      rw [Option.some.inj heq]
      exact openSavedStopCommand_seal c
    obtain rfl : lateStop = c :=
      Option.some.inj ((openSavedStopCommand_seal lateStop).symm.trans hopen)
    exact absurd (hmax tornStop (by simp)) (by decide)

end Kaiban.ControlSystem
