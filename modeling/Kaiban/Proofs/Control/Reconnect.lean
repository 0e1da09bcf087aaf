/-
Stops and reconnects.

When the subscriber connection is ready again, SUBSCRIBE and the read of the saved key go
out on two connections, and Redis may process the read first.  A stop that is saved after
that read and published before that SUBSCRIBE is neither read nor received.
-/
import Kaiban.Proofs.Control.Start

open JsString

namespace Kaiban.ControlSystem

variable {sg : Signing} {lua : Lua} {cfg : ActorConfig}

/-- What a step of a run must meet for no stop to be missed on a reconnect. -/
def Resubscribes (sg : Signing) (s : ControlSystem) (e : ControlEvent) : Prop :=
  Legible e ∧ Caught sg true s e

/-- The connection is up and subscribed, every read and every issue has finished, and what
was delivered has been handled. -/
structure Settled (s : ControlSystem) : Prop where
  attached : s.phase = .attached ∨ s.phase = .running
  connected : s.connected = true
  subscribed : s.subscribed = true
  handled : s.inbox = []
  reads : ∀ k, s.reads k = none
  published : ∀ i issue, s.issues i = some issue → issue.published = true

/-- **No stop is missed over reconnects**, as long as none is published between a
catch-up's read and the SUBSCRIBE of the same connection. -/
theorem latest_delivered {es : List ControlEvent} {s : ControlSystem}
    (hes : Steps.Along (step sg lua cfg) (Resubscribes sg) init es)
    (hrun : Steps.run (step sg lua cfg) init es = some s) (hs : Settled s) :
    ∀ c ∈ s.saves, ∃ d ∈ s.delivered, c.issuedAt ≤ d.issuedAt := by
  have hinv : Books sg s ∧ PublishedCovered sg true s := by
    refine Steps.run_invariant (P := fun s => Books sg s ∧ PublishedCovered sg true s)
      (fun s e s' hp he hstep => ?_) ⟨books_init, by simp [PublishedCovered, init]⟩ hes hrun
    exact ⟨books_step hp.1 he.1 hstep, publishedCovered_step hp.1 hp.2 (.inl rfl) he.2 hstep⟩
  intro c hc
  obtain ⟨i, issue, hi, rfl⟩ := hinv.1.listed c hc
  cases hinv.2 i issue hi (hs.published i issue hi) with
  | delivered d hd hn => exact ⟨d, hd, hn⟩
  | message raw hraw d hd hn =>
      rw [hs.handled] at hraw
      exact absurd hraw (by simp)
  | read k r hk hcounts hr =>
      rw [hs.reads k] at hk
      exact absurd hk (by simp)
  | early hp =>
      rcases hs.attached with hphase | hphase <;> simp [hphase] at hp
  | down hcounts hconn =>
      rw [hs.connected] at hconn
      exact absurd hconn (by simp)

/-- A node starts, its connection drops, and it is subscribed again before it reads. -/
def reconnectEvents : List ControlEvent :=
  startEvents ++ [.drop, .ready, .subscribes, .redisReads 2, .readReturns 2]

theorem reconnect_run :
    ∃ s, Steps.run (step fixedSigning strictLua Actor.plainConfig) init reconnectEvents = some s ∧
      Quiet s := by
  refine ⟨_, rfl, rfl, rfl, rfl, rfl, fun k => ?_, fun i => rfl, rfl, rfl⟩
  show (if k = 2 then none else if k = 2 then _ else if k = 2 then _ else if k = 1 then none
    else if k = 1 then _ else if k = 0 then none else if k = 0 then _ else if k = 1 then _
    else if k = 0 then _ else none) = none
  split_ifs <;> rfl

theorem reconnect_resubscribes :
    Steps.Along (step fixedSigning strictLua Actor.plainConfig) (Resubscribes fixedSigning) init
      reconnectEvents := by
  have hplain : ∀ e ∈ reconnectEvents, ∀ s, Resubscribes fixedSigning s e := by
    intro e he s
    simp only [reconnectEvents, startEvents, List.cons_append, List.nil_append, List.mem_cons,
      List.not_mem_nil, or_false] at he
    rcases he with rfl | rfl | rfl | rfl | rfl | rfl | rfl | rfl | rfl | rfl | rfl | rfl | rfl <;>
      exact ⟨trivial, trivial⟩
  have hall : Steps.Along (step fixedSigning strictLua Actor.plainConfig)
      (fun _ e => ∀ s, Resubscribes fixedSigning s e) init reconnectEvents :=
    Steps.along_of_mem reconnectEvents init hplain
  exact hall.mono fun s e h => h s

/-- A stop that is issued after the reconnect is delivered. -/
theorem latest_delivered_reconnected :
    ∃ s, Steps.run (step fixedSigning strictLua Actor.plainConfig) init
      (reconnectEvents ++ lateEvents)
        = some s ∧
      s.saves = [lateStop] ∧ ∀ c ∈ s.saves, ∃ d ∈ s.delivered, c.issuedAt ≤ d.issuedAt := by
  obtain ⟨s, hback, hquiet⟩ := reconnect_run
  obtain ⟨t, hlate, hphase, hconn, hsub, hinbox, hreads, hsaves, hissues⟩ := hquiet.lateStop_run
  have hrun : Steps.run (step fixedSigning strictLua Actor.plainConfig) init
      (reconnectEvents ++ lateEvents) = some t := Steps.run_append_some.mpr ⟨s, hback, hlate⟩
  have hsettled : Settled t := by
    refine ⟨.inl hphase, hconn, hsub, hinbox, hreads, fun i issue hi => ?_⟩
    rw [hissues] at hi
    by_cases h0 : i = 0
    · rw [if_pos h0] at hi
      rw [← Option.some.inj hi]
    · rw [if_neg h0] at hi
      exact absurd hi (by simp)
  refine ⟨t, hrun, hsaves, latest_delivered ?_ hrun hsettled⟩
  refine Steps.along_append reconnect_resubscribes fun u hu => ?_
  obtain rfl : s = u := Option.some.inj (hback.symm.trans hu)
  refine ⟨⟨lateStop_unicode, trivial⟩, fun m hm => ?_⟩
  obtain rfl : s.save fixedSigning strictLua lateStop = m := Option.some.inj hm
  exact ⟨⟨trivial, fun _ _ => .inl hquiet.subscribed⟩,
    fun _ _ => ⟨⟨trivial, trivial⟩, fun _ _ => trivial⟩⟩

/-- The read of the reconnect comes first, and the stop falls between it and SUBSCRIBE. -/
def missedEvents : List ControlEvent :=
  startEvents ++ [.drop, .ready, .redisReads 2, .readReturns 2, .save lateStop, .publish 0 0,
    .subscribes]

/-- **A stop between the read and the SUBSCRIBE of a reconnect is missed.** -/
theorem reconnect_misses_stop :
    ∃ s, Steps.run (step fixedSigning strictLua Actor.plainConfig) init missedEvents = some s ∧
      Settled s ∧
      s.saves = [lateStop] ∧ s.delivered = [] := by
  obtain ⟨s, hrun, hphase, hconn, hsub, hinbox, hreads, hissues, hsaves, hdelivered⟩ : ∃ s,
      Steps.run (step fixedSigning strictLua Actor.plainConfig) init missedEvents = some s ∧
      s.phase = .attached ∧ s.connected = true ∧ s.subscribed = true ∧ s.inbox = [] ∧
      (∀ k, s.reads k = none) ∧
      (∀ i, s.issues i = if i = 0 then some (Issue.mk lateStop true) else none) ∧
      s.saves = [lateStop] ∧ s.delivered = [] := by
    refine ⟨_, rfl, rfl, rfl, rfl, rfl, fun k => ?_, fun i => ?_, rfl, rfl⟩
    · show (if k = 2 then none else if k = 2 then _ else if k = 2 then _ else if k = 1 then none
        else if k = 1 then _ else if k = 0 then none else if k = 0 then _ else if k = 1 then _
        else if k = 0 then _ else none) = none
      split_ifs <;> rfl
    · show (if i = 0 then some (Issue.mk lateStop true) else if i = 0 then _ else none) = _
      split_ifs <;> rfl
  refine ⟨s, hrun, ⟨.inl hphase, hconn, hsub, hinbox, hreads, fun i issue hi => ?_⟩, hsaves,
    hdelivered⟩
  rw [hissues] at hi
  by_cases h0 : i = 0
  · rw [if_pos h0] at hi
    rw [← Option.some.inj hi]
  · rw [if_neg h0] at hi
    exact absurd hi (by simp)

end Kaiban.ControlSystem
