/-
The card of a task and the record of its delivery.

The actor reports a delivery when its race is decided, and the publisher when the handler
itself settles, so the two can differ: an attempt that was given up may settle after the
record, or never.  They agree in every state of a run in which no such settlement reports
a failure over a success or a stop, and in which a failure is recorded once the newest
attempt has failed.  What is carried along the run is `Shown`.
-/
import Kaiban.Proofs.AgentNode.Outcomes
import Kaiban.Proofs.AgentNode.Wiring

open JsString

namespace Kaiban.AgentNode

open AgentStatePublisher (Marked Spares Report Invoked EndsStopped emergencyAbort Publishes)

variable {cfg : AgentNodeConfig} {n n' : AgentNode} {d : ℕ} {p : Payload}

/-- The newest attempt of the delivery ended with a failure. -/
def LastFailed (n : AgentNode) (d : ℕ) : Prop :=
  ∃ i k att e, n.Owns d i k att ∧ n.Newest d i ∧ att.ended = some (.threw e)

/-- A failure reported now would hide a success or a stop. -/
def Final (n : AgentNode) (d : ℕ) (p : Payload) : Prop :=
  n.publisher.Marked p.taskId ∨ ∃ del, n.actor.deliveries d = some del ∧
    (del.stage.Won ∨ ∃ ending, del.stage = .ended ending ∧ ending.isStop = true)

/-- An attempt that was given up throws no stop of its own, and reports no failure once a
success or a stop is final.  The record of a failure is published once the newest attempt
has ended with a failure, and it does not read like a stop. -/
def Orderly (d : ℕ) (p : Payload) (n : AgentNode) : NodeEvent → Prop
  | .settles i out => ∀ k att, n.Owns d i k att → att.aborted ≠ none →
      (EndsStopped att out → (emergencyAbort att.aborted).isSome = true) ∧
        (¬ EndsStopped att out → ¬ n.Final d p)
  | .act x (.published (.ok ())) => x = d → ∀ del ending, n.actor.deliveries d = some del →
      del.stage = .recording ending → ending.isStop = false → 0 < del.invocations →
        n.LastFailed d ∧ ∀ r, del.lastRecord = some r → r.status ≠ .stopped
  | _ => True

/-- The task of the delivery is sent once. -/
def SentOnce (d : ℕ) (p : Payload) : NodeEvent → Prop
  | .deliver x q _ => (x = d → q = p) ∧ (x ≠ d → q.taskId ≠ p.taskId)
  | _ => True

/-- The card says what the outcome record says, once that is published. -/
def CardAgrees (n : AgentNode) (d : ℕ) (p : Payload) : Prop :=
  ∀ del ending, n.actor.deliveries d = some del → del.stage = .ended ending →
    ending ≠ .failed → ending ≠ .ignored → 0 < del.invocations →
    ∃ r, del.lastRecord = some r ∧ n.publisher.lastCard p.taskId = some r.status

/-! ### What the board shows along a run -/

/-- What the board shows of the task of a delivery. -/
structure Shown (n : AgentNode) (d : ℕ) (p : Payload) : Prop where
  payload : ∀ del, n.actor.deliveries d = some del → del.payload = p
  others : ∀ x del, x ≠ d → n.actor.deliveries x = some del → del.payload.taskId ≠ p.taskId
  marked : n.publisher.Marked p.taskId → n.publisher.lastCard p.taskId = some .stopped ∧
    ∃ del, n.actor.deliveries d = some del ∧ del.stage.Stopping
  /-- A stop ends an attempt only if it ends the delivery. -/
  stops : ∀ i k att del, n.Owns d i k att → n.actor.deliveries d = some del →
    (att.ended = none ∧ (emergencyAbort att.aborted).isSome = true) ∨
      (∃ e, att.ended = some (.threw e) ∧ ¬ e.NotStop) → del.stage.Stopping
  done : ∀ del, n.actor.deliveries d = some del → del.stage.Won →
    n.publisher.lastCard p.taskId = some .done
  failed : ∀ del, n.actor.deliveries d = some del → n.LastFailed d → ¬ del.stage.Stopping →
    n.publisher.lastCard p.taskId = some .blocked
  stopped : ∀ del ending, n.actor.deliveries d = some del → del.stage = .ended ending →
    ending.isStop = true → n.publisher.lastCard p.taskId = some .stopped
  /-- The record of a failure. -/
  reported : ∀ del ending, n.actor.deliveries d = some del → del.stage = .ended ending →
    ending ≠ .completed → ending.isStop = false → ending ≠ .failed → ending ≠ .ignored →
    0 < del.invocations →
    n.LastFailed d ∧ del.lastRecord.map Record.status = some .blocked

/-- **The card agrees with the record when the board shows what it should.** -/
theorem Shown.agrees (h : Shown n d p) (hrec : Actor.Each Delivery.Recorded n.actor) :
    n.CardAgrees d p := by
  intro del ending hdel hs hfailed hignored hinvoked
  have hstatus : ∀ st, del.lastRecord.map Record.status = some st →
      n.publisher.lastCard p.taskId = some st →
      ∃ r, del.lastRecord = some r ∧ n.publisher.lastCard p.taskId = some r.status := by
    intro st hlast hcard
    obtain ⟨r, hr, rfl⟩ := Option.map_eq_some_iff.mp hlast
    exact ⟨r, hr, hcard⟩
  have hends := hrec d del hdel
  unfold Delivery.Recorded at hends
  rw [hs] at hends
  by_cases hcompleted : ending = .completed
  · refine hstatus .done (hends.1 hcompleted) (h.done del hdel ?_)
    rw [hs]
    exact hcompleted
  · cases hstop : ending.isStop with
    | true => exact hstatus .stopped (hends.2 hstop) (h.stopped del ending hdel hs hstop)
    | false =>
        obtain ⟨hlast, hblocked⟩ :=
          h.reported del ending hdel hs hcompleted hstop hfailed hignored hinvoked
        refine hstatus .blocked hblocked (h.failed del hdel hlast ?_)
        rw [hs]
        rintro (hstop' | hfailed')
        · exact absurd (hstop.symm.trans hstop') (by simp)
        · exact hfailed hfailed'

/-! ### What leaves the task alone -/

/-- The delivery and its attempts stay, and the card of its task. -/
structure Apart (n n' : AgentNode) (d : ℕ) (p : Payload) : Prop where
  delivery : n'.actor.deliveries d = n.actor.deliveries d
  owns : ∀ i k att, n'.Owns d i k att ↔ n.Owns d i k att
  newest : ∀ i, n'.Newest d i ↔ n.Newest d i
  spares : Spares p.taskId n.publisher n'.publisher

theorem Apart.lastFailed (h : Apart n n' d p) : n'.LastFailed d ↔ n.LastFailed d := by
  unfold LastFailed
  simp only [h.owns, h.newest]

theorem Shown.apart (h : Shown n d p) (ha : Apart n n' d p)
    (hothers : ∀ x del, x ≠ d → n'.actor.deliveries x = some del →
      del.payload.taskId ≠ p.taskId) : Shown n' d p where
  payload del hdel := h.payload del (ha.delivery ▸ hdel)
  others := hothers
  marked hm := by
    rw [ha.spares.card, ha.delivery]
    exact h.marked (ha.spares.mark hm)
  stops i k att del hi hdel := h.stops i k att del ((ha.owns i k att).mp hi) (ha.delivery ▸ hdel)
  done del hdel hw := by
    rw [ha.spares.card]
    exact h.done del (ha.delivery ▸ hdel) hw
  failed del hdel hl hs := by
    rw [ha.spares.card]
    exact h.failed del (ha.delivery ▸ hdel) (ha.lastFailed.mp hl) hs
  stopped del ending hdel hs hstop := by
    rw [ha.spares.card]
    exact h.stopped del ending (ha.delivery ▸ hdel) hs hstop
  reported del ending hdel hs hc hstop hf hi hinvoked := by
    obtain ⟨hl, hlast⟩ := h.reported del ending (ha.delivery ▸ hdel) hs hc hstop hf hi hinvoked
    exact ⟨ha.lastFailed.mpr hl, hlast⟩

/-- The other deliveries keep their payloads. -/
theorem Shown.others_sets (h : Shown n d p) {x : ℕ} {del del' : Delivery} {a' : Actor}
    (hdel : n.actor.deliveries x = some del) (hsets : n.actor.Sets x del' a')
    (hpayload : del'.payload = del.payload) : ∀ y new, y ≠ d → a'.deliveries y = some new →
      new.payload.taskId ≠ p.taskId := by
  intro y new hyd hy
  by_cases hyx : y = x
  · subst hyx
    obtain rfl := Option.some.inj (hsets.1.symm.trans hy)
    rw [hpayload]
    exact h.others y del hyd hdel
  · exact h.others y new hyd ((hsets.2 y hyx).symm.trans hy)

/-- Another delivery changes, and the publisher with another task. -/
theorem Shown.elsewhere (h : Shown n d p) {x : ℕ} {del del' : Delivery} {a' : Actor}
    {s : AgentStatePublisher} (hxd : x ≠ d) (hdel : n.actor.deliveries x = some del)
    (hsets : n.actor.Sets x del' a') (hpayload : del'.payload = del.payload)
    (hattempts : s.attempts = n.publisher.attempts) (hspares : Spares p.taskId n.publisher s) :
    Shown { n with actor := a', publisher := s } d p := by
  refine h.apart ⟨hsets.2 d (Ne.symm hxd), fun i k att => ?_, fun i => Iff.rfl, hspares⟩
    (h.others_sets hdel hsets hpayload)
  unfold Owns
  rw [hattempts]

/-- The arrival of a delivery. -/
theorem Shown.arrived (h : Shown n d p) (hw : Wired n) {x : ℕ} {q : Payload} {b : Bool}
    {a' : Actor} (hsent : SentOnce d p (.deliver x q b)) (hnone : n.actor.deliveries x = none)
    (hsets : n.actor.Sets x (processTask cfg.actor n.actor.signals q b) a') :
    Shown { n with actor := a' } d p := by
  have hpayload := processTask_payload cfg.actor n.actor.signals q b
  have hothers : ∀ y new, y ≠ d → a'.deliveries y = some new → new.payload.taskId ≠ p.taskId := by
    intro y new hyd hy
    by_cases hyx : y = x
    · subst hyx
      obtain rfl := Option.some.inj (hsets.1.symm.trans hy)
      rw [hpayload]
      exact hsent.2 hyd
    · exact h.others y new hyd ((hsets.2 y hyx).symm.trans hy)
  by_cases hxd : x = d
  · subst hxd
    have hno : ∀ i k att, ¬ n.Owns x i k att := by
      intro i k att hi
      obtain ⟨d', k', del, hd', hdel, -⟩ := hw.owned i att hi.2
      obtain ⟨rfl, -⟩ := Prod.mk.inj (Option.some.inj (hi.1.symm.trans hd'))
      exact absurd (hnone.symm.trans hdel) (by simp)
    have hlast : ¬ n.LastFailed x := fun ⟨i, k, att, e, hi, _⟩ => hno i k att hi
    have hnew : ∀ del, a'.deliveries x = some del →
        del = processTask cfg.actor n.actor.signals q b := fun del hdel =>
      (Option.some.inj (hsets.1.symm.trans hdel)).symm
    obtain ⟨hwon, hends⟩ := processTask_stage cfg.actor n.actor.signals q b
    refine ⟨fun del hdel => ?_, hothers, fun hm => ?_, fun i k att del hi => ?_,
      fun del hdel hs => ?_, fun del hdel hl => absurd hl hlast, fun del ending hdel hs hstop => ?_,
      fun del ending hdel hs _ _ _ hi => ?_⟩
    · rw [hnew del hdel, hpayload]
      exact hsent.1 rfl
    · obtain ⟨-, del, hdel, -⟩ := h.marked hm
      exact absurd (hnone.symm.trans hdel) (by simp)
    · exact absurd hi (hno i k att)
    · exact absurd (hnew del hdel ▸ hs) hwon
    · rw [hnew del hdel] at hs
      rw [hends ending hs] at hstop
      exact absurd hstop (by simp [Ending.isStop])
    · rw [hnew del hdel] at hs
      exact absurd (hends ending hs) hi
  · refine h.apart ⟨hsets.2 d (Ne.symm hxd), fun i k att => Iff.rfl, fun i => Iff.rfl,
      .refl _ _⟩ hothers

/-- The status of a record of a failure, and the failure behind it. -/
theorem blocked_of_orderly {del : Delivery} {ending : Ending}
    (hrec : Actor.Each Delivery.Recorded n.actor) (hdel : n.actor.deliveries d = some del)
    (hs : del.stage = .recording ending) (hstop : ending.isStop = false)
    (hinvoked : 0 < del.invocations) (horderly : Orderly d p n (.act d (.published (.ok ())))) :
    n.LastFailed d ∧ del.lastRecord.map Record.status = some .blocked := by
  obtain ⟨hfailed, hname⟩ := horderly rfl del ending hdel hs hstop hinvoked
  refine ⟨hfailed, ?_⟩
  have hends := hrec d del hdel
  unfold Delivery.Recorded at hends
  rw [hs] at hends
  obtain ⟨r, hlast, hchannel⟩ := hends.2.1
  rw [hlast]
  have hcases : r.status = .stopped ∨ r.status = .blocked := by
    unfold Record.status
    rw [hchannel]
    dsimp only
    split
    · split
      · exact .inl rfl
      · exact .inr rfl
    · exact .inr rfl
  exact congrArg some (hcases.resolve_left (hname r hlast))

/-- The actor goes on alone with the delivery. -/
theorem Shown.reacted (h : Shown n d p) (hrec : Actor.Each Delivery.Recorded n.actor) {a : Act}
    {del del' : Delivery} {a' : Actor} (hdel : n.actor.deliveries d = some del)
    (hr : Reaction cfg.actor n.actor.signals del a del') (hrace : SameRace del del')
    (hstop : ∀ ending, a = .published (.ok ()) → del.stage = .recording ending →
      ending.isStop = false) (hsets : n.actor.Sets d del' a')
    (horderly : Orderly d p n (.act d a)) : Shown { n with actor := a' } d p := by
  have hnew : ∀ new, a'.deliveries d = some new → new = del' := fun new hn =>
    (Option.some.inj (hsets.1.symm.trans hn)).symm
  have hsettles : ∀ j out, a = .settles j out → del' = del := by
    rintro j out rfl
    cases hr with
    | settled k out hs => exact absurd ((hrace j).mpr hs) (by simp)
    | late => rfl
  have hcompleted : ∀ ending, del.stage = .recording ending → ending ≠ .completed := by
    intro ending hs
    have hends := hrec d del hdel
    unfold Delivery.Recorded at hends
    rw [hs] at hends
    exact hends.1
  have hwon : del'.stage.Won → del.stage.Won := hr.won hsettles hcompleted
  refine ⟨fun new hn => ?_, h.others_sets hdel hsets hr.payload, fun hm => ?_,
    fun i k att new hi hn hcase => ?_, fun new hn hs => ?_, fun new hn hl hs => ?_,
    fun new ending hn hs hend => ?_, fun new ending hn hs hc hend hf hi hinvoked => ?_⟩
  · rw [hnew new hn, hr.payload]
    exact h.payload del hdel
  · obtain ⟨hcard, old, hold, hstopping⟩ := h.marked hm
    obtain rfl : del = old := Option.some.inj (hdel.symm.trans hold)
    exact ⟨hcard, del', hsets.1, hr.stopping hstopping⟩
  · rw [hnew new hn]
    exact hr.stopping (h.stops i k att del hi hdel hcase)
  · exact h.done del hdel (hwon (hnew new hn ▸ hs))
  · rw [hnew new hn] at hs
    exact h.failed del hdel hl fun hstopping => hs (hr.stopping hstopping)
  · obtain rfl := hnew new hn
    rcases hr.ends hs with rfl | rfl | rfl | ⟨hact, hrecording, -⟩
    · exact h.stopped new ending hdel hs hend
    · exact absurd hend (by simp [Ending.isStop])
    · exact absurd hend (by simp [Ending.isStop])
    · exact absurd ((hstop ending hact hrecording).symm.trans hend) (by simp)
  · obtain rfl := hnew new hn
    rcases hr.ends hs with rfl | rfl | rfl | ⟨hact, hrecording, heq⟩
    · exact h.reported new ending hdel hs hc hend hf hi hinvoked
    · exact absurd rfl hc
    · exact absurd rfl hf
    · subst hact
      rw [heq, Delivery.recorded_invocations] at hinvoked
      rw [heq, recorded_lastRecord]
      exact blocked_of_orderly (n := n) hrec hdel hrecording hend hinvoked horderly

/-- A timer or a stop aborts some of the attempts. -/
theorem Shown.aborted (h : Shown n d p) (hw : Wired n) {owns : ℕ → Bool}
    {reason : NonRetryableError} {a' : Actor}
    (hdel : ∀ x, a'.deliveries x = (n.actor.deliveries x).map fun del =>
      if owns x then del.abort reason else del) :
    Shown ⟨a', aborting n.publisher (n.attemptsOf owns) reason, n.owner⟩ d p := by
  have hback : ∀ x new, a'.deliveries x = some new → ∃ del, n.actor.deliveries x = some del ∧
      new = if owns x then del.abort reason else del := by
    intro x new hx
    rw [hdel x] at hx
    obtain ⟨del, hold, heq⟩ := Option.map_eq_some_iff.mp hx
    exact ⟨del, hold, heq.symm⟩
  have hpayload : ∀ x (del : Delivery),
      (if owns x then del.abort reason else del).payload = del.payload := by
    intro x del
    split
    · exact del.abort_payload reason
    · rfl
  have hstopping : ∀ (del : Delivery), del.stage.Stopping →
      (if owns d then del.abort reason else del).stage.Stopping := by
    intro del hs
    split
    · exact del.abort_stopping hs
    · exact hs
  have hended : ∀ (del : Delivery) (ending : Ending),
      (if owns d then del.abort reason else del).stage = .ended ending →
      (if owns d then del.abort reason else del) = del := by
    intro del ending hs
    split
    · rcases del.abort_cases reason with ⟨k, -, heq⟩ | ⟨-, heq⟩
      · rename_i howns
        rw [if_pos howns, heq] at hs
        exact absurd hs (by simp)
      · exact heq
    · rfl
  have hlast : LastFailed ⟨a', aborting n.publisher (n.attemptsOf owns) reason, n.owner⟩ d →
      n.LastFailed d := by
    rintro ⟨i, k, att, e, hi, hnewest, he⟩
    obtain ⟨old, hold, rfl⟩ := aborting_some hi.2
    refine ⟨i, k, old, e, ⟨hi.1, hold⟩, hnewest, ?_⟩
    split at he <;> exact he
  have hkept : n.LastFailed d →
      LastFailed ⟨a', aborting n.publisher (n.attemptsOf owns) reason, n.owner⟩ d := by
    rintro ⟨i, k, att, e, hi, hnewest, he⟩
    refine ⟨i, k, _, e, ⟨hi.1, congrArg (Option.map _) hi.2⟩, hnewest, ?_⟩
    show (if i ∈ n.attemptsOf owns then _ else att).ended = _
    split <;> exact he
  refine ⟨fun new hn => ?_, fun x new hxd hx => ?_, fun hm => ?_, fun i k att new hi hn hcase => ?_,
    fun new hn hs => ?_, fun new hn hl hs => ?_, fun new ending hn hs hend => ?_,
    fun new ending hn hs hc hend hf hi hinvoked => ?_⟩
  · obtain ⟨del, hold, rfl⟩ := hback d new hn
    rw [hpayload]
    exact h.payload del hold
  · obtain ⟨del, hold, rfl⟩ := hback x new hx
    rw [hpayload]
    exact h.others x del hxd hold
  · obtain ⟨hcard, del, hold, hs⟩ := h.marked hm
    refine ⟨hcard, _, ?_, hstopping del hs⟩
    show a'.deliveries d = _
    rw [hdel d, hold]
    rfl
  · obtain ⟨del, hold, rfl⟩ := hback d new hn
    obtain ⟨old, hatt, rfl⟩ := aborting_some hi.2
    by_cases hmem : i ∈ n.attemptsOf owns
    · rw [if_pos hmem] at hcase
      rcases hcase with ⟨hopen, habort⟩ | hthrew
      · cases hreason : old.aborted with
        | some r =>
            rw [hreason] at habort
            exact hstopping del (h.stops i k old del ⟨hi.1, hatt⟩ hold
              (.inl ⟨hopen, hreason ▸ habort⟩))
        | none =>
            rw [hreason] at habort
            have hrun := hw.racing d i k old del ⟨hi.1, hatt⟩ hopen hreason hold
            obtain ⟨-, d', k', howner, howns, -⟩ := mem_attemptsOf.mp hmem
            obtain ⟨rfl, -⟩ := Prod.mk.inj (Option.some.inj (hi.1.symm.trans howner))
            rw [howns]
            have hstop : reason.isEmergencyStop = true := by
              by_contra hno
              simp [emergencyAbort, hno] at habort
            rcases del.abort_cases reason with ⟨j, -, heq⟩ | ⟨hno, -⟩
            · rw [if_pos rfl, heq]
              exact hstop
            · exact absurd hrun (hno k)
      · exact hstopping del (h.stops i k old del ⟨hi.1, hatt⟩ hold (.inr hthrew))
    · rw [if_neg hmem] at hcase
      exact hstopping del (h.stops i k old del ⟨hi.1, hatt⟩ hold hcase)
  · obtain ⟨del, hold, rfl⟩ := hback d new hn
    refine h.done del hold ?_
    split at hs
    · exact del.abort_won hs
    · exact hs
  · obtain ⟨del, hold, rfl⟩ := hback d new hn
    exact h.failed del hold (hlast hl) fun hstop => hs (hstopping del hstop)
  · obtain ⟨del, hold, rfl⟩ := hback d new hn
    rw [hended del ending hs] at hs
    exact h.stopped del ending hold hs hend
  · obtain ⟨del, hold, rfl⟩ := hback d new hn
    have hsame := hended del ending hs
    rw [hsame] at hs hinvoked ⊢
    obtain ⟨hl, hlastRecord⟩ := h.reported del ending hold hs hc hend hf hi hinvoked
    exact ⟨hkept hl, hlastRecord⟩

/-- The wrapper is called for the delivery. -/
theorem Shown.invoked (h : Shown n d p) (hw : Wired n) {k : ℕ} {del : Delivery}
    {title : JsString} {t : AgentStatePublisher} {ended : Option Outcome} {a' : Actor}
    (hdel : n.actor.deliveries d = some del) (hs : del.stage = .starting k)
    (hcases : Invoked n.publisher del.payload title t)
    (hatt : t.attempts (n.publisher.attemptSeq + 1) = some ⟨del.payload, title, none, ended⟩)
    (hold : ∀ i, i ≠ n.publisher.attemptSeq + 1 → t.attempts i = n.publisher.attempts i)
    (hsets : n.actor.Sets d ((del.call [.handler k]).goto (.running k ended)) a') :
    Shown ⟨a', t, fun i => if i = n.publisher.attemptSeq + 1 then some (d, k) else n.owner i⟩
      d p := by
  have hpayload := h.payload del hdel
  have hnot : ¬ del.stage.Stopping := by
    rw [hs]
    exact id
  -- No stop of the task is remembered, and the attempt is not ended by one.
  have hended : (ended = none ∧ t.lastCard p.taskId = some .doing) ∨
      ∃ e, ended = some (.threw e) ∧ e.NotStop ∧ t.lastCard p.taskId = some .blocked := by
    rw [← hpayload]
    cases hcases with
    | refused e he hcard hmark hcurrent hatt' =>
        obtain rfl : ended = some (.threw e) := by simpa using hatt.symm.trans hatt'
        exact .inr ⟨e, rfl, he, hcard⟩
    | begun hcard hmark hcurrent hatt' =>
        obtain rfl : ended = none := by simpa using hatt.symm.trans hatt'
        exact .inl ⟨rfl, hcard⟩
  have hmarked : ¬ t.Marked p.taskId := by
    intro hm
    cases hcases with
    | refused e he hcard hmark hcurrent hatt' =>
        obtain ⟨-, old, hold', hstopping⟩ := h.marked (hpayload ▸ hmark (hpayload.symm ▸ hm))
        obtain rfl : del = old := Option.some.inj (hdel.symm.trans hold')
        exact hnot hstopping
    | begun hcard hmark hcurrent hatt' => exact hmark (hpayload.symm ▸ hm)
  have hnew : ∀ new, a'.deliveries d = some new →
      new = (del.call [.handler k]).goto (.running k ended) := fun new hn =>
    (Option.some.inj (hsets.1.symm.trans hn)).symm
  -- The newest attempt is the new one.
  have hnewest : ∀ i kk att, Newest
      ⟨a', t, fun i => if i = n.publisher.attemptSeq + 1 then some (d, k) else n.owner i⟩ d i →
      (if i = n.publisher.attemptSeq + 1 then some (d, k) else n.owner i) = some (d, kk) →
      t.attempts i = some att → att.ended = ended := by
    intro i kk att hi howner ha
    by_cases hin : i = n.publisher.attemptSeq + 1
    · subst hin
      obtain rfl := Option.some.inj (hatt.symm.trans ha)
      rfl
    · have hle := hi (n.publisher.attemptSeq + 1) k (if_pos rfl)
      have hlt := hw.numbered i att ((hold i hin).symm.trans ha)
      omega
  refine ⟨fun new hn => ?_, h.others_sets hdel hsets rfl, fun hm => absurd hm hmarked,
    fun i kk att new hi hn hcase => ?_, fun new hn hw' => ?_, fun new hn hl _ => ?_,
    fun new ending hn hs' _ => ?_, fun new ending hn hs' _ _ _ _ _ => ?_⟩
  · rw [hnew new hn]
    exact hpayload
  · exfalso
    by_cases hin : i = n.publisher.attemptSeq + 1
    · subst hin
      obtain rfl := Option.some.inj (hatt.symm.trans hi.2)
      rcases hcase with ⟨-, habort⟩ | ⟨e, he, hstop⟩
      · exact absurd habort (by simp [emergencyAbort])
      · rcases hended with ⟨hnone, -⟩ | ⟨e', he', hnotStop, -⟩
        · exact absurd (hnone.symm.trans he) (by simp)
        · obtain rfl : e' = e := by simpa using he'.symm.trans he
          exact hstop hnotStop
    · exact hnot (h.stops i kk att del ⟨(if_neg hin).symm.trans hi.1,
        (hold i hin).symm.trans hi.2⟩ hdel hcase)
  · rw [hnew new hn] at hw'
    rcases hended with ⟨rfl, -⟩ | ⟨e, rfl, -, -⟩ <;> exact absurd hw' (by simp [Stage.Won])
  · obtain ⟨i, kk, att, e, hi, hnewest', he⟩ := hl
    have hsame := hnewest i kk att hnewest' hi.1 hi.2
    rcases hended with ⟨hnone, -⟩ | ⟨e', -, -, hcard⟩
    · exact absurd (hnone.symm.trans (hsame.symm.trans he)) (by simp)
    · exact hcard
  · rw [hnew new hn] at hs'
    exact absurd hs' (by simp)
  · rw [hnew new hn] at hs'
    exact absurd hs' (by simp)

/-- The hook reports the stop of the delivery. -/
theorem Shown.stoppedNow (h : Shown n d p) {title : JsString}
    (htitle : taskTitle p = some title) {del : Delivery} {ending : Ending} {a' : Actor}
    (hdel : n.actor.deliveries d = some del) (hstop : ending.isStop = true)
    (hsets : n.actor.Sets d (del.recorded cfg.actor ending) a') :
    Shown ⟨a', n.publisher.publishStopped cfg.publisher del.payload, n.owner⟩ d p := by
  have hpayload := h.payload del hdel
  have hcard : (n.publisher.publishStopped cfg.publisher del.payload).lastCard p.taskId
      = some .stopped := by
    rw [hpayload]
    rcases AgentStatePublisher.publishStopped_cases cfg.publisher n.publisher htitle with
      ⟨hm, heq⟩ | ⟨-, hc⟩
    · rw [heq]
      exact (h.marked hm).1
    · exact hc
  have hnew : ∀ new, a'.deliveries d = some new → new = del.recorded cfg.actor ending :=
    fun new hn => (Option.some.inj (hsets.1.symm.trans hn)).symm
  have hstopping : (del.recorded cfg.actor ending).stage.Stopping := .inl hstop
  refine ⟨fun new hn => ?_, h.others_sets hdel hsets (by simp),
    fun _ => ⟨hcard, _, hsets.1, hstopping⟩,
    fun i k att new hi hn _ => hnew new hn ▸ hstopping, fun new hn hw => ?_, fun new hn _ hno => ?_,
    fun _ _ _ _ _ => hcard, fun new e hn hs' _ he _ _ _ => ?_⟩
  · rw [hnew new hn]
    simpa using hpayload
  · rw [hnew new hn] at hw
    exact absurd hstopping hw.not_stopping
  · rw [hnew new hn] at hno
    exact absurd hstopping hno
  · rw [hnew new hn] at hs'
    obtain rfl : ending = e := Stage.ended.inj hs'
    exact absurd (hstop.symm.trans he) (by simp)

/-! ### The end of an attempt of the delivery -/

/-- The node after the handler of attempt `i` has settled. -/
def afterEnd (n : AgentNode) (a' : Actor) (t : AgentStatePublisher) (i : ℕ) (att : Attempt)
    (out : Outcome) : AgentNode :=
  ⟨a', t.setAttempt i { att with ended := some out }, n.owner⟩

theorem owns_afterEnd {a' : Actor} {t : AgentStatePublisher} {i j k : ℕ} {att a : Attempt}
    {out : Outcome} (hattempts : t.attempts = n.publisher.attempts)
    (h : (n.afterEnd a' t i att out).Owns d j k a) :
    (j = i ∧ a = { att with ended := some out }) ∨ (j ≠ i ∧ n.Owns d j k a) := by
  have ha : (if j = i then some { att with ended := some out } else t.attempts j) = some a := h.2
  by_cases hji : j = i
  · rw [if_pos hji] at ha
    exact .inl ⟨hji, (Option.some.inj ha).symm⟩
  · rw [if_neg hji, hattempts] at ha
    exact .inr ⟨hji, h.1, ha⟩

/-- The newest attempt of the delivery has no newer attempt of its task. -/
theorem Shown.not_superseded (h : Shown n d p) (hw : Wired n) {i : ℕ} (hi : n.Newest d i)
    (hle : i ≤ n.publisher.attemptSeq) (hne : i ≠ n.publisher.attemptSeq) :
    n.publisher.currentTaskId ≠ some p.taskId := by
  intro hcurrent
  obtain ⟨att, hatt, htask⟩ := hw.current _ hcurrent
  obtain ⟨x, k, del, howner, hdel, hpayload⟩ := hw.owned _ att hatt
  by_cases hxd : x = d
  · subst hxd
    have hge := hi _ k howner
    omega
  · exact h.others x del hxd hdel (hpayload ▸ htask)

/-- The card that goes with the outcome of an attempt. -/
def outcomeCard : Outcome → TaskStatus
  | .returned _ => .done
  | .threw (.nonRetryable e) => if e.isEmergencyStop then .stopped else .blocked
  | .threw _ => .blocked

/-- The handler of an attempt settles in time. -/
theorem Shown.endedInTime (h : Shown n d p) (hw : Wired n) {title : JsString}
    (htitle : taskTitle p = some title) {i k : ℕ} {out : HandlerOutcome} {att : Attempt}
    {del : Delivery} {a' : Actor} {t : AgentStatePublisher} {o : Outcome}
    (hreport : Report cfg.publisher n.publisher i att out t o)
    (hattempts : t.attempts = n.publisher.attempts) (hatt : n.publisher.attempts i = some att)
    (howner : n.owner i = some (d, k)) (htask : att.payload = p)
    (hdel : n.actor.deliveries d = some del) (hrun : del.stage = .running k none)
    (hsets : n.actor.Sets d (del.goto (.running k (some o))) a') :
    Shown (n.afterEnd a' t i att o) d p := by
  have hnot : ¬ del.stage.Stopping := by
    rw [hrun]
    exact id
  have hunmarked : ¬ n.publisher.Marked p.taskId := by
    intro hm
    obtain ⟨-, old, hold, hs⟩ := h.marked hm
    obtain rfl : del = old := Option.some.inj (hdel.symm.trans hold)
    exact hnot hs
  have hnewest : n.Newest d i := by
    obtain ⟨j, a, hj, -, -, hjn⟩ := hw.open_ d del k hdel hrun
    exact hw.distinct j i d k hj.1 howner ▸ hjn
  -- The card goes with the outcome.
  obtain ⟨hcard, hmarked⟩ :
      t.lastCard p.taskId = some (outcomeCard o) ∧
      (t.Marked p.taskId → ∃ e : NonRetryableError,
        o = .threw (.nonRetryable e) ∧ e.isEmergencyStop = true) := by
    cases hreport with
    | done _ v haborted hcard hmark =>
        rw [htask] at hcard hmark
        exact ⟨hcard, fun hm => absurd (hmark hm) hunmarked⟩
    | stopped m e he hends hspares hclears =>
        rw [htask]
        refine ⟨?_, fun _ => ⟨e, rfl, he⟩⟩
        rw [show outcomeCard (.threw (.nonRetryable e)) = .stopped from if_pos he]
        rcases AgentStatePublisher.publishStopped_cases cfg.publisher m htitle with
          ⟨hm, -⟩ | ⟨-, hc⟩
        · exact absurd ((hspares p.taskId).mark hm) hunmarked
        · exact hc
    | failed _ e he hends hcard hmark =>
        rw [htask] at hcard hmark
        refine ⟨?_, fun hm => absurd (hmark hm) hunmarked⟩
        have hblocked : t.lastCard p.taskId = some .blocked := by
          rcases hcard with hc | ⟨hne, hcurrent, -⟩
          · exact hc
          · exact absurd hcurrent
              (h.not_superseded hw hnewest (hw.numbered i att hatt) hne)
        rw [hblocked]
        cases e with
        | nonRetryable x => simp [outcomeCard, he x rfl]
        | _ => rfl
  have hnew : ∀ new, a'.deliveries d = some new → new = del.goto (.running k (some o)) :=
    fun new hn => (Option.some.inj (hsets.1.symm.trans hn)).symm
  refine ⟨fun new hn => ?_, h.others_sets hdel hsets rfl, fun hm => ?_,
    fun j kk a new hj hn hcase => ?_, fun new hn hs => ?_, fun new hn hl hs => ?_,
    fun new ending hn hs _ => ?_, fun new ending hn hs _ _ _ _ _ => ?_⟩
  · rw [hnew new hn]
    exact h.payload del hdel
  · obtain ⟨e, rfl, he⟩ := hmarked hm
    refine ⟨?_, _, hsets.1, he⟩
    exact hcard.trans (congrArg some (if_pos he))
  · rw [hnew new hn]
    rcases owns_afterEnd hattempts hj with ⟨-, rfl⟩ | ⟨-, hold⟩
    · rcases hcase with ⟨hopen, -⟩ | ⟨e, he, hstop⟩
      · exact absurd hopen (by simp)
      · obtain rfl : o = .threw e := Option.some.inj he
        cases e with
        | nonRetryable x =>
            by_contra hno
            refine hstop fun y hy => ?_
            obtain rfl : x = y := by simpa using hy
            exact eq_false_of_ne_true hno
        | _ => exact absurd (fun y hy => by simp at hy) hstop
    · exact absurd (h.stops j kk a del hold hdel hcase) hnot
  · rw [hnew new hn] at hs
    cases o with
    | returned v => exact hcard
    | threw e => exact absurd hs (by simp [Stage.Won])
  · rw [hnew new hn] at hs
    obtain ⟨j, kk, a, e, hj, hjn, he⟩ := hl
    have hji : j = i := le_antisymm (hnewest j kk hj.1) (hjn i k howner)
    rcases owns_afterEnd hattempts hj with ⟨-, rfl⟩ | ⟨hne, -⟩
    · obtain rfl : o = .threw e := Option.some.inj he
      refine hcard.trans ?_
      cases e with
      | nonRetryable x =>
          exact congrArg some (if_neg hs)
      | _ => rfl
    · exact absurd hji hne
  · rw [hnew new hn] at hs
    exact absurd hs (by simp)
  · rw [hnew new hn] at hs
    exact absurd hs (by simp)

/-- The handler of an attempt that was given up settles. -/
theorem Shown.endedLate (h : Shown n d p) (hw : Wired n) {title : JsString}
    (htitle : taskTitle p = some title) {i k : ℕ} {out : HandlerOutcome} {att : Attempt}
    {del : Delivery} {a' : Actor} {t : AgentStatePublisher} {o : Outcome}
    (hreport : Report cfg.publisher n.publisher i att out t o)
    (hattempts : t.attempts = n.publisher.attempts) (hatt : n.publisher.attempts i = some att)
    (hopen : att.ended = none) (haborted : att.aborted ≠ none)
    (howner : n.owner i = some (d, k)) (htask : att.payload = p)
    (hdel : n.actor.deliveries d = some del) (hsets : n.actor.Sets d del a')
    (horderly : Orderly d p n (.settles i out)) : Shown (n.afterEnd a' t i att o) d p := by
  obtain ⟨hown, hfinal⟩ := horderly k att ⟨howner, hatt⟩ haborted
  have hnew : ∀ new, a'.deliveries d = some new → new = del :=
    fun new hn => (Option.some.inj (hsets.1.symm.trans hn)).symm
  have hlast : ∀ e, o = .threw e → (n.afterEnd a' t i att o).LastFailed d →
      n.LastFailed d ∨ n.Newest d i := by
    rintro e rfl ⟨j, kk, a, e', hj, hjn, he⟩
    rcases owns_afterEnd hattempts hj with ⟨rfl, -⟩ | ⟨-, hold⟩
    · exact .inr hjn
    · exact .inl ⟨j, kk, a, e', hold, hjn, he⟩
  have hkept : n.LastFailed d → (n.afterEnd a' t i att o).LastFailed d := by
    rintro ⟨j, kk, a, e, hj, hjn, he⟩
    have hji : j ≠ i := by
      rintro rfl
      obtain rfl := Option.some.inj (hatt.symm.trans hj.2)
      exact absurd (hopen.symm.trans he) (by simp)
    refine ⟨j, kk, a, e, ⟨hj.1, ?_⟩, hjn, he⟩
    show (if j = i then _ else t.attempts j) = some a
    rw [if_neg hji, hattempts]
    exact hj.2
  have hpayload : ∀ new, a'.deliveries d = some new → new.payload = p := fun new hn =>
    hnew new hn ▸ h.payload del hdel
  have hreported : ∀ new ending, a'.deliveries d = some new → new.stage = .ended ending →
      ending ≠ .completed → ending.isStop = false → ending ≠ .failed → ending ≠ .ignored →
      0 < new.invocations →
      (n.afterEnd a' t i att o).LastFailed d ∧
        new.lastRecord.map Record.status = some .blocked := by
    intro new ending hn hs hc hstop hf hi hinvoked
    obtain rfl := hnew new hn
    obtain ⟨hl, hr⟩ := h.reported new ending hdel hs hc hstop hf hi hinvoked
    exact ⟨hkept hl, hr⟩
  cases hreport with
  | done _ v hnone hcard hmark => exact absurd hnone haborted
  | stopped m e he hends hspares hclears =>
      have hstopping : del.stage.Stopping :=
        h.stops i k att del ⟨howner, hatt⟩ hdel
          (.inl ⟨hopen, hown (hends.resolve_left haborted)⟩)
      have hcard : (m.publishStopped cfg.publisher att.payload).lastCard p.taskId
          = some .stopped := by
        rw [htask]
        rcases AgentStatePublisher.publishStopped_cases cfg.publisher m htitle with
          ⟨hm, heq⟩ | ⟨-, hc⟩
        · rw [heq, (hspares p.taskId).card]
          exact (h.marked ((hspares p.taskId).mark hm)).1
        · exact hc
      refine ⟨hpayload, h.others_sets hdel hsets rfl, fun _ => ⟨hcard, del, hsets.1, hstopping⟩,
        fun j kk a new _ hn _ => hnew new hn ▸ hstopping, fun new hn hs => ?_,
        fun new hn _ hno => ?_, fun _ _ _ _ _ => hcard, hreported⟩
      · exact absurd (hnew new hn ▸ hstopping) hs.not_stopping
      · exact absurd (hnew new hn ▸ hstopping) hno
  | failed _ e he hends hcard hmark =>
      have hnotFinal := hfinal (hends.resolve_left haborted)
      have hunmarked : ¬ t.Marked p.taskId := by
        rw [htask] at hmark
        exact fun hm => hnotFinal (.inl (hmark hm))
      rw [htask] at hcard
      refine ⟨hpayload, h.others_sets hdel hsets rfl, fun hm => absurd hm hunmarked,
        fun j kk a new hj hn hcase => ?_, fun new hn hs => ?_, fun new hn hl hno => ?_,
        fun new ending hn hs hstop => ?_, hreported⟩
      · rw [hnew new hn]
        rcases owns_afterEnd hattempts hj with ⟨-, rfl⟩ | ⟨-, hold⟩
        · rcases hcase with ⟨hnone, -⟩ | ⟨e', he', hstop⟩
          · exact absurd hnone (by simp)
          · obtain rfl : e = e' := by simpa using he'
            exact absurd he hstop
        · exact h.stops j kk a del hold hdel hcase
      · exact absurd (.inr ⟨del, hdel, .inl (hnew new hn ▸ hs)⟩) hnotFinal
      · -- The board shows the failure, or an older one of the attempt that is newer.
        rcases hcard with hc | ⟨hne, hcurrent, hc⟩
        · exact hc
        · rcases hlast e rfl hl with hold | hnewest
          · exact hc.trans (h.failed del hdel hold (hnew new hn ▸ hno))
          · exact absurd hcurrent (h.not_superseded hw hnewest (hw.numbered i att hatt) hne)
      · exact absurd (.inr ⟨del, hdel, .inr ⟨ending, hnew new hn ▸ hs, hstop⟩⟩) hnotFinal

theorem Shown.settled (h : Shown n d p) (hw : Wired n) {title : JsString}
    (htitle : taskTitle p = some title) {x i k : ℕ} {out : HandlerOutcome} {att : Attempt}
    {del del' : Delivery} {a' : Actor} (hatt : n.publisher.attempts i = some att)
    (hopen : att.ended = none) (howner : n.owner i = some (x, k))
    (hdel : n.actor.deliveries x = some del)
    (hr : (del.stage = .running k none ∧ del' = del.goto (.running k
        (some (n.publisher.settled cfg.publisher i att out).2))) ∨
      (del.stage ≠ .running k none ∧ del' = del)) (hsets : n.actor.Sets x del' a')
    (horderly : Orderly d p n (.settles i out)) :
    Shown (n.afterEnd a' (n.publisher.settled cfg.publisher i att out).1 i att
      (n.publisher.settled cfg.publisher i att out).2) d p := by
  have hattempts := (Publishes.settled cfg.publisher n.publisher i att out).attempts
  have hreport := AgentStatePublisher.settled_report cfg.publisher n.publisher i att out
  have htask : att.payload = del.payload := by
    obtain ⟨x', k', old, howner', hold, hp⟩ := hw.owned i att hatt
    obtain ⟨rfl, -⟩ := Prod.mk.inj (Option.some.inj (howner.symm.trans howner'))
    exact Option.some.inj (hold.symm.trans hdel) ▸ hp
  by_cases hxd : x = d
  · subst hxd
    rw [h.payload del hdel] at htask
    cases haborted : att.aborted with
    | none =>
        have hrun := hw.racing x i k att del ⟨howner, hatt⟩ hopen haborted hdel
        rcases hr with ⟨-, rfl⟩ | ⟨hne, -⟩
        · exact h.endedInTime hw htitle hreport hattempts hatt howner htask hdel hrun hsets
        · exact absurd hrun hne
    | some reason =>
        have hne : del.stage ≠ .running k none := by
          intro hrun
          obtain ⟨j, a, hj, -, hnone, -⟩ := hw.open_ x del k hdel hrun
          obtain rfl := hw.distinct j i x k hj.1 howner
          obtain rfl := Option.some.inj (hatt.symm.trans hj.2)
          exact absurd (haborted.symm.trans hnone) (by simp)
        rcases hr with ⟨hrun, -⟩ | ⟨-, rfl⟩
        · exact absurd hrun hne
        · exact h.endedLate hw htitle hreport hattempts hatt hopen (by simp [haborted]) howner htask
            hdel hsets horderly
  · have hne : att.payload.taskId ≠ p.taskId := htask ▸ h.others x del hxd hdel
    have hpayload : del'.payload = del.payload := by
      rcases hr with ⟨-, rfl⟩ | ⟨-, rfl⟩ <;> rfl
    have hspares : Spares p.taskId n.publisher
        (n.publisher.settled cfg.publisher i att out).1 :=
      (AgentStatePublisher.aside_settled cfg.publisher hne).spares
    refine h.apart ⟨hsets.2 d (Ne.symm hxd), fun j kk a => ⟨fun hj => ?_, fun hj => ?_⟩,
      fun _ => Iff.rfl, hspares.trans (.of_eq rfl rfl)⟩ (h.others_sets hdel hsets hpayload)
    · rcases owns_afterEnd hattempts hj with ⟨rfl, -⟩ | ⟨-, hold⟩
      · exact absurd (Prod.mk.inj (Option.some.inj (howner.symm.trans hj.1))).1 hxd
      · exact hold
    · refine ⟨hj.1, ?_⟩
      have hji : j ≠ i := by
        rintro rfl
        exact hxd (Prod.mk.inj (Option.some.inj (howner.symm.trans hj.1))).1
      show (if j = i then _ else _) = some a
      rw [if_neg hji, hattempts]
      exact hj.2

/-- **A step that is in order keeps what the board shows.** -/
theorem shown_step {e : NodeEvent} {title : JsString} (htitle : taskTitle p = some title)
    (h : Shown n d p) (hw : Wired n) (hrec : Actor.Each Delivery.Recorded n.actor)
    (hsent : SentOnce d p e) (horderly : Orderly d p n e) (hstep : n.step cfg e = some n') :
    Shown n' d p := by
  cases step_move hstep with
  | arrived x q b a' hnone hsets => exact h.arrived hw hsent hnone hsets
  | reacted x a del del' a' hdel hr hrace hstop hsets =>
      by_cases hxd : x = d
      · subst hxd
        exact h.reacted hrec hdel hr hrace hstop hsets horderly
      · exact h.elsewhere hxd hdel hsets hr.payload rfl (.refl _ _)
  | invoked x k del title' t ended a' hdel hs htitle' hcases hatt hseq hold hspares hsets =>
      by_cases hxd : x = d
      · subst hxd
        exact h.invoked hw hdel hs hcases hatt hold hsets
      · have hne := h.others x del hxd hdel
        have hfresh : ∀ i y kk, n.owner i = some (y, kk) → i ≠ n.publisher.attemptSeq + 1 := by
          rintro i y kk hi rfl
          obtain ⟨att, ha⟩ := hw.owners _ y kk hi
          exact absurd (hw.numbered _ att ha) (by omega)
        have hiff : ∀ i kk, x ≠ d → ((if i = n.publisher.attemptSeq + 1 then some (x, k)
            else n.owner i) = some (d, kk) ↔ n.owner i = some (d, kk)) := by
          intro i kk hxd
          by_cases hin : i = n.publisher.attemptSeq + 1
          · rw [if_pos hin]
            exact ⟨fun hi => absurd (Prod.mk.inj (Option.some.inj hi)).1 hxd,
              fun hi => absurd hin (hfresh i d kk hi)⟩
          · rw [if_neg hin]
        refine h.apart ⟨hsets.2 d (Ne.symm hxd), fun i kk att => ?_, fun i => ?_, hspares _ hne⟩
          (h.others_sets hdel hsets rfl)
        · refine ⟨fun hi => ?_, fun hi => ⟨(hiff i kk hxd).mpr hi.1, ?_⟩⟩
          · have howner := (hiff i kk hxd).mp hi.1
            exact ⟨howner, (hold i (hfresh i d kk howner)).symm.trans hi.2⟩
          · exact (hold i (hfresh i d kk hi.1)).trans hi.2
        · exact ⟨fun hi j kk hj => hi j kk ((hiff j kk hxd).mpr hj),
            fun hi j kk hj => hi j kk ((hiff j kk hxd).mp hj)⟩
  | untitled x k del a' hdel hs htitle' hsets =>
      by_cases hxd : x = d
      · subst hxd
        rw [h.payload del hdel, htitle] at htitle'
        exact absurd htitle' (by simp)
      · exact h.elsewhere hxd hdel hsets rfl rfl (.refl _ _)
  | aborted e owns reason a' hdel => exact h.aborted hw hdel
  | settled i x k out att del del' a' hatt hended howner hdel hr hsets =>
      exact h.settled hw htitle hatt hended howner hdel hr hsets horderly
  | stopped x del ending a' hdel hs hstop hsets =>
      by_cases hxd : x = d
      · subst hxd
        exact h.stoppedNow htitle hdel hstop hsets
      · have hne := h.others x del hxd hdel
        exact h.elsewhere hxd hdel hsets (by simp)
          (Publishes.stopped cfg.publisher n.publisher del.payload).attempts
          (.stopped cfg.publisher _ hne)
  | announced e row s hs =>
      refine h.apart ⟨rfl, fun i k att => ?_, fun _ => Iff.rfl, ?_⟩ h.others
      · unfold Owns
        rcases hs with rfl | rfl <;> rfl
      · rcases hs with rfl | rfl
        · exact .publish _ (by simp)
        · have hidle : Spares p.taskId n.publisher (n.publisher.setCurrent .idle none) :=
            .of_eq rfl rfl
          have hrow : Spares p.taskId (n.publisher.setCurrent .idle none)
              ((n.publisher.setCurrent .idle none).publish (some row) none) :=
            .publish _ (by simp)
          exact hidle.trans hrow

theorem shown_init (d : ℕ) (p : Payload) : Shown init d p where
  payload _ h := absurd h (by simp [init, Actor.init])
  others _ _ _ h := absurd h (by simp [init, Actor.init])
  marked h := absurd h (by simp [init, AgentStatePublisher.init, Marked])
  stops _ _ _ _ h := absurd h.1 (by simp [init])
  done _ h := absurd h (by simp [init, Actor.init])
  failed _ h := absurd h (by simp [init, Actor.init])
  stopped _ _ h := absurd h (by simp [init, Actor.init])
  reported _ _ h := absurd h (by simp [init, Actor.init])

/-- **The card agrees with the record**, in every state of a run in which the task of the
delivery is sent once, its title can be read, and every step is in order. -/
theorem card_agrees {es : List NodeEvent} {title : JsString} (htitle : taskTitle p = some title)
    (hsent : ∀ e ∈ es, SentOnce d p e) (hc : Steps.Along (step cfg) (Orderly d p) init es)
    (hrun : Steps.run (step cfg) init es = some n) : n.CardAgrees d p := by
  have hall : Shown n d p ∧ Wired n ∧ Actor.Each Delivery.Recorded n.actor := by
    refine Steps.run_invariant (C := fun n e => SentOnce d p e ∧ Orderly d p n e)
      (P := fun n => Shown n d p ∧ Wired n ∧ Actor.Each Delivery.Recorded n.actor) ?_
      ⟨shown_init d p, wired_init, Actor.each_init _⟩ ?_ hrun
    · rintro n e n' ⟨h, hw, hrec⟩ ⟨hs, ho⟩ hstep
      exact ⟨shown_step htitle h hw hrec hs ho hstep, wired_step hw hstep,
        recorded_step hrec hstep⟩
    · exact (Steps.along_of_mem es init hsent).and hc
  exact hall.1.agrees hall.2.2

/-! ### Two runs -/

def plainNode : AgentNodeConfig where
  actor := { Actor.plainConfig with hasStopHook := true }
  publisher := ⟨⟨js "writer", js "Writer", js "Author"⟩, none, none⟩
  wired := rfl

/-- The handler ignores an emergency stop, and answers after it was recorded. -/
def deafToStop : List NodeEvent :=
  [.deliver 0 Actor.plainTask false, .act 0 .start, .emergencyStop 0, .act 0 .resume,
    .act 0 (.published (.ok ())), .settles 1 (.returned (.ofJson (.str (js "done"))))]

theorem sentOnce_of_first {es : List NodeEvent} (h : ∀ e ∈ es, ∀ x q b, e ≠ .deliver x q b) :
    ∀ e ∈ .deliver d p false :: es, SentOnce d p e := by
  intro e he
  rcases List.mem_cons.mp he with rfl | hrest
  · exact ⟨fun _ => rfl, fun hne => absurd rfl hne⟩
  · cases e with
    | deliver x q b => exact absurd rfl (h _ hrest x q b)
    | _ => trivial

theorem card_agrees_stopped :
    ∃ n, Steps.run (step plainNode) init deafToStop = some n ∧ n.CardAgrees 0 Actor.plainTask := by
  obtain ⟨n, hrun⟩ : ∃ n, Steps.run (step plainNode) init deafToStop = some n := ⟨_, rfl⟩
  have htitle : taskTitle Actor.plainTask = some (js "task-1") := rfl
  refine ⟨n, hrun, card_agrees htitle (sentOnce_of_first ?_) ?_ hrun⟩
  · simp
  · refine ⟨trivial, fun n1 h1 => ⟨trivial, fun n2 h2 => ⟨trivial, fun n3 h3 => ⟨trivial,
      fun n4 h4 => ⟨?_, fun n5 h5 => ⟨?_, fun _ _ => trivial⟩⟩⟩⟩⟩⟩
    · obtain rfl := Option.some.inj h1
      obtain rfl := Option.some.inj h2
      obtain rfl := Option.some.inj h3
      obtain rfl := Option.some.inj h4
      intro _ del ending hdel hs hstop
      have hstage : Stage.recording (.rejected emergencyStopError) = .recording ending :=
        (congrArg Delivery.stage (Option.some.inj hdel)).trans hs
      obtain rfl := Stage.recording.inj hstage
      exact absurd hstop (by simp [Ending.isStop, emergencyStopError,
        NonRetryableError.isEmergencyStop])
    · obtain rfl := Option.some.inj h1
      obtain rfl := Option.some.inj h2
      obtain rfl := Option.some.inj h3
      obtain rfl := Option.some.inj h4
      obtain rfl := Option.some.inj h5
      intro k att hi _
      have haborted : some emergencyStopError = att.aborted :=
        congrArg Attempt.aborted (Option.some.inj hi.2)
      have hstop : (emergencyAbort att.aborted).isSome = true := by
        rw [← haborted]
        rfl
      exact ⟨fun _ => hstop, fun hno => absurd (.inl hstop) hno⟩

/-- The handler ignores its timeout. -/
def deafToTimeout : List NodeEvent :=
  [.deliver 0 Actor.plainTask false, .act 0 .start, .act 0 .timer, .act 0 .resume,
    .act 0 (.published (.ok ()))]

/-- The task is left at `DOING`, with its record published. -/
theorem timed_out_left_doing :
    ¬ ∀ (cfg : AgentNodeConfig) (es : List NodeEvent) (n : AgentNode) (d : ℕ) (p : Payload),
      (∀ e ∈ es, SentOnce d p e) → Steps.run (step cfg) init es = some n → n.CardAgrees d p := by
  intro h
  have hsent : ∀ e ∈ deafToTimeout, SentOnce 0 Actor.plainTask e :=
    sentOnce_of_first (by simp)
  obtain ⟨n, hrun⟩ : ∃ n, Steps.run (step plainNode) init deafToTimeout = some n := ⟨_, rfl⟩
  have hagrees := h plainNode deafToTimeout n 0 Actor.plainTask hsent hrun
  obtain rfl := Option.some.inj hrun
  obtain ⟨r, hlast, hcard⟩ := hagrees _ _ rfl rfl (by simp) (by simp) (by decide)
  have hdoing : some TaskStatus.doing = some r.status := hcard
  have hstatus : r.status = .doing := (Option.some.inj hdoing).symm
  unfold Record.status at hstatus
  split at hstatus
  · exact absurd hstatus (by simp)
  · split at hstatus
    · split at hstatus <;> exact absurd hstatus (by simp)
    · exact absurd hstatus (by simp)

end Kaiban.AgentNode
