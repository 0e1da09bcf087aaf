/-
How far the reported counts of aborted attempts can be trusted.

A stop aborts the attempts whose race is open and counts the attempts in flight.  An
attempt whose race is decided stays in flight until its continuation runs, so the two
differ by the decided ones the stop finds.  A stop is `Fresh` when it finds none.

The count of one stop is never too small, so over a run the sums agree only if they agree
at every stop: the totals are exact if and only if every stop of the run was fresh.
-/
import Kaiban.StopAcks
import Kaiban.Proofs.Actor.StopOrder
import Kaiban.Proofs.Control.Saved

open JsString

namespace Kaiban

variable {cfg : ActorConfig} {nc : StopNodeConfig}

/-- Two counts over one list, the first of fewer things, agree only if nothing is left out. -/
theorem countP_eq_iff {α : Type} {p q : α → Bool} {l : List α}
    (h : ∀ x ∈ l, q x = true → p x = true) :
    l.countP q = l.countP p ↔ ∀ x ∈ l, p x = true → q x = true := by
  induction l with
  | nil => simp
  | cons x rest ih =>
      have hrest := ih fun y hy => h y (List.mem_cons_of_mem x hy)
      have hle : rest.countP q ≤ rest.countP p :=
        List.countP_mono_left fun y hy => h y (List.mem_cons_of_mem x hy)
      rw [List.countP_cons, List.countP_cons, List.forall_mem_cons, ← hrest]
      cases hp : p x with
      | false =>
          have hq : q x = false := by
            by_contra hne
            rw [h x (List.mem_cons_self ..) (by simpa using hne)] at hp
            exact absurd hp (by simp)
          simp [hq]
      | true =>
          cases hq : q x with
          | true => simp
          | false =>
              simp only [if_true, Bool.false_eq_true, if_false, Nat.add_zero]
              constructor
              · intro heq
                omega
              · rintro ⟨habsurd, -⟩
                exact absurd (habsurd trivial) (by simp)

namespace Actor

/-! ### One stop -/

theorem decided_eq_some {s s' : Actor} {d : ℕ} {x : ℕ × ℕ} :
    decided s s' d = some x ↔ ∃ del del' out j, s.deliveries d = some del ∧
      s'.deliveries d = some del' ∧ del.stage = .running x.2 none ∧
      del'.stage = .running j (some out) ∧ x.1 = d := by
  unfold decided
  constructor
  · intro h
    split at h
    · rename_i k j out hs hs'
      obtain ⟨del, hdel, hstage⟩ := Option.map_eq_some_iff.mp hs
      obtain ⟨del', hdel', hstage'⟩ := Option.map_eq_some_iff.mp hs'
      obtain rfl := Option.some.inj h
      exact ⟨del, del', out, j, hdel, hdel', hstage, hstage', rfl⟩
    · exact absurd h (by simp)
  · rintro ⟨del, del', out, j, hdel, hdel', hstage, hstage', rfl⟩
    simp [hdel, hdel', hstage, hstage']

theorem decided_self (s : Actor) (d : ℕ) : decided s s d = none := by
  by_contra hne
  obtain ⟨x, hx⟩ := Option.ne_none_iff_exists'.mp hne
  obtain ⟨del, del', out, j, hdel, hdel', hstage, hstage', -⟩ := decided_eq_some.mp hx
  obtain rfl : del = del' := Option.some.inj (hdel.symm.trans hdel')
  rw [hstage] at hstage'
  exact absurd hstage' (by simp)

/-- An applied stop decides the race of a delivery in flight if it is open and the task was
sent by then. -/
theorem decided_applied {s s' : Actor} {t : Decimal} {r : EmergencyStopResult}
    (h : Applied s t s' r) {d : ℕ} (hin : d ∈ s.inFlight) :
    (decided s s' d).isSome = true ↔ ∃ del k, s.deliveries d = some del ∧
      s'.signals.sentBeforeStop del.payload = true ∧ del.stage = .running k none := by
  constructor
  · intro hsome
    obtain ⟨x, hx⟩ := Option.isSome_iff_exists.mp hsome
    obtain ⟨del, del', out, j, hdel, hdel', hstage, hstage', -⟩ := decided_eq_some.mp hx
    rcases h.delivery hdel with ⟨-, hsent, -⟩ | ⟨-, hsame⟩
    · exact ⟨del, x.2, hdel, hsent, hstage⟩
    · obtain rfl : del' = del := Option.some.inj (hdel'.symm.trans hsame)
      rw [hstage] at hstage'
      exact absurd hstage' (by simp)
  · rintro ⟨del, k, hdel, hsent, hstage⟩
    have hdecided : decided s s' d = some (d, k) := by
      rcases h.delivery hdel with ⟨-, -, habort⟩ | ⟨hspared, -⟩
      · rcases del.abort_cases emergencyStopError with ⟨j, -, heq⟩ | ⟨hno, -⟩
        · rw [heq] at habort
          exact decided_eq_some.mpr ⟨del, _, _, j, hdel, habort, hstage, rfl, rfl⟩
        · exact absurd hstage (hno k)
      · exact absurd ⟨hin, hsent⟩ hspared
    rw [hdecided]
    rfl

/-- A stop at `t` finds no attempt in flight whose race is decided, if it is applied. -/
def Fresh (s : Actor) (t : Decimal) : Prop :=
  (∀ u, s.signals.stoppedAt = some u → u < t) →
    ∀ d ∈ s.inFlight, ∀ del, s.deliveries d = some del → SentBy t del.payload →
      ∃ k, del.stage = .running k none

/-- **A stop counts every attempt it aborts, and only those if it is fresh.** -/
theorem killedBy_length (s : Actor) (t : Decimal) :
    (s.killedBy t).length ≤ (s.emergencyStop t).2.aborted ∧
      ((s.killedBy t).length = (s.emergencyStop t).2.aborted ↔ Fresh s t) := by
  unfold killedBy
  rw [List.length_filterMap_eq_countP]
  rcases s.emergencyStop_cases t with ⟨hnoop, u, hu, htu⟩ | happlied
  · rw [hnoop]
    have hnone : s.inFlight.countP (fun d => (decided s s d).isSome) = 0 := by
      simp [decided_self]
    refine ⟨hnone.le, fun _ hlater => ?_, fun _ => hnone⟩
    exact absurd (hlater u hu) (not_lt.mpr htu)
  · rw [happlied.aborted, ← List.countP_eq_length_filter]
    have hsub : ∀ d ∈ s.inFlight, (decided s (s.emergencyStop t).1 d).isSome = true →
        (s.deliveries d).any (s.stopped (s.emergencyStop t).1.signals d) = true := by
      intro d hin hd
      obtain ⟨del, k, hdel, hsent, -⟩ := (decided_applied happlied hin).mp hd
      simp [hdel, stopped, hin, hsent]
    have hlatest : (s.emergencyStop t).1.signals.stoppedAt = some t := by rw [happlied.signals]
    refine ⟨List.countP_mono_left hsub,
      (countP_eq_iff hsub).trans ⟨fun h _ d hin del hdel hsent => ?_,
      fun h d hin hd => ?_⟩⟩
    · have hstop : (s.emergencyStop t).1.signals.sentBeforeStop del.payload = true :=
        sentBeforeStop_of_sentBy ⟨t, hlatest, le_rfl⟩ hsent
      obtain ⟨del1, k, hdel1, -, hstage⟩ := (decided_applied happlied hin).mp
        (h d hin (by simp [hdel, stopped, hin, hstop]))
      obtain rfl : del = del1 := Option.some.inj (hdel.symm.trans hdel1)
      exact ⟨k, hstage⟩
    · cases hdel : s.deliveries d with
      | none => simp [hdel] at hd
      | some del =>
          have hstop : (s.emergencyStop t).1.signals.sentBeforeStop del.payload = true := by
            simpa [hdel, stopped, hin] using hd
          obtain ⟨k, hstage⟩ := h happlied.later d hin del hdel
            ((sentBeforeStop_iff hlatest del.payload).mp hstop)
          exact (decided_applied happlied hin).mpr ⟨del, k, hdel, hstop, hstage⟩

/-! ### The attempts in flight -/

/-- Each attempt in flight is there once, and its delivery has not gone on without it. -/
structure InFlightOk (s : Actor) : Prop where
  nodup : s.inFlight.Nodup
  running : ∀ d ∈ s.inFlight, ∃ del k race, s.deliveries d = some del ∧ del.stage = .running k race

theorem inFlightOk_act {s : Actor} {d : ℕ} {a : Act} {del del' : Delivery} (h : InFlightOk s)
    (hdel : s.deliveries d = some del) (hr : Reaction cfg s.signals del a del') :
    InFlightOk { s.setDelivery d del' with inFlight := track d a del' s.inFlight } := by
  have hothers : ∀ x ∈ s.inFlight, x ≠ d → ∃ delx k race,
      (s.setDelivery d del').deliveries x = some delx ∧ delx.stage = .running k race := by
    intro x hx hne
    obtain ⟨delx, k, race, hdelx, hstage⟩ := h.running x hx
    exact ⟨delx, k, race, (setDelivery_ne s del' hne).trans hdelx, hstage⟩
  have hself : ∀ {k : ℕ} {race : Option Outcome}, del'.stage = .running k race →
      ∃ delx k race, (s.setDelivery d del').deliveries d = some delx ∧
        delx.stage = .running k race :=
    fun hstage => ⟨del', _, _, setDelivery_self s d del', hstage⟩
  by_cases hrun : ∃ k race, del.stage = .running k race
  · by_cases hresume : a = .resume
    · -- the continuation takes the entry out
      subst hresume
      have hmem : ∀ x, x ∈ track d .resume del' s.inFlight ↔ x ∈ s.inFlight ∧ x ≠ d := by
        intro x
        simp [track]
      refine ⟨h.nodup.filter _, fun x hx => ?_⟩
      exact hothers x ((hmem x).mp hx).1 ((hmem x).mp hx).2
    · -- the race goes on, or it is decided
      obtain ⟨k, race, hstage⟩ := hrun
      obtain ⟨j, race', hstage', hstart⟩ :
          ∃ j race', del'.stage = .running j race' ∧ a ≠ .start := by
        cases hr with
        | settled j out hs => exact ⟨j, some out, rfl, by simp⟩
        | timedOut j hs => exact ⟨j, _, rfl, by simp⟩
        | late a ha =>
            refine ⟨k, race, hstage, ?_⟩
            rintro rfl
            rcases ha with ha | ⟨j, out, ha⟩ <;> exact absurd ha (by simp)
        | raced => exact absurd rfl hresume
        | _ => rename_i hs; rw [hstage] at hs; exact absurd hs (by simp)
      have htrack : track d a del' s.inFlight = s.inFlight := by
        unfold track
        split
        · exact absurd rfl hstart
        · exact absurd rfl hresume
        · rfl
      rw [htrack]
      refine ⟨h.nodup, fun x hx => ?_⟩
      by_cases hxd : x = d
      · rw [hxd]
        exact hself hstage'
      · exact hothers x hx hxd
  · -- the delivery was not in flight
    have hout : d ∉ s.inFlight := by
      intro hin
      obtain ⟨delx, k, race, hdelx, hstage⟩ := h.running d hin
      obtain rfl : del = delx := Option.some.inj (hdel.symm.trans hdelx)
      exact hrun ⟨k, race, hstage⟩
    unfold track
    split
    · rename_i k race hstage
      refine ⟨List.nodup_append.mpr ⟨h.nodup, by simp, ?_⟩, fun x hx => ?_⟩
      · rintro x hx y hy rfl
        rw [List.mem_singleton] at hy
        exact hout (hy ▸ hx)
      · rcases List.mem_append.mp hx with hx | hx
        · exact hothers x hx fun heq => hout (heq ▸ hx)
        · rw [List.mem_singleton.mp hx]
          exact hself hstage
    · refine ⟨h.nodup.filter _, fun x hx => ?_⟩
      have hx' := List.mem_of_mem_filter hx
      exact hothers x hx' fun heq => hout (heq ▸ hx')
    · exact ⟨h.nodup, fun x hx => hothers x hx fun heq => hout (heq ▸ hx)⟩

theorem inFlightOk_step {s s' : Actor} {e : ActorEvent} (hs : InFlightOk s)
    (h : s.step cfg e = some s') : InFlightOk s' := by
  cases e with
  | deliver d p b =>
      simp only [step] at h
      split at h
      · rename_i hnone
        obtain rfl := Option.some.inj h
        refine ⟨hs.nodup, fun x hx => ?_⟩
        obtain ⟨del, k, race, hdel, hstage⟩ := hs.running x hx
        refine ⟨del, k, race, (setDelivery_ne s _ fun heq => ?_).trans hdel, hstage⟩
        rw [heq, hnone] at hdel
        exact absurd hdel (by simp)
      · exact absurd h (by simp)
  | act d a =>
      simp only [step] at h
      split at h
      · exact absurd h (by simp)
      · rename_i del hdel
        obtain ⟨del', hr, rfl⟩ := Option.map_eq_some_iff.mp h
        exact inFlightOk_act hs hdel (Delivery.reaction hr)
  | emergencyStop t =>
      obtain rfl := Option.some.inj h
      rcases s.emergencyStop_cases t with ⟨hnoop, -⟩ | happlied
      · rw [hnoop]
        exact hs
      · refine ⟨happlied.inFlight ▸ hs.nodup, fun x hx => ?_⟩
        obtain ⟨del, k, race, hdel, hstage⟩ := hs.running x (happlied.inFlight ▸ hx)
        rcases happlied.delivery hdel with ⟨-, -, habort⟩ | ⟨-, hsame⟩
        · rcases del.abort_cases emergencyStopError with ⟨j, -, heq⟩ | ⟨-, heq⟩
          · exact ⟨_, j, _, habort, by rw [heq]; rfl⟩
          · exact ⟨del, k, race, heq ▸ habort, hstage⟩
        · exact ⟨del, k, race, hsame, hstage⟩
  | stop =>
      obtain rfl := Option.some.inj h
      exact ⟨List.nodup_nil, fun x hx => absurd hx (by simp [stop])⟩

/-! ### No attempt is aborted twice -/

/-- The race of an aborted attempt is never open again. -/
theorem Aftermath.not_racing {before del : Delivery} {k : ℕ} (h : Aftermath cfg before k del)
    (j : ℕ) : del.stage ≠ .running j none := by
  cases h <;> simp

theorem mem_killedBy (cfg : ActorConfig) {s : Actor} {t : Decimal} {x : ℕ × ℕ}
    (h : x ∈ s.killedBy t) :
    x.1 ∈ s.inFlight ∧ ∃ before, s.deliveries x.1 = some before ∧
      before.stage = .running x.2 none ∧
      ∃ del, (s.emergencyStop t).1.deliveries x.1 = some del ∧ Aftermath cfg before x.2 del := by
  obtain ⟨d, hin, hd⟩ := List.mem_filterMap.mp h
  obtain ⟨del, del', out, j, hdel, hdel', hstage, hstage', rfl⟩ := decided_eq_some.mp hd
  refine ⟨hin, del, hdel, hstage, del', hdel', ?_⟩
  rcases s.emergencyStop_cases t with ⟨hnoop, -⟩ | happlied
  · rw [hnoop, hdel, Option.some.injEq] at hdel'
    rw [← hdel', hstage] at hstage'
    exact absurd hstage' (by simp)
  · rcases happlied.delivery hdel with ⟨-, -, habort⟩ | ⟨-, hsame⟩
    · obtain rfl := Option.some.inj (hdel'.symm.trans habort)
      exact .of_racing hstage
    · obtain rfl := Option.some.inj (hdel'.symm.trans hsame)
      rw [hstage] at hstage'
      exact absurd hstage' (by simp)

/-- One stop aborts no attempt twice. -/
theorem nodup_killedBy {s : Actor} (h : InFlightOk s) (t : Decimal) : (s.killedBy t).Nodup := by
  refine h.nodup.filterMap fun d d' x hd hd' => ?_
  obtain ⟨-, -, -, -, -, -, -, -, rfl⟩ := decided_eq_some.mp hd
  obtain ⟨-, -, -, -, -, -, -, -, hsame⟩ := decided_eq_some.mp hd'
  exact hsame

end Actor

namespace StopNode

/-! ### Steps of the node -/

/-- **A step of the node is a command it handles or a step of its actor.** -/
theorem step_cases {s s' : StopNode} {e : StopNodeEvent} (h : s.step cfg nc e = some s') :
    (∃ cmd source, e = .onStop cmd source ∧ s' = s.onStop nc cmd source) ∨
      ∃ ae a, e = .actor ae ∧ s.actor.step cfg ae = some a ∧ s' = { s with actor := a } := by
  cases e with
  | onStop cmd source => exact .inl ⟨cmd, source, rfl, (Option.some.inj h).symm⟩
  | actor ae =>
      refine .inr ⟨ae, ?_⟩
      cases ae with
      | emergencyStop t => exact absurd h (by simp [step])
      | deliver d p b =>
          obtain ⟨a, ha, rfl⟩ := Option.map_eq_some_iff.mp h
          exact ⟨a, rfl, ha, rfl⟩
      | act d x =>
          obtain ⟨a, ha, rfl⟩ := Option.map_eq_some_iff.mp h
          exact ⟨a, rfl, ha, rfl⟩
      | stop => exact ⟨s.actor.stop, rfl, rfl, (Option.some.inj h).symm⟩

/-- A command is an emergency stop of the actor. -/
theorem onStop_actor (cfg : ActorConfig) (nc : StopNodeConfig) (s : StopNode)
    (cmd : StopAllCommand) (source : StopSource) :
    s.actor.step cfg (.emergencyStop (.ofInt cmd.issuedAt))
      = some (s.onStop nc cmd source).actor := rfl

/-! ### No attempt is killed twice -/

/-- Each attempt that was killed is in its aftermath, and was killed once. -/
structure Buried (cfg : ActorConfig) (s : StopNode) : Prop where
  inFlight : s.actor.InFlightOk
  aftermath : ∀ x ∈ s.killed.flatten, ∃ before del, s.actor.deliveries x.1 = some del ∧
    Actor.Aftermath cfg before x.2 del
  once : s.killed.flatten.Nodup

theorem buried_init : Buried cfg init :=
  ⟨⟨List.nodup_nil, fun _ h => absurd h (by simp [init, Actor.init])⟩,
    fun _ h => absurd h (by simp [init]), List.nodup_nil⟩

theorem buried_step {s s' : StopNode} {e : StopNodeEvent} (hs : Buried cfg s)
    (h : s.step cfg nc e = some s') : Buried cfg s' := by
  have hkept : ∀ {ae : ActorEvent} {a : Actor}, s.actor.step cfg ae = some a →
      ∀ x ∈ s.killed.flatten, ∃ before del, a.deliveries x.1 = some del ∧
        Actor.Aftermath cfg before x.2 del := by
    intro ae a ha x hx
    obtain ⟨before, del, hdel, hafter⟩ := hs.aftermath x hx
    exact ⟨before, Actor.aftermath_step ⟨del, hdel, hafter⟩ ha⟩
  rcases step_cases h with ⟨cmd, source, rfl, rfl⟩ | ⟨ae, a, rfl, ha, rfl⟩
  · have hstop := onStop_actor cfg nc s cmd source
    have hflat : (s.onStop nc cmd source).killed.flatten
        = s.killed.flatten ++ s.actor.killedBy (.ofInt cmd.issuedAt) := by
      simp [onStop]
    refine ⟨Actor.inFlightOk_step hs.inFlight hstop, fun x hx => ?_, ?_⟩
    · rw [hflat, List.mem_append] at hx
      rcases hx with hx | hx
      · exact hkept hstop x hx
      · obtain ⟨-, before, -, -, del, hdel, hafter⟩ := Actor.mem_killedBy cfg hx
        exact ⟨before, del, hdel, hafter⟩
    · rw [hflat]
      refine List.nodup_append.mpr ⟨hs.once, Actor.nodup_killedBy hs.inFlight _, ?_⟩
      rintro x hx y hy rfl
      obtain ⟨before, del, hdel, hafter⟩ := hs.aftermath x hx
      obtain ⟨-, old, hold, hracing, -⟩ := Actor.mem_killedBy cfg hy
      obtain rfl : del = old := Option.some.inj (hdel.symm.trans hold)
      exact hafter.not_racing x.2 hracing
  · exact ⟨Actor.inFlightOk_step hs.inFlight ha, hkept ha, hs.once⟩

/-! ### The counts -/

/-- The acknowledgements report what the results do. -/
theorem acks_step {s s' : StopNode} {e : StopNodeEvent} (hpub : nc.hasPublisher = true)
    (hs : (s.acks.map NodeAck.aborted).sum = (s.results.map EmergencyStopResult.aborted).sum)
    (h : s.step cfg nc e = some s') :
    (s'.acks.map NodeAck.aborted).sum = (s'.results.map EmergencyStopResult.aborted).sum := by
  rcases step_cases h with ⟨cmd, source, rfl, rfl⟩ | ⟨ae, a, rfl, ha, rfl⟩
  · simp only [onStop, List.map_append, List.map_cons, List.map_nil, List.sum_append,
      List.sum_cons, List.sum_nil, Nat.add_zero]
    split
    · rename_i hquiet
      rw [hquiet.2, hs, Nat.add_zero]
    · simp [hs, ackOf]
  · exact hs

/-- The event is no command, or one whose stop is fresh. -/
def FreshStop (s : StopNode) : StopNodeEvent → Prop
  | .onStop cmd _ => s.actor.Fresh (.ofInt cmd.issuedAt)
  | .actor _ => True

/-- **Over a run the results count at least the attempts that were killed, and exactly
these if and only if every stop was fresh.** -/
theorem counts_run {es : List StopNodeEvent} :
    ∀ {s t : StopNode}, Steps.run (step cfg nc) s es = some t →
      ∃ rs ks, t.results = s.results ++ rs ∧ t.killed = s.killed ++ ks ∧
        (ks.map List.length).sum ≤ (rs.map EmergencyStopResult.aborted).sum ∧
        ((rs.map EmergencyStopResult.aborted).sum = (ks.map List.length).sum →
          Steps.Along (step cfg nc) FreshStop s es) ∧
        (Steps.Along (step cfg nc) FreshStop s es →
          rs.map EmergencyStopResult.aborted = ks.map List.length) := by
  induction es with
  | nil =>
      intro s t hrun
      obtain rfl : s = t := by simpa using hrun
      exact ⟨[], [], by simp, by simp, le_rfl, fun _ => trivial, fun _ => rfl⟩
  | cons e rest ih =>
      intro s t hrun
      obtain ⟨m, hm, hrest⟩ := Steps.run_cons_some.mp hrun
      obtain ⟨rs, ks, hrs, hks, hle, hexact, hfresh⟩ := ih hrest
      have hagain : ∀ {P : Prop}, P → Steps.Along (step cfg nc) FreshStop m rest →
          P ∧ ∀ s', s.step cfg nc e = some s' → Steps.Along (step cfg nc) FreshStop s' rest := by
        intro P hp halong
        refine ⟨hp, fun s' hs' => ?_⟩
        rw [← Option.some.inj (hm.symm.trans hs')]
        exact halong
      rcases step_cases hm with ⟨cmd, source, rfl, rfl⟩ | ⟨ae, a, rfl, ha, rfl⟩
      · obtain ⟨hone, honeIff⟩ := s.actor.killedBy_length (.ofInt cmd.issuedAt)
        refine ⟨(s.actor.emergencyStop (.ofInt cmd.issuedAt)).2 :: rs,
          s.actor.killedBy (.ofInt cmd.issuedAt) :: ks, by simp [hrs, onStop],
          by simp [hks, onStop], ?_, fun heq => ?_, fun halong => ?_⟩
        · simp only [List.map_cons, List.sum_cons]
          omega
        · simp only [List.map_cons, List.sum_cons] at heq
          exact hagain (honeIff.mp (by omega)) (hexact (by omega))
        · rw [List.map_cons, List.map_cons, honeIff.mpr halong.1, hfresh (halong.2 _ hm)]
      · exact ⟨rs, ks, hrs, hks, hle, fun heq => hagain trivial (hexact heq),
          fun halong => hfresh (halong.2 _ hm)⟩

/-- The counts a node reports are exact: together they are the number of distinct attempts
an emergency stop aborted, and each command reports those it aborted itself. -/
structure CountsExact (nc : StopNodeConfig) (s : StopNode) : Prop where
  results : (s.results.map EmergencyStopResult.aborted).sum = s.killed.flatten.toFinset.card
  acks : nc.hasPublisher = true →
    (s.acks.map NodeAck.aborted).sum = s.killed.flatten.toFinset.card
  each : s.results.map EmergencyStopResult.aborted = s.killed.map List.length
  once : s.killed.flatten.Nodup

/-- **Reported kill counts are exact in the runs whose stops are all fresh, and in no
others.** -/
theorem killCounts_exact (cfg : ActorConfig) (nc : StopNodeConfig) (es : List StopNodeEvent)
    (s : StopNode) (hrun : Steps.run (step cfg nc) init es = some s) :
    CountsExact nc s ↔ Steps.Along (step cfg nc) FreshStop init es := by
  have hburied : Buried cfg s :=
    Steps.invariant (P := Buried cfg) (fun _ _ _ => buried_step) buried_init hrun
  have hacks : nc.hasPublisher = true → (s.acks.map NodeAck.aborted).sum
      = (s.results.map EmergencyStopResult.aborted).sum := fun hpub =>
    Steps.invariant (P := fun s : StopNode => (s.acks.map NodeAck.aborted).sum
      = (s.results.map EmergencyStopResult.aborted).sum) (fun _ _ _ => acks_step hpub) rfl hrun
  have hcard : s.killed.flatten.toFinset.card = (s.killed.map List.length).sum := by
    rw [List.toFinset_card_of_nodup hburied.once, List.length_flatten]
  obtain ⟨rs, ks, hrs, hks, -, hexact, hfresh⟩ := counts_run hrun
  obtain rfl : s.results = rs := hrs
  obtain rfl : s.killed = ks := hks
  constructor
  · intro h
    exact hexact (h.results.trans hcard)
  · intro halong
    have hsum : (s.results.map EmergencyStopResult.aborted).sum
        = s.killed.flatten.toFinset.card := by
      rw [hcard, hfresh halong]
    exact ⟨hsum, fun hpub => (hacks hpub).trans hsum, hfresh halong, hburied.once⟩

/-! ### Two commands before the event loop gets back -/

def worker : StopNodeConfig := ⟨true, js "host:1", js "writer"⟩

/-- A task begins to run. -/
def taskRuns : List StopNodeEvent :=
  [.actor (.deliver 0 Actor.plainTask false), .actor (.act 0 .start)]

theorem safe_one : 0 < 1 ∧ 1 ≤ 9007199254740991 := by decide

theorem safe_two : 0 < 2 ∧ 2 ≤ 9007199254740991 := by decide

def firstStop : StopNodeEvent := .onStop (stopAt 1 safe_one) .live

def secondStop : StopNodeEvent := .onStop (stopAt 2 safe_two) .live

/-- The node after some events. -/
def nodeAfter (es : List StopNodeEvent) : StopNode :=
  (Steps.run (step Actor.plainConfig worker) init es).getD init

theorem run_nodeAfter (es : List StopNodeEvent)
    (h : (Steps.run (step Actor.plainConfig worker) init es).isSome = true) :
    Steps.run (step Actor.plainConfig worker) init es = some (nodeAfter es) := by
  obtain ⟨s, hs⟩ := Option.isSome_iff_exists.mp h
  unfold nodeAfter
  rw [hs]
  rfl

/-- The aborted task goes on before the second command comes. -/
def spacedStops : List StopNodeEvent :=
  taskRuns ++ [firstStop, .actor (.act 0 .resume), secondStop]

/-- The second command follows at once. -/
def hastyStops : List StopNodeEvent := taskRuns ++ [firstStop, secondStop]

theorem killCounts_exact_spaced :
    CountsExact worker (nodeAfter spacedStops) ∧
      (nodeAfter spacedStops).killed = [[(0, 1)], []] ∧
      Steps.Along (step Actor.plainConfig worker) FreshStop init spacedStops := by
  have hexact : CountsExact worker (nodeAfter spacedStops) :=
    ⟨by decide +kernel, fun _ => by decide +kernel, by decide +kernel, by decide +kernel⟩
  have hrun := run_nodeAfter spacedStops (by decide +kernel)
  exact ⟨hexact, by decide +kernel,
    (killCounts_exact Actor.plainConfig worker spacedStops _ hrun).mp hexact⟩

/-- **Two commands one after the other count the same task twice.** -/
theorem second_stop_counts_again :
    Steps.run (step Actor.plainConfig worker) init hastyStops = some (nodeAfter hastyStops) ∧
      (nodeAfter hastyStops).killed.flatten = [(0, 1)] ∧
      ((nodeAfter hastyStops).results.map EmergencyStopResult.aborted).sum = 2 ∧
      ((nodeAfter hastyStops).acks.map NodeAck.aborted).sum = 2 ∧
      ¬ CountsExact worker (nodeAfter hastyStops) := by
  have hkilled : (nodeAfter hastyStops).killed.flatten = [(0, 1)] := by decide +kernel
  have hsum : ((nodeAfter hastyStops).results.map EmergencyStopResult.aborted).sum = 2 := by
    decide +kernel
  refine ⟨run_nodeAfter hastyStops (by decide +kernel), hkilled, hsum, by decide +kernel,
    fun h => ?_⟩
  have hcard := h.results
  rw [hsum, hkilled] at hcard
  exact absurd hcard (by decide)

end StopNode

end Kaiban
