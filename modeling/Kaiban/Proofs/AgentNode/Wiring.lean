/-
How the actor and the publisher of a node fit together.

Each attempt of the wrapper belongs to one attempt of one delivery.  The race of that
attempt is open exactly as long as the wrapper's attempt is neither ended nor aborted, and
it is the newest one of its delivery.
-/
import Kaiban.Proofs.AgentNode.Moves
import Kaiban.Proofs.Actor.EmergencyStop

open JsString

namespace Kaiban

/-- The attempt `k` of a delivery in this stage was begun at some time, or may have been. -/
def Stage.Reached (k : ℕ) : Stage → Prop
  | .firewall => False
  | .gate => False
  | .starting j => k < j
  | .running j _ => k ≤ j
  | .publishing j => k ≤ j
  | .backoff j => k ≤ j
  | .recording _ => True
  | .ended _ => True

theorem Reaction.reached {cfg : ActorConfig} {sig : Signals} {del del' : Delivery} {a : Act}
    {k : ℕ} (h : Reaction cfg sig del a del') (hk : del.stage.Reached k) :
    del'.stage.Reached k := by
  have hcaught : ∀ (del : Delivery) (j : ℕ) (err : Thrown), k ≤ j →
      (del.caught cfg sig j err).stage.Reached k := by
    intro del j err hj
    rcases del.caught_cases j err with
      ⟨e, -, h⟩ | ⟨-, -, h⟩ | ⟨t, -, -, -, h⟩ | ⟨t, -, -, -, h⟩
    · rw [h]
      trivial
    · rw [h]
      trivial
    · rw [h]
      exact hj
    · rw [h]
      trivial
  cases h with
  | passedFirewall v hv hs => exact absurd hk (by simp [hs, Stage.Reached])
  | blockedByFirewall v hv hs => trivial
  | firewallThrew e hs => trivial
  | passedGate v hv hs => exact absurd hk (by simp [hs, Stage.Reached])
  | blockedByGate v hv hs => trivial
  | gateThrew e hs => trivial
  | started j hs =>
      rw [hs] at hk
      rcases del.startAttempt_cases j with ⟨e, -, h⟩ | ⟨-, h⟩
      · rw [h]
        trivial
      · rw [h]
        exact le_of_lt hk
  | settled j out hs =>
      rw [hs] at hk
      exact hk
  | late a ha => exact hk
  | timedOut j hs =>
      rw [hs] at hk
      exact hk
  | raced j out hs =>
      rw [hs] at hk
      rcases del.attemptEnded_cases j out with ⟨e, -, h⟩ | ⟨v, e, -, -, h⟩ | ⟨v, data, -, -, h⟩
      · rw [h]
        exact hcaught _ _ _ hk
      · rw [h]
        exact hcaught _ _ _ hk
      · rw [h]
        exact hk
  | completed j hs => trivial
  | notCompleted j e hs =>
      rw [hs] at hk
      exact hcaught _ _ _ hk
  | recorded ending hs => trivial
  | notRecorded ending e hs => trivial
  | delayed j hs =>
      rw [hs] at hk
      exact Nat.lt_succ_of_le hk

theorem Delivery.abort_reached {del : Delivery} {k : ℕ} (e : NonRetryableError)
    (hk : del.stage.Reached k) : (del.abort e).stage.Reached k := by
  rcases del.abort_cases e with ⟨j, hs, h⟩ | ⟨-, h⟩
  · rw [hs] at hk
    rw [h]
    exact hk
  · rw [h]
    exact hk

namespace AgentNode

variable {cfg : AgentNodeConfig} {n n' : AgentNode}

/-- The wrapper's attempt `i` belongs to attempt `k` of the delivery. -/
def Owns (n : AgentNode) (d i k : ℕ) (att : Attempt) : Prop :=
  n.owner i = some (d, k) ∧ n.publisher.attempts i = some att

/-- No attempt of the delivery is newer. -/
def Newest (n : AgentNode) (d i : ℕ) : Prop := ∀ j k, n.owner j = some (d, k) → j ≤ i

/-- The wrapper's attempts belong to the attempts of the actor, and an attempt whose race
is open is the newest of its delivery, neither ended nor aborted. -/
structure Wired (n : AgentNode) : Prop where
  numbered : ∀ i att, n.publisher.attempts i = some att → i ≤ n.publisher.attemptSeq
  owned : ∀ i att, n.publisher.attempts i = some att → ∃ d k del,
    n.owner i = some (d, k) ∧ n.actor.deliveries d = some del ∧ att.payload = del.payload
  owners : ∀ i d k, n.owner i = some (d, k) → ∃ att, n.publisher.attempts i = some att
  distinct : ∀ i j d k, n.owner i = some (d, k) → n.owner j = some (d, k) → i = j
  reached : ∀ i d k del, n.owner i = some (d, k) → n.actor.deliveries d = some del →
    del.stage.Reached k
  current : ∀ c, n.publisher.currentTaskId = some c → ∃ att,
    n.publisher.attempts n.publisher.attemptSeq = some att ∧ att.payload.taskId = c
  open_ : ∀ d del k, n.actor.deliveries d = some del → del.stage = .running k none → ∃ i att,
    n.Owns d i k att ∧ att.ended = none ∧ att.aborted = none ∧ n.Newest d i
  racing : ∀ d i k att del, n.Owns d i k att → att.ended = none → att.aborted = none →
    n.actor.deliveries d = some del → del.stage = .running k none

theorem wired_init : Wired init where
  numbered _ _ h := absurd h (by simp [init, AgentStatePublisher.init])
  owned _ _ h := absurd h (by simp [init, AgentStatePublisher.init])
  owners _ _ _ h := absurd h (by simp [init])
  distinct _ _ _ _ h := absurd h (by simp [init])
  reached _ _ _ _ h := absurd h (by simp [init])
  current _ h := absurd h (by simp [init, AgentStatePublisher.init])
  open_ _ _ _ h := absurd h (by simp [init, Actor.init])
  racing _ _ _ _ _ h := absurd h.1 (by simp [init])

/-! ### Reactions of the actor alone -/

/-- The deliveries stay, with the same open races. -/
structure SameRaces (a a' : Actor) : Prop where
  kept : ∀ d del, a.deliveries d = some del → ∃ del', a'.deliveries d = some del' ∧
    del'.payload = del.payload ∧ (∀ k, del.stage.Reached k → del'.stage.Reached k) ∧
    ∀ k, del'.stage = .running k none ↔ del.stage = .running k none
  new : ∀ d del', a'.deliveries d = some del' → a.deliveries d = none →
    ∀ k, del'.stage ≠ .running k none

theorem Wired.actor (h : Wired n) {a : Actor} (ha : SameRaces n.actor a) :
    Wired { n with actor := a } where
  numbered := h.numbered
  owned i att hi := by
    obtain ⟨d, k, del, hd, hdel, hp⟩ := h.owned i att hi
    obtain ⟨del', hdel', hpayload, -⟩ := ha.kept d del hdel
    exact ⟨d, k, del', hd, hdel', hp.trans hpayload.symm⟩
  owners := h.owners
  distinct := h.distinct
  reached i d k del' hi hdel' := by
    obtain ⟨att, hatt⟩ := h.owners i d k hi
    obtain ⟨d', k', del, hd, hdel, -⟩ := h.owned i att hatt
    obtain ⟨rfl, rfl⟩ := Prod.mk.inj (Option.some.inj (hi.symm.trans hd))
    obtain ⟨del'', hdel'', -, hreached, -⟩ := ha.kept d del hdel
    obtain rfl : del'' = del' := Option.some.inj (hdel''.symm.trans hdel')
    exact hreached k (h.reached i d k del hi hdel)
  current := h.current
  open_ d del' k hdel' hs := by
    cases hdel : n.actor.deliveries d with
    | none => exact absurd hs (ha.new d del' hdel' hdel k)
    | some del =>
        obtain ⟨del'', hdel'', -, -, hiff⟩ := ha.kept d del hdel
        obtain rfl : del'' = del' := Option.some.inj (hdel''.symm.trans hdel')
        exact h.open_ d del k hdel ((hiff k).mp hs)
  racing d i k att del' hi hended haborted hdel' := by
    obtain ⟨d', k', del, hd, hdel, -⟩ := h.owned i att hi.2
    obtain ⟨rfl, rfl⟩ := Prod.mk.inj (Option.some.inj (hi.1.symm.trans hd))
    obtain ⟨del'', hdel'', -, -, hiff⟩ := ha.kept d del hdel
    obtain rfl : del'' = del' := Option.some.inj (hdel''.symm.trans hdel')
    exact (hiff k).mpr (h.racing d i k att del hi hended haborted hdel)

theorem SameRaces.sets {a a' : Actor} {d : ℕ} {del del' : Delivery}
    (hdel : a.deliveries d = some del) (hsets : a.Sets d del' a')
    (hpayload : del'.payload = del.payload)
    (hreached : ∀ k, del.stage.Reached k → del'.stage.Reached k) (hrace : SameRace del del') :
    SameRaces a a' where
  kept x old hx := by
    by_cases hxd : x = d
    · subst hxd
      obtain rfl : del = old := Option.some.inj (hdel.symm.trans hx)
      exact ⟨del', hsets.1, hpayload, hreached, hrace⟩
    · exact ⟨old, (hsets.2 x hxd).trans hx, rfl, fun _ => id, fun _ => Iff.rfl⟩
  new x new' hx hnone := by
    by_cases hxd : x = d
    · subst hxd
      exact absurd (hdel.symm.trans hnone) (by simp)
    · exact absurd (((hsets.2 x hxd).symm.trans hx).symm.trans hnone) (by simp)

theorem SameRaces.arrived {cfg : ActorConfig} {a a' : Actor} {d : ℕ} {p : Payload} {b : Bool}
    (hnone : a.deliveries d = none) (hsets : a.Sets d (processTask cfg a.signals p b) a') :
    SameRaces a a' where
  kept x old hx := by
    have hxd : x ≠ d := by
      rintro rfl
      exact absurd (hnone.symm.trans hx) (by simp)
    exact ⟨old, (hsets.2 x hxd).trans hx, rfl, fun _ => id, fun _ => Iff.rfl⟩
  new x new' hx hold k := by
    by_cases hxd : x = d
    · subst hxd
      obtain rfl := Option.some.inj (hsets.1.symm.trans hx)
      exact Actor.processTask_not_racing a.signals p b k
    · exact absurd (((hsets.2 x hxd).symm.trans hx).symm.trans hold) (by simp)

/-! ### Reactions of the publisher alone -/

theorem Wired.publishes (h : Wired n) {s : AgentStatePublisher}
    (hp : AgentStatePublisher.Publishes n.publisher s)
    (hc : AgentStatePublisher.Clears n.publisher s) : Wired { n with publisher := s } where
  numbered i att hi := by
    show i ≤ s.attemptSeq
    rw [hp.attemptSeq]
    exact h.numbered i att (hp.attempts ▸ hi)
  owned i att hi := h.owned i att (hp.attempts ▸ hi)
  owners i d k hi := by
    obtain ⟨att, hatt⟩ := h.owners i d k hi
    exact ⟨att, (congrFun hp.attempts i).trans hatt⟩
  distinct := h.distinct
  reached := h.reached
  current c hcurrent := by
    obtain ⟨att, hatt, htask⟩ := h.current c (hc c hcurrent)
    refine ⟨att, ?_, htask⟩
    show s.attempts s.attemptSeq = some att
    rw [hp.attemptSeq, hp.attempts]
    exact hatt
  open_ d del k hdel hs := by
    obtain ⟨i, att, ⟨howner, hatt⟩, hrest⟩ := h.open_ d del k hdel hs
    exact ⟨i, att, ⟨howner, (congrFun hp.attempts i).trans hatt⟩, hrest⟩
  racing d i k att del hi :=
    h.racing d i k att del ⟨hi.1, (congrFun hp.attempts i).symm.trans hi.2⟩

/-! ### Reactions of both -/

/-- The attempts keep their payloads, and the deliveries theirs. -/
structure Keeps (n n' : AgentNode) : Prop where
  owner : n'.owner = n.owner
  attemptSeq : n'.publisher.attemptSeq = n.publisher.attemptSeq
  current : n'.publisher.currentTaskId = n.publisher.currentTaskId
  attempts : ∀ i, (n'.publisher.attempts i).map Attempt.payload
    = (n.publisher.attempts i).map Attempt.payload
  deliveries : ∀ d del, n.actor.deliveries d = some del → ∃ del',
    n'.actor.deliveries d = some del' ∧ del'.payload = del.payload ∧
      ∀ k, del.stage.Reached k → del'.stage.Reached k

theorem Keeps.attempt (h : Keeps n n') {i : ℕ} {att : Attempt}
    (hatt : n'.publisher.attempts i = some att) :
    ∃ old, n.publisher.attempts i = some old ∧ att.payload = old.payload := by
  have hmap := h.attempts i
  rw [hatt] at hmap
  obtain ⟨old, hold, heq⟩ := Option.map_eq_some_iff.mp hmap.symm
  exact ⟨old, hold, heq.symm⟩

theorem Keeps.kept (h : Keeps n n') {i : ℕ} {att : Attempt}
    (hatt : n.publisher.attempts i = some att) :
    ∃ att', n'.publisher.attempts i = some att' ∧ att'.payload = att.payload := by
  have hmap := h.attempts i
  rw [hatt] at hmap
  obtain ⟨att', hatt', heq⟩ := Option.map_eq_some_iff.mp hmap
  exact ⟨att', hatt', heq⟩

/-- Only the races are left to show. -/
theorem Wired.keeps (h : Wired n) (hk : Keeps n n')
    (hopen : ∀ d del k, n'.actor.deliveries d = some del → del.stage = .running k none →
      ∃ i att, n'.Owns d i k att ∧ att.ended = none ∧ att.aborted = none ∧ n'.Newest d i)
    (hracing : ∀ d i k att del, n'.Owns d i k att → att.ended = none → att.aborted = none →
      n'.actor.deliveries d = some del → del.stage = .running k none) : Wired n' where
  numbered i att hi := by
    obtain ⟨old, hold, -⟩ := hk.attempt hi
    rw [hk.attemptSeq]
    exact h.numbered i old hold
  owned i att hi := by
    obtain ⟨old, hold, hpayload⟩ := hk.attempt hi
    obtain ⟨d, k, del, hd, hdel, hp⟩ := h.owned i old hold
    obtain ⟨del', hdel', hp', -⟩ := hk.deliveries d del hdel
    exact ⟨d, k, del', hk.owner ▸ hd, hdel', hpayload.trans (hp.trans hp'.symm)⟩
  owners i d k hi := by
    obtain ⟨att, hatt⟩ := h.owners i d k (hk.owner ▸ hi)
    obtain ⟨att', hatt', -⟩ := hk.kept hatt
    exact ⟨att', hatt'⟩
  distinct i j d k hi hj := h.distinct i j d k (hk.owner ▸ hi) (hk.owner ▸ hj)
  reached i d k del' hi hdel' := by
    have hi' : n.owner i = some (d, k) := hk.owner ▸ hi
    obtain ⟨att, hatt⟩ := h.owners i d k hi'
    obtain ⟨d', k', del, hd, hdel, -⟩ := h.owned i att hatt
    obtain ⟨rfl, rfl⟩ := Prod.mk.inj (Option.some.inj (hi'.symm.trans hd))
    obtain ⟨del'', hdel'', -, hreached⟩ := hk.deliveries d del hdel
    obtain rfl : del'' = del' := Option.some.inj (hdel''.symm.trans hdel')
    exact hreached k (h.reached i d k del hi' hdel)
  current c hc := by
    rw [hk.current] at hc
    obtain ⟨att, hatt, htask⟩ := h.current c hc
    obtain ⟨att', hatt', hpayload⟩ := hk.kept hatt
    rw [hk.attemptSeq]
    exact ⟨att', hatt', hpayload ▸ htask⟩
  open_ := hopen
  racing := hracing

theorem aborting_some {s : AgentStatePublisher} {is : List ℕ} {reason : NonRetryableError}
    {i : ℕ} {att : Attempt} (h : (aborting s is reason).attempts i = some att) :
    ∃ old, s.attempts i = some old ∧
      att = if i ∈ is then { old with aborted := old.aborted.or (some reason) } else old := by
  obtain ⟨old, hold, heq⟩ := Option.map_eq_some_iff.mp h
  exact ⟨old, hold, heq.symm⟩

/-- An abort decides the races of the attempts it is for. -/
theorem Wired.aborted (h : Wired n) {owns : ℕ → Bool} {reason : NonRetryableError} {a' : Actor}
    (hdel : ∀ d, a'.deliveries d = (n.actor.deliveries d).map fun del =>
      if owns d then del.abort reason else del) :
    Wired ⟨a', aborting n.publisher (n.attemptsOf owns) reason, n.owner⟩ := by
  have hback : ∀ d del', a'.deliveries d = some del' → ∃ del, n.actor.deliveries d = some del ∧
      del' = if owns d then del.abort reason else del := by
    intro d del' hd
    rw [hdel d] at hd
    obtain ⟨del, hold, heq⟩ := Option.map_eq_some_iff.mp hd
    exact ⟨del, hold, heq.symm⟩
  refine h.keeps ⟨rfl, rfl, rfl, fun i => ?_, fun d del hd => ?_⟩ ?_ ?_
  · show ((n.publisher.attempts i).map _).map Attempt.payload = _
    rw [Option.map_map]
    congr 1
    funext att
    show (if i ∈ n.attemptsOf owns then _ else att).payload = att.payload
    split <;> rfl
  · refine ⟨_, by rw [hdel d, hd]; rfl, ?_⟩
    split
    · exact ⟨del.abort_payload reason, fun k => Delivery.abort_reached reason⟩
    · exact ⟨rfl, fun _ => id⟩
  · intro d del' k hd' hs
    obtain ⟨del, hd, rfl⟩ := hback d del' hd'
    cases howns : owns d with
    | true =>
        rw [howns] at hs
        exact absurd hs (Actor.abort_not_racing del reason k)
    | false =>
        rw [howns] at hs
        obtain ⟨i, att, ⟨howner, hatt⟩, hrest⟩ := h.open_ d del k hd hs
        have hout : i ∉ n.attemptsOf owns := by
          intro hmem
          obtain ⟨-, d', k', howner', howns', -⟩ := mem_attemptsOf.mp hmem
          obtain ⟨rfl, -⟩ := Prod.mk.inj (Option.some.inj (howner.symm.trans howner'))
          exact absurd (howns.symm.trans howns') (by simp)
        refine ⟨i, att, ⟨howner, ?_⟩, hrest⟩
        show (n.publisher.attempts i).map _ = some att
        rw [hatt, Option.map_some, if_neg hout]
  · intro d i k att' del' hi hended haborted hd'
    obtain ⟨att, hatt, rfl⟩ := aborting_some hi.2
    obtain ⟨del, hd, rfl⟩ := hback d del' hd'
    by_cases hmem : i ∈ n.attemptsOf owns
    · rw [if_pos hmem] at haborted
      cases hold : att.aborted <;> simp [hold] at haborted
    · rw [if_neg hmem] at hended haborted
      have hs := h.racing d i k att del ⟨hi.1, hatt⟩ hended haborted hd
      have howns : owns d = false := by
        by_contra hne
        refine hmem (mem_attemptsOf.mpr ⟨h.numbered i att hatt, d, k, hi.1, by simpa using hne, ?_⟩)
        exact runningAttempt_eq_some.mpr ⟨del, none, hd, hs⟩
      rw [howns]
      exact hs

/-- The end of an attempt closes its race. -/
theorem Wired.ended (h : Wired n) {i d k : ℕ} {att : Attempt} {out : Outcome} {del del' : Delivery}
    {a' : Actor} (hatt : n.publisher.attempts i = some att) (howner : n.owner i = some (d, k))
    (hdel : n.actor.deliveries d = some del)
    (hr : (del.stage = .running k none ∧ del' = del.goto (.running k (some out))) ∨
      (del.stage ≠ .running k none ∧ del' = del)) (hsets : n.actor.Sets d del' a') :
    Wired ⟨a', n.publisher.setAttempt i { att with ended := some out }, n.owner⟩ := by
  have hother : ∀ j, j ≠ i →
      (n.publisher.setAttempt i { att with ended := some out }).attempts j
        = n.publisher.attempts j :=
    fun j hj => if_neg hj
  refine h.keeps ⟨rfl, rfl, rfl, fun j => ?_, fun x old hx => ?_⟩ ?_ ?_
  · by_cases hj : j = i
    · subst hj
      show Option.map _ (if j = j then _ else _) = _
      rw [if_pos rfl, hatt]
      rfl
    · exact congrArg _ (hother j hj)
  · by_cases hxd : x = d
    · subst hxd
      obtain rfl : del = old := Option.some.inj (hdel.symm.trans hx)
      refine ⟨del', hsets.1, ?_⟩
      rcases hr with ⟨hs, rfl⟩ | ⟨-, rfl⟩
      · refine ⟨rfl, fun j hj => ?_⟩
        rw [hs] at hj
        exact hj
      · exact ⟨rfl, fun _ => id⟩
    · exact ⟨old, (hsets.2 x hxd).trans hx, rfl, fun _ => id⟩
  · -- A race that is still open is that of another attempt.
    intro x new kk hx hs
    obtain ⟨old, hold, hs', hne⟩ : ∃ old, n.actor.deliveries x = some old ∧
        old.stage = .running kk none ∧ n.owner i ≠ some (x, kk) := by
      by_cases hxd : x = d
      · subst hxd
        obtain rfl : del' = new := Option.some.inj (hsets.1.symm.trans hx)
        rcases hr with ⟨-, rfl⟩ | ⟨hne, rfl⟩
        · exact absurd hs (by simp)
        · refine ⟨del', hdel, hs, fun hi => ?_⟩
          obtain ⟨-, rfl⟩ := Prod.mk.inj (Option.some.inj (howner.symm.trans hi))
          exact hne hs
      · refine ⟨new, (hsets.2 x hxd).symm.trans hx, hs, fun hi => ?_⟩
        exact hxd (Prod.mk.inj (Option.some.inj (howner.symm.trans hi))).1.symm
    obtain ⟨j, a, ⟨hj, hja⟩, hrest⟩ := h.open_ x old kk hold hs'
    have hji : j ≠ i := by
      rintro rfl
      exact hne hj
    exact ⟨j, a, ⟨hj, (hother j hji).trans hja⟩, hrest⟩
  · intro x j kk a new hj hended haborted hx
    by_cases hji : j = i
    · subst hji
      have hset : (n.publisher.setAttempt j { att with ended := some out }).attempts j
          = some { att with ended := some out } := if_pos rfl
      obtain rfl := Option.some.inj (hset.symm.trans hj.2)
      exact absurd hended (by simp)
    · have hja : n.publisher.attempts j = some a := (hother j hji).symm.trans hj.2
      by_cases hxd : x = d
      · subst hxd
        obtain rfl : del' = new := Option.some.inj (hsets.1.symm.trans hx)
        have hs := h.racing x j kk a del ⟨hj.1, hja⟩ hended haborted hdel
        rcases hr with ⟨hs', -⟩ | ⟨-, rfl⟩
        · obtain rfl : k = kk := by simpa [hs] using hs'.symm
          exact absurd (h.distinct j i x k hj.1 howner) hji
        · exact hs
      · exact h.racing x j kk a new ⟨hj.1, hja⟩ hended haborted ((hsets.2 x hxd).symm.trans hx)

/-- A new attempt is the newest of its delivery. -/
theorem Wired.invoked (h : Wired n) {d k : ℕ} {del : Delivery} {title : JsString}
    {t : AgentStatePublisher} {ended : Option Outcome} {a' : Actor}
    (hdel : n.actor.deliveries d = some del) (hs : del.stage = .starting k)
    (hcases : AgentStatePublisher.Invoked n.publisher del.payload title t)
    (hatt : t.attempts (n.publisher.attemptSeq + 1) = some ⟨del.payload, title, none, ended⟩)
    (hseq : t.attemptSeq = n.publisher.attemptSeq + 1)
    (hold : ∀ i, i ≠ n.publisher.attemptSeq + 1 → t.attempts i = n.publisher.attempts i)
    (hsets : n.actor.Sets d ((del.call [.handler k]).goto (.running k ended)) a') :
    Wired ⟨a', t, fun i => if i = n.publisher.attemptSeq + 1 then some (d, k) else n.owner i⟩ := by
  let new := n.publisher.attemptSeq + 1
  have hfresh : ∀ i d' k', n.owner i = some (d', k') → i ≠ new := by
    rintro i d' k' hi rfl
    obtain ⟨att, ha⟩ := h.owners new d' k' hi
    exact absurd (h.numbered new att ha) (by omega)
  have hbefore : ∀ i d' k', (if i = new then some (d, k) else n.owner i) = some (d', k') →
      (i = new ∧ d' = d ∧ k' = k) ∨ (i ≠ new ∧ n.owner i = some (d', k')) := by
    intro i d' k' hi
    by_cases hin : i = new
    · rw [if_pos hin] at hi
      obtain ⟨rfl, rfl⟩ := Prod.mk.inj (Option.some.inj hi)
      exact .inl ⟨hin, rfl, rfl⟩
    · rw [if_neg hin] at hi
      exact .inr ⟨hin, hi⟩
  have hnot : ∀ i, n.owner i ≠ some (d, k) := by
    intro i hi
    have hreached := h.reached i d k del hi hdel
    rw [hs] at hreached
    exact absurd hreached (lt_irrefl k)
  refine ⟨fun i att hi => ?_, fun i att hi => ?_, fun i d' k' hi => ?_, fun i j d' k' hi hj => ?_,
    fun i d' k' new' hi hnew => ?_, fun c hc => ?_, fun x new' kk hx hrun => ?_,
    fun x j kk att new' hj hended haborted hx => ?_⟩
  · show i ≤ t.attemptSeq
    rw [hseq]
    by_cases hin : i = new
    · exact le_of_eq hin
    · exact (h.numbered i att ((hold i hin).symm.trans hi)).trans (Nat.le_succ _)
  · by_cases hin : i = new
    · subst hin
      obtain rfl := Option.some.inj (hatt.symm.trans hi)
      exact ⟨d, k, _, if_pos rfl, hsets.1, rfl⟩
    · obtain ⟨d', k', old, hd', hdel', hp⟩ := h.owned i att ((hold i hin).symm.trans hi)
      refine ⟨d', k', ?_⟩
      by_cases hdd : d' = d
      · subst hdd
        obtain rfl : del = old := Option.some.inj (hdel.symm.trans hdel')
        exact ⟨_, (if_neg hin).trans hd', hsets.1, hp⟩
      · exact ⟨old, (if_neg hin).trans hd', (hsets.2 d' hdd).trans hdel', hp⟩
  · rcases hbefore i d' k' hi with ⟨rfl, -, -⟩ | ⟨hin, hi⟩
    · exact ⟨_, hatt⟩
    · obtain ⟨att, ha⟩ := h.owners i d' k' hi
      exact ⟨att, (hold i hin).trans ha⟩
  · rcases hbefore i d' k' hi with ⟨rfl, rfl, rfl⟩ | ⟨-, hio⟩
    · rcases hbefore j d' k' hj with ⟨rfl, -, -⟩ | ⟨-, hjo⟩
      · rfl
      · exact absurd hjo (hnot j)
    · rcases hbefore j d' k' hj with ⟨-, rfl, rfl⟩ | ⟨-, hjo⟩
      · exact absurd hio (hnot i)
      · exact h.distinct i j d' k' hio hjo
  · rcases hbefore i d' k' hi with ⟨-, rfl, rfl⟩ | ⟨-, hio⟩
    · obtain rfl := Option.some.inj (hsets.1.symm.trans hnew)
      exact le_rfl
    · by_cases hdd : d' = d
      · subst hdd
        obtain rfl := Option.some.inj (hsets.1.symm.trans hnew)
        have hreached := h.reached i d' k' del hio hdel
        rw [hs] at hreached
        exact le_of_lt hreached
      · exact h.reached i d' k' new' hio ((hsets.2 d' hdd).symm.trans hnew)
  · show ∃ att, t.attempts t.attemptSeq = some att ∧ att.payload.taskId = c
    rw [hseq]
    refine ⟨_, hatt, ?_⟩
    cases hcases with
    | refused e he hcard hmark hcurrent _ => exact absurd (hcurrent.symm.trans hc) (by simp)
    | begun hcard hmark hcurrent _ => exact Option.some.inj (hcurrent.symm.trans hc)
  · by_cases hxd : x = d
    · subst hxd
      obtain rfl := Option.some.inj (hsets.1.symm.trans hx)
      obtain ⟨rfl, rfl⟩ : k = kk ∧ ended = none := by simpa using hrun
      refine ⟨new, _, ⟨if_pos rfl, hatt⟩, rfl, rfl, fun j k' hj => ?_⟩
      rcases hbefore j x k' hj with ⟨hjn, -, -⟩ | ⟨-, hj⟩
      · exact le_of_eq hjn
      · obtain ⟨att, ha⟩ := h.owners j x k' hj
        exact (h.numbered j att ha).trans (Nat.le_succ _)
    · obtain ⟨i, att, ⟨hi, ha⟩, he, hb, hnewest⟩ :=
        h.open_ x new' kk ((hsets.2 x hxd).symm.trans hx) hrun
      have hin := hfresh i x kk hi
      refine ⟨i, att, ⟨(if_neg hin).trans hi, (hold i hin).trans ha⟩, he, hb, fun j k' hj => ?_⟩
      rcases hbefore j x k' hj with ⟨-, hxd', -⟩ | ⟨-, hj⟩
      · exact absurd hxd' hxd
      · exact hnewest j k' hj
  · rcases hbefore j x kk hj.1 with ⟨rfl, rfl, rfl⟩ | ⟨hjn, hjo⟩
    · obtain rfl := Option.some.inj (hatt.symm.trans hj.2)
      obtain rfl := Option.some.inj (hsets.1.symm.trans hx)
      rw [show ended = none from hended]
      rfl
    · have hja : n.publisher.attempts j = some att := (hold j hjn).symm.trans hj.2
      by_cases hxd : x = d
      · subst hxd
        have hrun := h.racing x j kk att del ⟨hjo, hja⟩ hended haborted hdel
        rw [hs] at hrun
        exact absurd hrun (by simp)
      · exact h.racing x j kk att new' ⟨hjo, hja⟩ hended haborted ((hsets.2 x hxd).symm.trans hx)

theorem wired_move {e : NodeEvent} (h : Wired n) (hm : Move cfg n e n') : Wired n' := by
  cases hm with
  | arrived d p b a' hnone hsets => exact h.actor (.arrived hnone hsets)
  | reacted d a del del' a' hdel hr hrace hstop hsets =>
      exact h.actor (.sets hdel hsets hr.payload (fun k => hr.reached) hrace)
  | invoked d k del title t ended a' hdel hs htitle hcases hatt hseq hold hspares hsets =>
      exact h.invoked hdel hs hcases hatt hseq hold hsets
  | untitled d k del a' hdel hs htitle hsets =>
      refine h.actor (.sets hdel hsets rfl (fun j hj => ?_) fun j => ?_)
      · rw [hs] at hj
        exact le_of_lt hj
      · rw [hs]
        simp
  | aborted e owns reason a' hdel => exact h.aborted hdel
  | settled i d k out att del del' a' hatt hended howner hdel hr hsets =>
      have hp := AgentStatePublisher.Publishes.settled cfg.publisher n.publisher i att out
      have hc := AgentStatePublisher.clears_settled cfg.publisher n.publisher i att out
      exact (h.publishes hp hc).ended ((congrFun hp.attempts i).trans hatt) howner hdel hr hsets
  | stopped d del ending a' hdel hs hstop hsets =>
      have hr : Reaction cfg.actor n.actor.signals del (.published (.ok ()))
        (del.recorded cfg.actor ending) := .recorded ending hs
      have hactor := h.actor (.sets hdel hsets hr.payload (fun k => hr.reached)
        (hr.sameRace (by simp) (by simp) (by simp)))
      exact hactor.publishes (.stopped cfg.publisher _ _) (.stopped cfg.publisher _ _)
  | announced e row s hs =>
      rcases hs with rfl | rfl
      · exact h.publishes (.delta _ _ _) (.of_eq rfl)
      · exact h.publishes ⟨rfl, rfl, [_], rfl⟩ (.of_none rfl)

/-- **The wiring holds in every state a node reaches.** -/
theorem wired_step {e : NodeEvent} (h : Wired n) (hstep : n.step cfg e = some n') : Wired n' :=
  wired_move h (step_move hstep)

end AgentNode

end Kaiban
