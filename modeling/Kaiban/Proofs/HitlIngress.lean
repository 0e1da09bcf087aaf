/-
What the gateway makes of the decisions of its boards.

A decision is answered once, at the end of it: with ok when Redis has answered its three
commands, and with an error when it is refused or a command fails.  A refused one does not
reach Redis, and one that reaches it names a task and a decision that may stand in a key.

A window is the naive one: what is held of a connection is what was admitted lately, so a
decision is refused exactly when the last ten seconds are full, and no ten seconds hold more.
-/
import Kaiban.HitlIngress
import Kaiban.Lib.Steps
import Kaiban.Lib.Window

open JsString

namespace Kaiban

/-! ### A window -/

/-- What a window holds of the times that were admitted, none of which is later than
`last`. -/
structure Windowed (max windowMs last : ℕ) (admitted held : List ℕ) : Prop where
  split : ∃ dropped, admitted = dropped ++ held ∧ ∀ t ∈ dropped, t + windowMs ≤ last
  sorted : admitted.Pairwise (· ≤ ·)
  before : ∀ t ∈ admitted, t ≤ last
  sparse : Sparse max (windowMs - 1) admitted

namespace Windowed

variable {max windowMs last now : ℕ} {admitted held : List ℕ}

theorem empty (max windowMs last : ℕ) : Windowed max windowMs last [] [] :=
  ⟨⟨[], rfl, by simp⟩, List.Pairwise.nil, by simp, .nil⟩

theorem later (h : Windowed max windowMs last admitted held) (hnow : last ≤ now) :
    Windowed max windowMs now admitted held := by
  obtain ⟨dropped, hsplit, hold⟩ := h.split
  exact ⟨⟨dropped, hsplit, fun t ht => (hold t ht).trans hnow⟩, h.sorted,
    fun t ht => (h.before t ht).trans hnow, h.sparse⟩

/-- What has left the window by now is dropped. -/
theorem shifted (h : Windowed max windowMs last admitted held) (hnow : last ≤ now) :
    ∃ dropped, admitted = dropped ++ held.dropWhile (fun t => t + windowMs ≤ now) ∧
      ∀ t ∈ dropped, t + windowMs ≤ now := by
  obtain ⟨dropped, hsplit, hold⟩ := h.split
  refine ⟨dropped ++ held.takeWhile (fun t => t + windowMs ≤ now), ?_, ?_⟩
  · rw [List.append_assoc, List.takeWhile_append_dropWhile, hsplit]
  · intro t ht
    rcases List.mem_append.mp ht with ht | ht
    · exact (hold t ht).trans hnow
    · simpa using List.mem_takeWhile_imp ht

/-- What is left in the window is as much as was admitted in it. -/
theorem length_held (h : Windowed max windowMs last admitted held) (hnow : last ≤ now) :
    (held.dropWhile fun t => t + windowMs ≤ now).length =
      admitted.countP fun t => now < t + windowMs := by
  obtain ⟨dropped, hsplit, hold⟩ := h.split
  have hsorted := h.sorted
  rw [hsplit] at hsorted
  have hnone : dropped.countP (fun t => now < t + windowMs) = 0 := by
    rw [List.countP_eq_zero]
    intro t ht
    simpa using (hold t ht).trans hnow
  rw [hsplit, List.countP_append, hnone, zero_add, length_dropWhile_of_sorted
    (fun a b hab hb => by simp only [decide_eq_true_eq] at hb ⊢; omega)
    (List.pairwise_append.mp hsorted).2.1]
  refine List.countP_congr fun t _ => ?_
  simp

/-- **The window admits what the naive one admits.** -/
theorem admit_iff (h : Windowed max windowMs last admitted held) (hnow : last ≤ now) :
    (admitAt held max windowMs now).1 = true ↔
      admitted.countP (fun t => now < t + windowMs) < max := by
  rw [← h.length_held hnow]
  unfold admitAt
  dsimp only
  split
  · next hfull => exact iff_of_false (by simp) (not_lt.mpr hfull)
  · next hroom => exact iff_of_true rfl (not_le.mp hroom)

/-- A window goes on as one, whether it admits or not. -/
theorem after (h : Windowed max windowMs last admitted held) (hnow : last ≤ now)
    (hwindow : 0 < windowMs) :
    Windowed max windowMs now
      (if (admitAt held max windowMs now).1 then admitted ++ [now] else admitted)
      (admitAt held max windowMs now).2 := by
  obtain ⟨dropped, hsplit, hold⟩ := h.shifted hnow
  unfold admitAt
  dsimp only
  split
  · next hfull => exact ⟨⟨dropped, hsplit, hold⟩, h.sorted,
      fun t ht => (h.before t ht).trans hnow, h.sparse⟩
  · next hroom =>
      have hsparse := h.sparse
      rw [hsplit] at hsparse
      refine ⟨⟨dropped, ?_, hold⟩, ?_, ?_, ?_⟩
      · rw [if_pos rfl, hsplit, List.append_assoc]
      · rw [if_pos rfl]
        refine List.pairwise_append.mpr ⟨h.sorted, List.pairwise_singleton _ _, ?_⟩
        intro t ht x hx
        rw [List.mem_singleton.mp hx]
        exact (h.before t ht).trans hnow
      · rw [if_pos rfl]
        intro t ht
        rcases List.mem_append.mp ht with ht | ht
        · exact (h.before t ht).trans hnow
        · rw [List.mem_singleton.mp ht]
      · rw [if_pos rfl, hsplit]
        refine .snoc dropped _ now hsparse (not_le.mp hroom) fun t ht => ?_
        have := hold t ht
        omega

end Windowed

namespace HitlGateway

variable {valid : List JsString} {s s' : HitlGateway} {last : ℕ}

/-! ### The windows of all connections -/

/-- Every connection has its two windows. -/
structure Windows (last : ℕ) (s : HitlGateway) : Prop where
  decisions : ∀ k, Windowed hitlMaxPerWindow hitlWindowMs last (s.admitted k) (s.sentAt k)
  replays : ∀ k,
    Windowed snapshotMaxPerWindow snapshotWindowMs last (s.replayed k) (s.snapshotAt k)

theorem init_windows (last : ℕ) : Windows last init :=
  ⟨fun _ => .empty _ _ _, fun _ => .empty _ _ _⟩

theorem Windows.later {now : ℕ} (h : Windows last s) (hnow : last ≤ now) : Windows now s :=
  ⟨fun k => (h.decisions k).later hnow, fun k => (h.replays k).later hnow⟩

theorem Windows.handle (h : Windows last s) (socket : ℕ) (payload : Option Json) (hasAck : Bool)
    {now : ℕ} (hnow : last ≤ now) :
    Windows now (s.handleHitlDecision valid socket payload hasAck now) := by
  have hreplays := (h.later hnow).replays
  have hone := (h.decisions socket).after hnow (by decide)
  unfold handleHitlDecision
  split
  · exact ⟨(h.later hnow).decisions, hreplays⟩
  · dsimp only
    split
    · next hadmitted =>
        rw [if_pos hadmitted] at hone
        refine ⟨fun k => ?_, hreplays⟩
        dsimp only
        split
        · next hk =>
            subst hk
            exact hone
        · exact (h.decisions k).later hnow
    · next hrefused =>
        rw [if_neg hrefused] at hone
        refine ⟨fun k => ?_, hreplays⟩
        dsimp only
        split
        · next hk =>
            subst hk
            exact hone
        · exact (h.decisions k).later hnow

theorem Windows.requestState (h : Windows last s) (socket : ℕ) {now : ℕ} (hnow : last ≤ now) :
    Windows now (s.requestState socket now) := by
  have hdecisions := (h.later hnow).decisions
  have hone := (h.replays socket).after hnow (by decide)
  unfold HitlGateway.requestState
  dsimp only
  split
  · next hadmitted =>
      rw [if_pos hadmitted] at hone
      refine ⟨hdecisions, fun k => ?_⟩
      dsimp only
      split
      · next hk =>
          subst hk
          exact hone
      · exact (h.replays k).later hnow
  · next hrefused =>
      rw [if_neg hrefused] at hone
      refine ⟨hdecisions, fun k => ?_⟩
      dsimp only
      split
      · next hk =>
          subst hk
          exact hone
      · exact (h.replays k).later hnow

theorem windows_step {e : HitlIngressEvent} (h : Windows last s)
    (hnow : ∀ t ∈ e.time, last ≤ t) (hstep : step valid s e = some s') :
    Windows (e.time.getD last) s' := by
  cases e with
  | decision socket payload hasAck now =>
      obtain rfl := Option.some.inj hstep
      exact h.handle socket payload hasAck (hnow now rfl)
  | requestState socket now =>
      obtain rfl := Option.some.inj hstep
      exact h.requestState socket (hnow now rfl)
  | redis i ok =>
      rw [step] at hstep
      split at hstep
      · exact absurd hstep (by simp)
      · split at hstep
        · exact absurd hstep (by simp)
        · obtain rfl := Option.some.inj hstep
          exact ⟨h.decisions, h.replays⟩

/-- The readings of the clock in a trace. -/
def times (es : List HitlIngressEvent) : List ℕ := es.filterMap HitlIngressEvent.time

theorem windows_run : ∀ {es : List HitlIngressEvent} {s t : HitlGateway} {last : ℕ},
    Windows last s → Steps.run (step valid) s es = some t →
    (last :: times es).Pairwise (· ≤ ·) → ∃ now ∈ last :: times es, Windows now t := by
  intro es
  induction es with
  | nil =>
      intro s t last h hrun _
      obtain rfl : s = t := by simpa using hrun
      exact ⟨last, List.mem_cons_self, h⟩
  | cons e rest ih =>
      intro s t last h hrun hsorted
      obtain ⟨m, hm, hrest⟩ := Steps.run_cons_some.mp hrun
      have htimes : times (e :: rest) = e.time.toList ++ times rest := by
        unfold times
        cases htime : e.time with
        | none => rw [List.filterMap_cons_none htime]; rfl
        | some now => rw [List.filterMap_cons_some htime]; rfl
      rw [htimes] at hsorted ⊢
      cases htime : e.time with
      | none =>
          rw [htime] at hsorted
          have hnext := windows_step h (by simp [htime]) hm
          rw [htime] at hnext
          exact ih hnext hrest hsorted
      | some now =>
          rw [htime] at hsorted
          obtain ⟨hfirst, hlater⟩ := List.pairwise_cons.mp hsorted
          have hnext := windows_step h (by simpa [htime] using hfirst now (by simp)) hm
          rw [htime] at hnext
          obtain ⟨u, hu, hwindows⟩ := ih hnext hrest hlater
          exact ⟨u, List.mem_cons_of_mem last hu, hwindows⟩

/-- **A window limits what it should and no more.**  Under a clock that does not go back, no
ten seconds hold more than ten forwarded decisions or five replays of a connection, and a
decision or a request is turned away exactly when the ten seconds up to it are full. -/
theorem connection_windows :
    ∀ (valid : List JsString) (es : List HitlIngressEvent) (s : HitlGateway) (now : ℕ),
      Steps.run (step valid) init es = some s → (times es ++ [now]).Pairwise (· ≤ ·) →
      ∀ socket,
        (∀ t, ((s.admitted socket).filter fun x => t ≤ x ∧ x ≤ t + 9999).length ≤ 10) ∧
        (∀ t, ((s.replayed socket).filter fun x => t ≤ x ∧ x ≤ t + 9999).length ≤ 5) ∧
        (∀ payload hasAck fields, hitlPayload valid payload = .ok fields →
          ((s.handleHitlDecision valid socket payload hasAck now).calls =
              s.calls ++ [⟨socket, hasAck, .ok fields, .push, []⟩] ↔
            (s.admitted socket).countP (fun t => now < t + 10000) < 10)) ∧
        ((s.requestState socket now).replayed socket = s.replayed socket ++ [now] ↔
          (s.replayed socket).countP (fun t => now < t + 10000) < 5) := by
  intro valid es s now hrun hsorted socket
  obtain ⟨hbefore, -, hlast⟩ := List.pairwise_append.mp hsorted
  have hzero : (0 :: times es).Pairwise (· ≤ ·) :=
    List.pairwise_cons.mpr ⟨fun t _ => Nat.zero_le t, hbefore⟩
  obtain ⟨last, hmem, hwindows⟩ := windows_run (init_windows 0) hrun hzero
  have hle : last ≤ now := by
    rcases List.mem_cons.mp hmem with rfl | hmem
    · exact Nat.zero_le now
    · exact hlast last hmem now (List.mem_singleton_self now)
  have hdecisions := hwindows.decisions socket
  have hreplays := hwindows.replays socket
  refine ⟨fun t => hdecisions.sparse.window_le t, fun t => hreplays.sparse.window_le t,
    fun payload hasAck fields hfields => ?_, ?_⟩
  · have hadmit := hdecisions.admit_iff hle
    refine Iff.trans ?_ hadmit
    unfold handleHitlDecision
    rw [hfields]
    dsimp only
    split
    · next hadmitted => exact iff_of_true rfl hadmitted
    · next hrefused =>
        refine iff_of_false (fun hsame => ?_) hrefused
        have hcall := List.append_cancel_left hsame
        simp [HitlCall.answer] at hcall
  · refine Iff.trans ?_ (hreplays.admit_iff hle)
    unfold requestState
    dsimp only
    split
    · next hadmitted => exact iff_of_true (if_pos rfl) hadmitted
    · next hrefused => exact iff_of_false (by simp) hrefused

/-- Twelve decisions in a row, and one when the first has left the window. -/
def burst : List HitlIngressEvent :=
  (List.range 12).map fun n => .decision 7
    (some (.obj [(js "taskId", .str (js "t-1")), (js "decision", .str (js "REVISE"))])) true n

theorem connection_windows_burst :
    ∃ s, Steps.run (step defaultDecisions) init burst = some s ∧
      s.admitted 7 = [0, 1, 2, 3, 4, 5, 6, 7, 8, 9] ∧
      ((s.requestState 7 10000).replayed 7 = s.replayed 7 ++ [10000] ↔
        (s.replayed 7).countP (fun t => 10000 < t + 10000) < 5) := by
  refine ⟨_, rfl, by decide +kernel, ?_⟩
  exact (connection_windows defaultDecisions burst _ 10000 rfl (by decide +kernel) 7).2.2.2

/-! ### The answers -/

/-- The commands a call has had answered, in order. -/
def commandsOf (s : HitlGateway) (i : ℕ) : List ForwardStage :=
  (s.redis.filter fun r => r.1 = i).map Prod.snd

/-- The commands of a decision that reaches the orchestrator. -/
def allCommands : List ForwardStage := [.push, .expire, .publish]

/-- The commands that are answered before the next one is sent. -/
def answeredBefore : ForwardStage → List ForwardStage
  | .push => []
  | .expire => [.push]
  | .publish => [.push, .expire]
  | .ended => allCommands

/-- What a decision comes to, with the commands it had answered. -/
structure Handled (valid : List JsString) (commands : List ForwardStage) (c : HitlCall) : Prop where
  /-- The board is answered once, at the end. -/
  once : c.responses.length = if c.hasAck = true ∧ c.next = .ended then 1 else 0
  /-- What is refused does not reach Redis, and the board is told why. -/
  refused : ∀ error, c.request = .error error →
    c.next = .ended ∧ commands = [] ∧ ∀ r ∈ c.responses, r = .failed error
  /-- What is forwarded may stand in a key, and goes out in order. -/
  forwarded : ∀ fields, c.request = .ok fields →
    isTaskId fields.1 = true ∧ fields.2 ∈ valid ∧
      (c.next ≠ .ended → commands = answeredBefore c.next) ∧ commands <+: allCommands
  /-- The board is told ok when all three commands were answered, and only then. -/
  told : ∀ r ∈ c.responses, (r = .ok ↔ commands = allCommands)

theorem hitlPayload_sound {payload : Option Json} {fields : JsString × JsString}
    (h : hitlPayload valid payload = .ok fields) :
    isTaskId fields.1 = true ∧ fields.2 ∈ valid := by
  unfold hitlPayload at h
  split at h
  · split at h
    · next taskId decision _ _ =>
        split at h
        · exact absurd h (by simp)
        · next hid =>
            split at h
            · exact absurd h (by simp)
            · next hword =>
                obtain rfl := Except.ok.inj h
                exact ⟨by simpa using hid, not_not.mp hword⟩
    · exact absurd h (by simp)
  · exact absurd h (by simp)
  · exact absurd h (by simp)

/-- Every call is handled so, and Redis was sent commands of calls alone. -/
structure Answered (valid : List JsString) (s : HitlGateway) : Prop where
  handled : ∀ i c, s.calls[i]? = some c → Handled valid (s.commandsOf i) c
  known : ∀ r ∈ s.redis, r.1 < s.calls.length

/-- A new call has had no command answered. -/
theorem Answered.fresh (h : Answered valid s) : s.commandsOf s.calls.length = [] := by
  unfold commandsOf
  rw [List.map_eq_nil_iff, List.filter_eq_nil_iff]
  intro r hr
  have := h.known r hr
  simp
  omega

theorem Answered.append (h : Answered valid s) {c : HitlCall} (hc : Handled valid [] c)
    {sentAt admitted : ℕ → List ℕ} :
    Answered valid { s with sentAt, admitted, calls := s.calls ++ [c] } := by
  refine ⟨fun i d hd => ?_, fun r hr => ?_⟩
  · rcases Nat.lt_trichotomy i s.calls.length with hlt | heq | hgt
    · dsimp only at hd
      rw [List.getElem?_append_left hlt] at hd
      exact h.handled i d hd
    · subst heq
      obtain rfl : c = d := by simpa using hd
      have hnone := h.fresh
      unfold commandsOf at hnone ⊢
      rw [hnone]
      exact hc
    · rw [List.getElem?_eq_none (by simpa using hgt)] at hd
      exact absurd hd (by simp)
  · have := h.known r hr
    simp
    omega

theorem handled_refused (socket : ℕ) (hasAck : Bool) (error : JsString) :
    Handled valid []
      (HitlCall.answer ⟨socket, hasAck, .error error, .ended, []⟩ (.failed error)) := by
  refine ⟨?_, ?_, fun fields hfields => absurd hfields (by simp [HitlCall.answer]), ?_⟩
  · cases hasAck <;> simp [HitlCall.answer]
  · rintro e he
    obtain rfl : error = e := by simpa [HitlCall.answer] using he
    refine ⟨rfl, rfl, fun r hr => ?_⟩
    cases hasAck <;> simp [HitlCall.answer] at hr
    exact hr
  · intro r hr
    cases hasAck <;> simp [HitlCall.answer] at hr
    simp [hr, allCommands]

theorem handled_admitted (socket : ℕ) (hasAck : Bool) {fields : JsString × JsString}
    (h : isTaskId fields.1 = true ∧ fields.2 ∈ valid) :
    Handled valid [] ⟨socket, hasAck, .ok fields, .push, []⟩ := by
  refine ⟨by simp, fun error he => absurd he (by simp), fun f hf => ?_, by simp⟩
  obtain rfl := Except.ok.inj hf
  exact ⟨h.1, h.2, fun _ => rfl, List.nil_prefix⟩

theorem Answered.handle (h : Answered valid s) (socket : ℕ) (payload : Option Json)
    (hasAck : Bool) (now : ℕ) :
    Answered valid (s.handleHitlDecision valid socket payload hasAck now) := by
  unfold handleHitlDecision
  split
  · exact h.append (handled_refused socket hasAck _)
  · next fields hfields =>
      dsimp only
      split
      · exact h.append (handled_admitted socket hasAck (hitlPayload_sound hfields))
      · exact h.append (handled_refused socket hasAck _)

theorem answer_responses {c : HitlCall} (hnone : c.responses = []) (r : HitlResponse) :
    (c.answer r).responses = if c.hasAck then [r] else [] := by
  unfold HitlCall.answer
  dsimp only
  rw [hnone]
  rfl

/-- A call that ends is answered with what it came to. -/
theorem Handled.answer {commands : List ForwardStage} {c : HitlCall}
    {fields : JsString × JsString} (hrequest : c.request = .ok fields)
    (hfields : isTaskId fields.1 = true ∧ fields.2 ∈ valid) (hnone : c.responses = [])
    (hcommands : commands <+: allCommands) {r : HitlResponse}
    (hr : r = .ok ↔ commands = allCommands) : Handled valid commands (c.answer r) := by
  refine ⟨?_, fun error he => ?_, fun f hf => ?_, fun x hx => ?_⟩
  · rw [answer_responses hnone]
    cases hack : c.hasAck <;> simp [HitlCall.answer, hack]
  · exact absurd (hrequest.symm.trans he) (by simp)
  · obtain rfl := Except.ok.inj (hrequest.symm.trans hf)
    exact ⟨hfields.1, hfields.2, fun hopen => absurd rfl hopen, hcommands⟩
  · rw [answer_responses hnone] at hx
    split at hx
    · rw [List.mem_singleton.mp hx]
      exact hr
    · exact absurd hx (by simp)

/-- The next command of a call is answered, or fails. -/
theorem Handled.forward {commands : List ForwardStage} {c : HitlCall}
    (h : Handled valid commands c) (hopen : c.next ≠ .ended) (ok : Bool) :
    Handled valid (if ok then commands ++ [c.next] else commands) (forward c ok) := by
  cases hrequest : c.request with
  | error error => exact absurd (h.refused error hrequest).1 hopen
  | ok fields =>
      obtain ⟨hid, hword, hbefore, hpart⟩ := h.forwarded fields hrequest
      have hcommands := hbefore hopen
      have hnone : c.responses = [] := by
        have hlength := h.once
        rw [if_neg fun hboth => hopen hboth.2] at hlength
        exact List.length_eq_zero_iff.mp hlength
      cases ok with
      | false =>
          refine Handled.answer hrequest ⟨hid, hword⟩ hnone hpart
            (iff_of_false (by simp) fun hall => ?_)
          rw [hcommands] at hall
          cases hnext : c.next with
          | ended => exact hopen hnext
          | push => rw [hnext] at hall; exact absurd hall (by decide)
          | expire => rw [hnext] at hall; exact absurd hall (by decide)
          | publish => rw [hnext] at hall; exact absurd hall (by decide)
      | true =>
          rw [if_pos rfl]
          -- the call goes on without an answer
          have hgoes (next : ForwardStage) (hstays : next ≠ .ended)
              (hnow : commands ++ [c.next] = answeredBefore next)
              (hfits : answeredBefore next <+: allCommands) :
              Handled valid (commands ++ [c.next]) { c with next } := by
            refine ⟨?_, fun error he => ?_, fun f hf => ?_, fun r hr => ?_⟩
            · rw [hnone, if_neg fun hboth => hstays hboth.2]
              rfl
            · exact absurd (hrequest.symm.trans he) (by simp)
            · obtain rfl := Except.ok.inj (hrequest.symm.trans hf)
              exact ⟨hid, hword, fun _ => hnow, hnow ▸ hfits⟩
            · dsimp only at hr
              rw [hnone] at hr
              exact absurd hr (by simp)
          unfold HitlGateway.forward
          cases hnext : c.next with
          | ended => exact absurd hnext hopen
          | push =>
              rw [hnext] at hcommands hgoes
              exact hgoes .expire (by simp) (by rw [hcommands]; rfl) (by decide)
          | expire =>
              rw [hnext] at hcommands hgoes
              exact hgoes .publish (by simp) (by rw [hcommands]; rfl) (by decide)
          | publish =>
              rw [hnext] at hcommands
              have hall : commands ++ [.publish] = allCommands := by
                rw [hcommands]
                rfl
              refine Handled.answer hrequest ⟨hid, hword⟩ hnone ?_ (iff_of_true rfl hall)
              rw [hall]

theorem Answered.redis (h : Answered valid s) {i : ℕ} {c : HitlCall} (hc : s.calls[i]? = some c)
    (hopen : c.next ≠ .ended) (ok : Bool) :
    Answered valid { s with
      calls := s.calls.set i (HitlGateway.forward c ok)
      redis := if ok then s.redis ++ [(i, c.next)] else s.redis } := by
  obtain ⟨hlt, -⟩ := List.getElem?_eq_some_iff.mp hc
  have hcommands (j : ℕ) : commandsOf { s with
        calls := s.calls.set i (HitlGateway.forward c ok)
        redis := if ok then s.redis ++ [(i, c.next)] else s.redis } j =
      if j = i then (if ok then s.commandsOf i ++ [c.next] else s.commandsOf i)
      else s.commandsOf j := by
    unfold commandsOf
    dsimp only
    by_cases hj : j = i
    · rw [if_pos hj, hj]
      cases ok <;> simp
    · rw [if_neg hj]
      have hother : (([(i, c.next)] : List (ℕ × ForwardStage)).filter fun r => r.1 = j) = [] := by
        simpa using fun hij : i = j => hj hij.symm
      cases ok with
      | false => rfl
      | true => rw [if_pos rfl, List.filter_append, hother, List.append_nil]
  refine ⟨fun j d hd => ?_, fun r hr => ?_⟩
  · rw [hcommands]
    dsimp only at hd
    rw [List.getElem?_set] at hd
    split at hd
    · next hij =>
        subst hij
        obtain rfl := Option.some.inj hd
        rw [if_pos rfl]
        exact (h.handled i c hc).forward hopen ok
    · next hij =>
        rw [if_neg fun hji => hij hji.symm]
        exact h.handled j d hd
  · dsimp only at hr ⊢
    rw [List.length_set]
    cases ok with
    | false => exact h.known r hr
    | true =>
        rcases List.mem_append.mp hr with hold | hnew
        · exact h.known r hold
        · rw [List.mem_singleton.mp hnew]
          exact hlt

theorem answered_step {e : HitlIngressEvent} (h : Answered valid s)
    (hstep : step valid s e = some s') : Answered valid s' := by
  cases e with
  | decision socket payload hasAck now =>
      obtain rfl := Option.some.inj hstep
      exact h.handle socket payload hasAck now
  | requestState socket now =>
      obtain rfl := Option.some.inj hstep
      unfold requestState
      dsimp only
      split
      · exact ⟨h.handled, h.known⟩
      · exact ⟨h.handled, h.known⟩
  | redis i ok =>
      rw [step] at hstep
      split at hstep
      · exact absurd hstep (by simp)
      · next c hc =>
          split at hstep
          · exact absurd hstep (by simp)
          · next hopen =>
              obtain rfl := Option.some.inj hstep
              exact h.redis hc hopen ok

/-- **Every decision of a board is answered once, and with ok only when the orchestrator can
have it.** -/
theorem decisions_answered :
    ∀ (valid : List JsString) (es : List HitlIngressEvent) (s : HitlGateway),
      Steps.run (step valid) init es = some s →
      ∀ i c, s.calls[i]? = some c → Handled valid (s.commandsOf i) c := by
  intro valid es s hrun i c hc
  have h : Answered valid s := Steps.invariant (fun _ _ _ => answered_step)
    ⟨fun i c hc => absurd hc (by simp [init]), by simp [init]⟩ hrun
  exact h.handled i c hc

/-- Two decisions under way at once, one of which is not published. -/
def interleaved : List HitlIngressEvent :=
  let payload := some (.obj [(js "taskId", .str (js "t-1")), (js "decision", .str (js "REVISE"))])
  [.decision 0 payload true 0, .decision 1 payload true 0, .redis 1 true, .redis 0 true,
    .redis 0 true, .redis 1 true, .redis 0 false, .redis 1 true]

theorem decisions_answered_interleaved :
    ∃ s c, Steps.run (step defaultDecisions) init interleaved = some s ∧
      s.calls[0]? = some c ∧ c.responses = [.failed (js "Redis write failed")] ∧
      Handled defaultDecisions (s.commandsOf 0) c := by
  refine ⟨_, _, rfl, rfl, rfl, ?_⟩
  exact decisions_answered defaultDecisions interleaved _ rfl 0 _ rfl

end HitlGateway

end Kaiban
