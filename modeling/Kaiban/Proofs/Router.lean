/-
Every wait that has not settled owns its entries.

The three maps are written together and cleared together, so they are one map, from task
ids to waits.  `Owned` says that this map holds exactly the waits that have not settled,
each under its own task id and with its timer running.  An event keeps it when whatever
clears an entry also settles the wait the entry belongs to.  Two events can fail to: the
listener of a wait that settled long ago clears the entry of a later wait for the same
task, and a dead-letter record whose error has no text clears an entry and then throws.
-/
import Kaiban.Router
import Kaiban.Lib.Steps

open JsString

namespace Kaiban.Router

variable {s s' : Router} {w : ℕ} {wt : Wait}

/-! ### Settling -/

theorem settled_settle {r : Settlement} {x : ℕ} :
    (s.settle w r).Settled x ↔ s.Settled x ∨ x = w := by
  simp [Settled, settle]

/-- An entry is cleared and its wait settled. -/
def finish (s : Router) (k : JsString) (w : ℕ) (r : Settlement) : Router :=
  (s.clearPending k).settle w r

theorem settled_finish {k : JsString} {r : Settlement} {x : ℕ} :
    (s.finish k w r).Settled x ↔ s.Settled x ∨ x = w := settled_settle

/-- The three maps are one, and it holds exactly the waits that have not settled. -/
structure Owned (s : Router) : Prop where
  rejectSame : s.pendingReject = s.pendingResolve
  timersSame : s.timers = s.pendingResolve
  owns : ∀ w wt, s.waits w = some wt → ¬ s.Settled w → s.pendingResolve.get wt.taskId = some w
  ticking : ∀ w wt, s.waits w = some wt → ¬ s.Settled w → w ∈ s.armed
  pending : ∀ k w, s.pendingResolve.get k = some w →
    ∃ wt, s.waits w = some wt ∧ wt.taskId = k ∧ ¬ s.Settled w
  live : ∀ w ∈ s.armed, ∃ wt, s.waits w = some wt ∧ ¬ s.Settled w
  known : ∀ w, s.Settled w → ∃ wt, s.waits w = some wt
  once : (s.settlements.map Prod.fst).Nodup

/-- A wait that has not settled hears its signal. -/
def Listening (s : Router) : Prop :=
  ∀ w wt sig, s.waits w = some wt → wt.signal = some sig → ¬ s.Settled w →
    s.aborted sig = none ∧ w ∈ s.listeners sig

/-- **Finishing the wait an entry belongs to keeps the others theirs.** -/
theorem Owned.finish (h : Owned s) {k : JsString} (hk : s.pendingResolve.get k = some w)
    (r : Settlement) : Owned (s.finish k w r) := by
  obtain ⟨wt, hw, htask, hopen⟩ := h.pending k w hk
  have harmed : (s.finish k w r).armed = s.armed.filter fun x => x ≠ w := by
    unfold Router.finish Router.clearPending Router.settle
    dsimp only
    rw [h.timersSame, hk]
  refine ⟨?_, ?_, ?_, ?_, ?_, ?_, ?_, ?_⟩
  · show s.pendingReject.erase k = s.pendingResolve.erase k
    rw [h.rejectSame]
  · show s.timers.erase k = s.pendingResolve.erase k
    rw [h.timersSame]
  · intro x xt hx hnot
    rw [settled_finish, not_or] at hnot
    have hown := h.owns x xt hx hnot.1
    show (s.pendingResolve.erase k).get xt.taskId = some x
    rw [OrderedMap.get_erase_ne _ ?_]
    · exact hown
    · rintro rfl
      exact hnot.2 (Option.some.inj (hown.symm.trans hk))
  · intro x xt hx hnot
    rw [settled_finish, not_or] at hnot
    rw [harmed]
    simpa using ⟨h.ticking x xt hx hnot.1, hnot.2⟩
  · intro j x hx
    obtain ⟨hjk, hget⟩ := OrderedMap.get_of_erase hx
    obtain ⟨xt, hxt, hj, hnot⟩ := h.pending j x hget
    refine ⟨xt, hxt, hj, ?_⟩
    rw [settled_finish, not_or]
    refine ⟨hnot, ?_⟩
    rintro rfl
    obtain rfl : xt = wt := Option.some.inj (hxt.symm.trans hw)
    exact hjk (hj.symm.trans htask)
  · intro x hx
    rw [harmed] at hx
    obtain ⟨hmem, hne⟩ : x ∈ s.armed ∧ x ≠ w := by simpa using hx
    obtain ⟨xt, hxt, hnot⟩ := h.live x hmem
    refine ⟨xt, hxt, ?_⟩
    rw [settled_finish, not_or]
    exact ⟨hnot, hne⟩
  · intro x hx
    rcases settled_finish.mp hx with hold | rfl
    · exact h.known x hold
    · exact ⟨wt, hw⟩
  · show ((s.settlements ++ [(w, r)]).map Prod.fst).Nodup
    rw [List.map_append]
    refine h.once.append (by simp) ?_
    intro x hx hxw
    obtain rfl : x = w := by simpa using hxw
    exact hopen hx

/-! ### What an event leaves alone -/

/-- Waits, signals and listeners are as they were, and no promise is taken back. -/
structure Advances (s s' : Router) : Prop where
  waits : s'.waits = s.waits
  aborted : s'.aborted = s.aborted
  listeners : s'.listeners = s.listeners
  settled : ∀ x, s.Settled x → s'.Settled x

theorem Advances.refl (s : Router) : Advances s s := ⟨rfl, rfl, rfl, fun _ h => h⟩

theorem Advances.trans {a b c : Router} (hab : Advances a b) (hbc : Advances b c) :
    Advances a c :=
  ⟨hbc.waits.trans hab.waits, hbc.aborted.trans hab.aborted, hbc.listeners.trans hab.listeners,
    fun x hx => hbc.settled x (hab.settled x hx)⟩

theorem advances_finish (s : Router) (k : JsString) (w : ℕ) (r : Settlement) :
    Advances s (s.finish k w r) := ⟨rfl, rfl, rfl, fun _ h => settled_finish.mpr (.inl h)⟩

theorem Listening.advance (h : Listening s) (ha : Advances s s') : Listening s' := by
  intro w wt sig hw hsig hnot
  rw [ha.waits] at hw
  rw [ha.aborted, ha.listeners]
  exact h w wt sig hw hsig fun hset => hnot (ha.settled w hset)

/-! ### Refused subscriptions -/

theorem rejectAll_spec (err : WaitError) :
    ∀ {es : List (JsString × ℕ)} {s : Router}, Owned s → (es.map Prod.fst).Nodup →
      (∀ e ∈ es, s.pendingResolve.get e.1 = some e.2) →
      Owned (rejectAll err s es) ∧ Advances s (rejectAll err s es) := by
  intro es
  induction es with
  | nil => intro s h _ _; exact ⟨h, Advances.refl s⟩
  | cons e rest ih =>
      intro s h hnodup hget
      rw [List.map_cons, List.nodup_cons] at hnodup
      have hfirst : Owned (s.finish e.1 e.2 (.rejected err)) := h.finish (hget e (by simp)) _
      obtain ⟨howned, hadv⟩ := ih hfirst hnodup.2 (by
        intro f hf
        show (s.pendingResolve.erase e.1).get f.1 = some f.2
        rw [OrderedMap.get_erase_ne _ ?_]
        · exact hget f (by simp [hf])
        · intro heq
          exact hnodup.1 (heq ▸ List.mem_map_of_mem hf))
      exact ⟨howned, (advances_finish s _ _ _).trans hadv⟩

theorem rejectAllPending_spec (h : Owned s) (err : WaitError) :
    Owned (s.rejectAllPending err) ∧ Advances s (s.rejectAllPending err) := by
  unfold rejectAllPending
  refine rejectAll_spec err h s.pendingReject.nodup fun e he => ?_
  rw [← h.rejectSame]
  exact OrderedMap.get_eq_some.mpr he

theorem setSubscribed_spec (h : Owned s) (q : Queue) (b : Bool) :
    Owned (s.setSubscribed q b) ∧ Advances s (s.setSubscribed q b) := by
  cases q with
  | completed =>
      exact ⟨⟨h.rejectSame, h.timersSame, h.owns, h.ticking, h.pending, h.live, h.known, h.once⟩,
        ⟨rfl, rfl, rfl, fun _ hx => hx⟩⟩
  | failed =>
      exact ⟨⟨h.rejectSame, h.timersSame, h.owns, h.ticking, h.pending, h.live, h.known, h.once⟩,
        ⟨rfl, rfl, rfl, fun _ hx => hx⟩⟩

theorem subscribeFailed_spec (h : Owned s) (q : Queue) (message : JsString) :
    Owned (s.subscribeFailed q message) ∧ Advances s (s.subscribeFailed q message) := by
  obtain ⟨hset, hadv⟩ := setSubscribed_spec h q false
  obtain ⟨hrej, hadv'⟩ := rejectAllPending_spec hset
    (.error (js "Could not subscribe to " ++ q.name ++ js ": " ++ message))
  exact ⟨hrej, hadv.trans hadv'⟩

theorem owned_subscribing (h : Owned s) (qs : List Queue) :
    Owned { s with subscribing := qs } :=
  ⟨h.rejectSame, h.timersSame, h.owns, h.ticking, h.pending, h.live, h.known, h.once⟩

theorem subscribe_spec (h : Owned s) (q : Queue) (thrown : Option JsString) :
    Owned (s.subscribe q thrown) ∧ Advances s (s.subscribe q thrown) := by
  obtain ⟨hset, hadv⟩ := setSubscribed_spec h q true
  unfold subscribe
  cases thrown with
  | none => exact ⟨owned_subscribing hset _, hadv.trans ⟨rfl, rfl, rfl, fun _ hx => hx⟩⟩
  | some message =>
      obtain ⟨hfail, hadv'⟩ := subscribeFailed_spec hset q message
      exact ⟨hfail, hadv.trans hadv'⟩

theorem ensureSubscribed_spec (h : Owned s) (thrown : Queue → Option JsString) :
    Owned (s.ensureSubscribed thrown) ∧ Advances s (s.ensureSubscribed thrown) := by
  have hfirst : ∀ t : Router, (t = if s.completedSubscribed then s
      else s.subscribe .completed (thrown .completed)) → Owned t ∧ Advances s t := by
    intro t ht
    subst ht
    split
    · exact ⟨h, Advances.refl s⟩
    · exact subscribe_spec h _ _
  obtain ⟨hone, hadv⟩ := hfirst _ rfl
  unfold ensureSubscribed
  extract_lets t
  split
  · exact ⟨hone, hadv⟩
  · obtain ⟨htwo, hadv'⟩ := subscribe_spec hone .failed (thrown .failed)
    exact ⟨htwo, hadv.trans hadv'⟩

/-! ### A new wait -/

theorem numbered_waits_ne {x : ℕ} (h : x ≠ w) : (s.numbered w wt).waits x = s.waits x := by
  simp [numbered, h]

theorem not_settled_of_new (h : Owned s) (hw : s.waits w = none) : ¬ s.Settled w := by
  intro hset
  obtain ⟨xt, hxt⟩ := h.known w hset
  rw [hw] at hxt
  exact absurd hxt (by simp)

theorem ne_of_known {x : ℕ} {xt : Wait} (hw : s.waits w = none) (hx : s.waits x = some xt) :
    x ≠ w := by
  rintro rfl
  rw [hw] at hx
  exact absurd hx (by simp)

/-- A wait that is refused at once changes nothing else. -/
theorem owned_refused (h : Owned s) (hw : s.waits w = none) (r : Settlement) :
    Owned ((s.numbered w wt).settle w r) := by
  have hnew := not_settled_of_new h hw
  have hkeep : ∀ {x xt}, s.waits x = some xt → (s.numbered w wt).waits x = some xt := by
    intro x xt hx
    rw [numbered_waits_ne (ne_of_known hw hx)]
    exact hx
  have hback : ∀ {x xt}, (s.numbered w wt).waits x = some xt →
      ¬ ((s.numbered w wt).settle w r).Settled x → s.waits x = some xt ∧ ¬ s.Settled x := by
    intro x xt hx hnot
    rw [settled_settle, not_or] at hnot
    rw [numbered_waits_ne hnot.2] at hx
    exact ⟨hx, hnot.1⟩
  refine ⟨h.rejectSame, h.timersSame, ?_, ?_, ?_, ?_, ?_, ?_⟩
  · intro x xt hx hnot
    obtain ⟨hx', hnot'⟩ := hback hx hnot
    exact h.owns x xt hx' hnot'
  · intro x xt hx hnot
    obtain ⟨hx', hnot'⟩ := hback hx hnot
    exact h.ticking x xt hx' hnot'
  · intro k x hk
    obtain ⟨xt, hxt, htask, hnot⟩ := h.pending k x hk
    refine ⟨xt, hkeep hxt, htask, ?_⟩
    rw [settled_settle, not_or]
    exact ⟨hnot, ne_of_known hw hxt⟩
  · intro x hx
    obtain ⟨xt, hxt, hnot⟩ := h.live x hx
    refine ⟨xt, hkeep hxt, ?_⟩
    rw [settled_settle, not_or]
    exact ⟨hnot, ne_of_known hw hxt⟩
  · intro x hx
    rcases settled_settle.mp hx with hold | rfl
    · obtain ⟨xt, hxt⟩ := h.known x hold
      exact ⟨xt, hkeep hxt⟩
    · exact ⟨wt, by simp [settle, numbered]⟩
  · show ((s.settlements ++ [(w, r)]).map Prod.fst).Nodup
    rw [List.map_append]
    refine h.once.append (by simp) ?_
    intro x hx hxw
    obtain rfl : x = w := by simpa using hxw
    exact hnew hx

/-- A wait that is registered owns its entries, and takes none away. -/
theorem owned_registered (h : Owned s) (hw : s.waits w = none)
    (hfree : s.pendingResolve.get wt.taskId = none) :
    Owned ((s.numbered w wt).register w wt) := by
  have hnew := not_settled_of_new h hw
  have hget : ∀ {k x}, s.pendingResolve.get k = some x →
      (s.pendingResolve.set wt.taskId w).get k = some x := by
    intro k x hk
    rw [OrderedMap.get_set_ne]
    · exact hk
    · rintro rfl
      rw [hfree] at hk
      exact absurd hk (by simp)
  refine ⟨?_, ?_, ?_, ?_, ?_, ?_, ?_, h.once⟩
  · show s.pendingReject.set wt.taskId w = s.pendingResolve.set wt.taskId w
    rw [h.rejectSame]
  · show s.timers.set wt.taskId w = s.pendingResolve.set wt.taskId w
    rw [h.timersSame]
  · intro x xt hx hnot
    show (s.pendingResolve.set wt.taskId w).get xt.taskId = some x
    by_cases hxw : x = w
    · subst hxw
      obtain rfl : wt = xt := by simpa [register, numbered] using hx
      exact OrderedMap.get_set_self _ _ _
    · exact hget (h.owns x xt (by simpa [register, numbered, hxw] using hx) hnot)
  · intro x xt hx hnot
    show x ∈ s.armed ++ [w]
    by_cases hxw : x = w
    · simp [hxw]
    · exact List.mem_append_left _
        (h.ticking x xt (by simpa [register, numbered, hxw] using hx) hnot)
  · intro k x hk
    by_cases hkt : k = wt.taskId
    · subst hkt
      obtain rfl : w = x := by simpa [register, numbered] using hk
      exact ⟨wt, by simp [register, numbered], rfl, hnew⟩
    · have hk' : (s.pendingResolve.set wt.taskId w).get k = some x := hk
      rw [OrderedMap.get_set_ne _ _ hkt] at hk'
      obtain ⟨xt, hxt, htask, hnot⟩ := h.pending k x hk'
      exact ⟨xt, by simpa [register, numbered, ne_of_known hw hxt] using hxt, htask, hnot⟩
  · intro x hx
    rcases List.mem_append.mp hx with hold | hlast
    · obtain ⟨xt, hxt, hnot⟩ := h.live x hold
      exact ⟨xt, by simpa [register, numbered, ne_of_known hw hxt] using hxt, hnot⟩
    · obtain rfl : x = w := by simpa using hlast
      exact ⟨wt, by simp [register, numbered], hnew⟩
  · intro x hx
    obtain ⟨xt, hxt⟩ := h.known x hx
    exact ⟨xt, by simpa [register, numbered, ne_of_known hw hxt] using hxt⟩

theorem listening_refused (h : Listening s) (r : Settlement) :
    Listening ((s.numbered w wt).settle w r) := by
  intro x xt sig hx hsig hnot
  rw [settled_settle, not_or] at hnot
  have hx' : (s.numbered w wt).waits x = some xt := hx
  rw [numbered_waits_ne hnot.2] at hx'
  exact h x xt sig hx' hsig hnot.1

theorem listening_registered (h : Listening s) (hfree : s.abortedAlready wt = none) :
    Listening ((s.numbered w wt).register w wt) := by
  intro x xt sig hx hsig hnot
  have hheard : ∀ y sg, y ∈ s.listeners sg →
      y ∈ ((s.numbered w wt).register w wt).listeners sg := by
    intro y sg hy
    unfold register
    cases wt.signal with
    | none => exact hy
    | some sg' =>
        show y ∈ if sg = sg' then s.listeners sg ++ [w] else s.listeners sg
        split
        · exact List.mem_append_left _ hy
        · exact hy
  by_cases hxw : x = w
  · subst hxw
    obtain rfl : wt = xt := by simpa [register, numbered] using hx
    have hquiet : s.aborted sig = none := by simpa [abortedAlready, hsig] using hfree
    exact ⟨hquiet, by simp [register, hsig]⟩
  · obtain ⟨hquiet, hmem⟩ := h x xt sig (by simpa [register, numbered, hxw] using hx) hsig hnot
    exact ⟨hquiet, hheard x sig hmem⟩

/-- A wait is refused at once or registered. -/
theorem wait_cases (s : Router) (w : ℕ) (wt : Wait) (thrown : Queue → Option JsString) :
    (∃ err, s.wait w wt thrown = (s.numbered w wt).settle w (.rejected err)) ∨
    (s.pendingResolve.get wt.taskId = none ∧ s.abortedAlready wt = none ∧
      s.wait w wt thrown = ((s.numbered w wt).register w wt).ensureSubscribed thrown) := by
  unfold wait
  extract_lets t
  by_cases htaken : (t.pendingResolve.get wt.taskId).isSome = true
  · rw [if_pos htaken]
    exact .inl ⟨_, rfl⟩
  · rw [if_neg htaken]
    cases hab : t.abortedAlready wt with
    | some reason => exact .inl ⟨_, rfl⟩
    | none => exact .inr ⟨by simpa [t, numbered] using htaken, hab, rfl⟩

theorem wait_spec (h : Owned s) (hl : Listening s) (hw : s.waits w = none)
    (thrown : Queue → Option JsString) :
    Owned (s.wait w wt thrown) ∧ Listening (s.wait w wt thrown) := by
  rcases s.wait_cases w wt thrown with ⟨err, hwait⟩ | ⟨hfree, hquiet, hwait⟩ <;> rw [hwait]
  · exact ⟨owned_refused h hw _, listening_refused hl _⟩
  · obtain ⟨hown, hadv⟩ := ensureSubscribed_spec (owned_registered h hw hfree) thrown
    exact ⟨hown, (listening_registered hl hquiet).advance hadv⟩

/-! ### Messages, timers and aborts -/

theorem onCompleted_spec (h : Owned s) (taskId : JsString) (data : MessageData) :
    Owned (s.onCompleted taskId data) ∧ Advances s (s.onCompleted taskId data) := by
  unfold onCompleted
  cases hget : s.pendingResolve.get taskId with
  | none => exact ⟨h, Advances.refl s⟩
  | some w => exact ⟨h.finish hget _, advances_finish s _ _ _⟩

theorem onFailed_spec (h : Owned s) (taskId : JsString) (data : MessageData)
    (htext : (s.pendingReject.get taskId).isSome = true → failureError data ≠ none) :
    Owned (s.onFailed taskId data) ∧ Advances s (s.onFailed taskId data) := by
  unfold onFailed
  rw [h.rejectSame] at htext ⊢
  cases hget : s.pendingResolve.get taskId with
  | none => exact ⟨h, Advances.refl s⟩
  | some w =>
      cases herr : failureError data with
      | none => exact absurd herr (htext (by simp [hget]))
      | some err => exact ⟨h.finish hget _, advances_finish s _ _ _⟩

/-- A listener or a timer that clears an entry of its own wait keeps the others theirs. -/
theorem giveUp_spec (h : Owned s) (err : Wait → WaitError)
    (hown : ∀ wt, s.waits w = some wt → ∀ o, s.pendingResolve.get wt.taskId = some o → o = w) :
    Owned (s.giveUp w err) ∧ Advances s (s.giveUp w err) := by
  unfold giveUp
  cases hw : s.waits w with
  | none => exact ⟨h, Advances.refl s⟩
  | some wt =>
      cases hget : s.pendingResolve.get wt.taskId with
      | none => exact ⟨by simpa [hget] using h, by simpa [hget] using Advances.refl s⟩
      | some o =>
          obtain rfl := hown wt hw o hget
          simp only [hget, Option.isSome_some, if_true]
          exact ⟨h.finish hget _, advances_finish s _ _ _⟩

/-- The listener of a wait that has not settled settles it. -/
theorem settled_giveUp (h : Owned s) (err : Wait → WaitError) (hw : s.waits w = some wt) :
    (s.giveUp w err).Settled w := by
  by_cases hset : s.Settled w
  · unfold giveUp
    rw [hw]
    simp only
    split
    · exact settled_finish.mpr (.inl hset)
    · exact hset
  · unfold giveUp
    rw [hw]
    simp only [h.owns w wt hw hset, Option.isSome_some, if_true]
    exact settled_finish.mpr (.inr rfl)

/-- The timer that fires is the one of the wait it settles. -/
theorem timer_eq (h : Owned s) (hw : s.waits w = some wt) (hopen : ¬ s.Settled w) :
    { s with armed := s.armed.filter fun x => x ≠ w }.giveUp w Wait.timeoutError
      = s.finish wt.taskId w (.rejected wt.timeoutError) := by
  have hget := h.owns w wt hw hopen
  have htimer : s.timers.get wt.taskId = some w := by
    rw [h.timersSame]
    exact hget
  simp [giveUp, hw, hget, finish, clearPending, htimer, List.filter_filter]

/-- No listener of the signal belongs to a wait whose entry a later wait has taken. -/
def NoStale (s : Router) (sig : ℕ) : Prop :=
  ∀ l ∈ s.listeners sig, ∀ wt, s.waits l = some wt →
    ∀ o, s.pendingResolve.get wt.taskId = some o → o = l

theorem pending_of_giveUp {err : Wait → WaitError} {k : JsString} {o : ℕ}
    (h : (s.giveUp w err).pendingResolve.get k = some o) : s.pendingResolve.get k = some o := by
  unfold giveUp at h
  cases hw : s.waits w with
  | none => simpa [hw] using h
  | some wt =>
      simp only [hw] at h
      split at h
      · exact (OrderedMap.get_of_erase h).2
      · exact h

/-- The listeners called in order: each keeps the entries of the others, and settles its
own wait. -/
theorem listeners_spec (err : Wait → WaitError) :
    ∀ {ls : List ℕ} {s : Router}, Owned s →
      (∀ l ∈ ls, ∀ wt, s.waits l = some wt →
        ∀ o, s.pendingResolve.get wt.taskId = some o → o = l) →
      Owned (ls.foldl (fun s w => s.giveUp w err) s) ∧
      Advances s (ls.foldl (fun s w => s.giveUp w err) s) ∧
      ∀ l ∈ ls, ∀ wt, s.waits l = some wt → (ls.foldl (fun s w => s.giveUp w err) s).Settled l := by
  intro ls
  induction ls with
  | nil => intro s h _; exact ⟨h, Advances.refl s, by simp⟩
  | cons l rest ih =>
      intro s h hown
      obtain ⟨hfirst, hadv⟩ := giveUp_spec h err (hown l (by simp))
      obtain ⟨hrest, hadv', hset⟩ := ih hfirst (by
        intro x hx xt hxt o ho
        rw [hadv.waits] at hxt
        exact hown x (by simp [hx]) xt hxt o (pending_of_giveUp ho))
      refine ⟨hrest, hadv.trans hadv', fun x hx xt hxt => ?_⟩
      rcases List.mem_cons.mp hx with rfl | hx
      · exact hadv'.settled x (settled_giveUp h err hxt)
      · exact hset x hx xt (by rw [hadv.waits]; exact hxt)

theorem abort_spec (h : Owned s) (hl : Listening s) {sig : ℕ} (hstale : s.NoStale sig)
    (reason : AbortReason) :
    Owned (s.abort sig reason) ∧ Listening (s.abort sig reason) ∧
      ∀ w wt, s.waits w = some wt → wt.signal = some sig → (s.abort sig reason).Settled w := by
  have hbase : Owned { s with
      aborted := fun x => if x = sig then some reason else s.aborted x
      listeners := fun x => if x = sig then [] else s.listeners x } :=
    ⟨h.rejectSame, h.timersSame, h.owns, h.ticking, h.pending, h.live, h.known, h.once⟩
  obtain ⟨hown, hadv, hset⟩ := listeners_spec (fun wt => abortError reason wt.label) hbase hstale
  have hall : ∀ w wt, s.waits w = some wt → wt.signal = some sig →
      (s.abort sig reason).Settled w := by
    intro w wt hw hsig
    by_cases hold : s.Settled w
    · exact hadv.settled w hold
    · exact hset w (hl w wt sig hw hsig hold).2 wt hw
  refine ⟨hown, ?_, hall⟩
  intro w wt sg hw hsig hnot
  have hw' : s.waits w = some wt := by
    rw [show (s.abort sig reason).waits = s.waits from hadv.waits] at hw
    exact hw
  have hne : sg ≠ sig := by
    rintro rfl
    exact hnot (hall w wt hw' hsig)
  obtain ⟨hquiet, hmem⟩ := hl w wt sg hw' hsig fun hold => hnot (hadv.settled w hold)
  constructor
  · show (s.abort sig reason).aborted sg = none
    rw [show (s.abort sig reason).aborted = _ from hadv.aborted]
    simpa [hne] using hquiet
  · show w ∈ (s.abort sig reason).listeners sg
    rw [show (s.abort sig reason).listeners = _ from hadv.listeners]
    simpa [hne] using hmem

/-! ### Runs -/

/-- Whatever clears an entry settles its wait: the abort meets no stale listener, and the
dead-letter record of a pending task has an error that can be turned into text. -/
def Clean (s : Router) : RouterEvent → Prop
  | .abort sig _ => s.NoStale sig
  | .failed taskId data =>
      (s.pendingReject.get taskId).isSome = true → failureError data ≠ none
  | _ => True

theorem step_spec {e : RouterEvent} (h : Owned s) (hl : Listening s) (hc : s.Clean e)
    (hstep : s.step e = some s') : Owned s' ∧ Listening s' := by
  cases e with
  | wait w wt thrown =>
      simp only [step] at hstep
      split at hstep
      · exact absurd hstep (by simp)
      · rename_i hnew
        obtain rfl := Option.some.inj hstep
        exact wait_spec h hl (by simpa using hnew) thrown
  | completed taskId data =>
      obtain rfl := Option.some.inj hstep
      obtain ⟨hown, hadv⟩ := onCompleted_spec h taskId data
      exact ⟨hown, hl.advance hadv⟩
  | failed taskId data =>
      obtain rfl := Option.some.inj hstep
      obtain ⟨hown, hadv⟩ := onFailed_spec h taskId data hc
      exact ⟨hown, hl.advance hadv⟩
  | timer w =>
      simp only [step] at hstep
      split at hstep
      · rename_i harmed
        obtain rfl := Option.some.inj hstep
        obtain ⟨wt, hw, hopen⟩ := h.live w harmed
        rw [timer_eq h hw hopen]
        exact ⟨h.finish (h.owns w wt hw hopen) _, hl.advance (advances_finish s _ _ _)⟩
      · exact absurd hstep (by simp)
  | abort sig reason =>
      simp only [step] at hstep
      split at hstep
      · exact absurd hstep (by simp)
      · obtain rfl := Option.some.inj hstep
        obtain ⟨hown, hlisten, -⟩ := abort_spec h hl hc reason
        exact ⟨hown, hlisten⟩
  | subscribeRejected q message =>
      simp only [step] at hstep
      split at hstep
      · obtain rfl := Option.some.inj hstep
        obtain ⟨hown, hadv⟩ := subscribeFailed_spec (owned_subscribing h (s.subscribing.erase q)) q
          message
        exact ⟨hown, (hl.advance ⟨rfl, rfl, rfl, fun _ hx => hx⟩ : Listening
          { s with subscribing := s.subscribing.erase q }).advance hadv⟩
      · exact absurd hstep (by simp)

theorem owned_init : Owned init :=
  ⟨rfl, rfl, by simp [init], by simp [init], by simp [init], by simp [init],
    by simp [init, Settled], by simp [init]⟩

theorem listening_init : Listening init := fun w wt sig hw => absurd hw (by simp [init])

theorem run_spec {es : List RouterEvent} (hc : Steps.Along step Clean init es)
    (hrun : Steps.run step init es = some s) : Owned s ∧ Listening s :=
  Steps.run_invariant (P := fun s => Owned s ∧ Listening s)
    (fun _ _ _ h hclean hstep => step_spec h.1 h.2 hclean hstep)
      ⟨owned_init, listening_init⟩ hc hrun

/-- What the claims of a waiter come to in one state. -/
structure Sound (s : Router) : Prop where
  sameKeys : ∀ k, (s.pendingResolve.get k).isSome = (s.pendingReject.get k).isSome ∧
    (s.pendingResolve.get k).isSome = (s.timers.get k).isSome
  entries : ∀ w wt, s.waits w = some wt → ¬ s.Settled w →
    s.pendingResolve.get wt.taskId = some w ∧ s.pendingReject.get wt.taskId = some w ∧
      s.timers.get wt.taskId = some w ∧ w ∈ s.armed
  once : (s.settlements.map Prod.fst).Nodup
  abortSettles : ∀ sig reason s', s.NoStale sig → s.step (.abort sig reason) = some s' →
    ∀ w wt, s.waits w = some wt → wt.signal = some sig → s'.Settled w
  timerSettles : ∀ w wt, s.waits w = some wt → ¬ s.Settled w →
    ∃ s', s.step (.timer w) = some s' ∧ s'.Settled w

/-- **Every wait that has not settled owns its entries, and an event is left that settles
it**, in every run in which whatever clears an entry settles its wait. -/
theorem waits_owned {es : List RouterEvent} (hc : Steps.Along step Clean init es)
    (hrun : Steps.run step init es = some s) : Sound s := by
  obtain ⟨h, hl⟩ := run_spec hc hrun
  refine ⟨fun k => ?_, fun w wt hw hopen => ?_, h.once, ?_, fun w wt hw hopen => ?_⟩
  · rw [h.rejectSame, h.timersSame]
    exact ⟨rfl, rfl⟩
  · rw [h.rejectSame, h.timersSame]
    exact ⟨h.owns w wt hw hopen, h.owns w wt hw hopen, h.owns w wt hw hopen,
      h.ticking w wt hw hopen⟩
  · intro sig reason s' hstale hstep w wt hw hsig
    simp only [step] at hstep
    split at hstep
    · exact absurd hstep (by simp)
    · obtain rfl := Option.some.inj hstep
      exact (abort_spec h hl hstale reason).2.2 w wt hw hsig
  · refine ⟨_, if_pos (h.ticking w wt hw hopen), ?_⟩
    rw [timer_eq h hw hopen]
    exact settled_finish.mpr (.inr rfl)

/-- Two waits for one task with one signal; the first has its answer. -/
def retriedTask : List RouterEvent :=
  [.wait 0 ⟨js "task-1", js "120", js "research", some 0⟩ fun _ => none,
    .completed (js "task-1") [],
    .wait 1 ⟨js "task-1", js "120", js "research", some 0⟩ fun _ => none]

theorem waits_owned_retried :
    ∃ s, Steps.run step init retriedTask = some s ∧ Sound s := by
  obtain ⟨s, hrun⟩ : ∃ s, Steps.run step init retriedTask = some s := ⟨_, rfl⟩
  refine ⟨s, hrun, waits_owned ?_ hrun⟩
  exact ⟨trivial, fun _ _ => ⟨trivial, fun _ _ => ⟨trivial, fun _ _ => trivial⟩⟩⟩

/-- The signal aborts, and the second wait is left without an entry and without a timer. -/
theorem stale_listener_orphans :
    ∃ s wt, Steps.run step init (retriedTask ++ [.abort 0 .other]) = some s ∧
      s.waits 1 = some wt ∧ ¬ s.Settled 1 ∧ s.pendingResolve.get wt.taskId = none ∧
      s.pendingReject.get wt.taskId = none ∧ s.armed = [] := by
  refine ⟨_, _, rfl, rfl, ?_, rfl, rfl, rfl⟩
  show 1 ∉ [0, 0]
  simp

end Kaiban.Router
