/-
What becomes of one wait, whatever happens to the others.

The invariant of a router that `Owned` states is about all of its waits, and one event
that clears an entry it should not breaks it for good.  A caller cares about its own waits.
`Linked` is what every router keeps without conditions: the three maps are one, and entries
and timers belong to waits.  On top of it a wait is `Held`, with its entry, its timer and
its abort listener, or it has settled and left nothing behind.  Every event keeps that, as
long as it does not clear the entry of this very wait without settling it.
-/
import Kaiban.Proofs.Router

open JsString

namespace Kaiban.Router

variable {s s' : Router} {w : ℕ} {wt : Wait}

/-! ### What every router keeps -/

/-- The three maps are one, and its entries and the timers belong to waits. -/
structure Linked (s : Router) : Prop where
  rejectSame : s.pendingReject = s.pendingResolve
  timersSame : s.timers = s.pendingResolve
  keyed : ∀ k x, s.pendingResolve.get k = some x → ∃ xt, s.waits x = some xt ∧ xt.taskId = k
  armed : ∀ x ∈ s.armed, ∃ xt, s.waits x = some xt ∧ s.pendingResolve.get xt.taskId = some x
  known : ∀ x, s.Settled x → ∃ xt, s.waits x = some xt

theorem linked_init : Linked init :=
  ⟨rfl, rfl, fun _ _ h => absurd h (by simp [init]), fun _ h => absurd h (by simp [init]),
    fun _ h => absurd h (by simp [init, Settled])⟩

/-- The timers that run after an entry was cleared. -/
theorem armed_clearPending {k : JsString} {x : ℕ} :
    x ∈ (s.clearPending k).armed ↔ x ∈ s.armed ∧ s.timers.get k ≠ some x := by
  unfold clearPending
  cases s.timers.get k with
  | none => simp
  | some o =>
      show x ∈ s.armed.filter (fun y => y ≠ o) ↔ _
      rw [List.mem_filter, decide_eq_true_eq, ne_eq, ne_eq, Option.some.injEq]
      exact and_congr_right fun _ => not_congr eq_comm

theorem Linked.clearPending (h : Linked s) (k : JsString) : Linked (s.clearPending k) := by
  refine ⟨?_, ?_, fun j x hx => ?_, fun x hx => ?_, h.known⟩
  · show s.pendingReject.erase k = s.pendingResolve.erase k
    rw [h.rejectSame]
  · show s.timers.erase k = s.pendingResolve.erase k
    rw [h.timersSame]
  · exact h.keyed j x (OrderedMap.get_of_erase hx).2
  · obtain ⟨hmem, hne⟩ := armed_clearPending.mp hx
    obtain ⟨xt, hxt, hget⟩ := h.armed x hmem
    refine ⟨xt, hxt, ?_⟩
    show (s.pendingResolve.erase k).get xt.taskId = some x
    rw [OrderedMap.get_erase_ne]
    · exact hget
    · rintro rfl
      rw [h.timersSame] at hne
      exact hne hget

theorem Linked.settle (h : Linked s) {x : ℕ} {xt : Wait} (hx : s.waits x = some xt)
    (r : Settlement) : Linked (s.settle x r) := by
  refine ⟨h.rejectSame, h.timersSame, h.keyed, h.armed, fun y hy => ?_⟩
  rcases settled_settle.mp hy with hold | rfl
  · exact h.known y hold
  · exact ⟨xt, hx⟩

/-! ### One wait -/

/-- A wait that has not settled, with its entry and its timer. -/
structure Held (s : Router) (w : ℕ) (wt : Wait) : Prop where
  isOpen : ¬ s.Settled w
  entry : s.pendingResolve.get wt.taskId = some w
  armed : w ∈ s.armed

/-- A wait that has settled and left no entry and no timer. -/
structure Gone (s : Router) (w : ℕ) : Prop where
  settled : s.Settled w
  entry : ∀ k, s.pendingResolve.get k ≠ some w
  armed : w ∉ s.armed

/-- The wait is held or gone. -/
def Kept (s : Router) (w : ℕ) (wt : Wait) : Prop :=
  s.waits w = some wt ∧ (Held s w wt ∨ Gone s w)

/-- A wait that is held hears its signal. -/
def Hears (s : Router) (w : ℕ) (wt : Wait) : Prop :=
  ∀ sig, wt.signal = some sig → s.aborted sig = none ∧ w ∈ s.listeners sig

/-- What every wait of a caller should be. -/
def Standing (s : Router) (w : ℕ) (wt : Wait) : Prop :=
  Kept s w wt ∧ (¬ s.Settled w → Hears s w wt)

/-- An entry that is cleared and whose wait is settled leaves the other waits as they
are. -/
theorem Kept.finish (hl : Linked s) (h : Kept s w wt) {k : JsString} {x : ℕ} {r : Settlement}
    (hown : s.pendingResolve.get k = some w → x = w) (hkey : x = w → k = wt.taskId) :
    Kept (s.finish k x r) w wt := by
  refine ⟨h.1, ?_⟩
  have herased : ∀ {j y}, (s.finish k x r).pendingResolve.get j = some y →
      j ≠ k ∧ s.pendingResolve.get j = some y := fun hy => OrderedMap.get_of_erase hy
  rcases h.2 with hheld | hgone
  · by_cases hk : k = wt.taskId
    · -- its own entry: the wait settles
      have hxw : x = w := hown (hk ▸ hheld.entry)
      refine .inr ⟨settled_finish.mpr (.inr hxw.symm), fun j hj => ?_, fun harmed => ?_⟩
      · obtain ⟨hne, hget⟩ := herased hj
        obtain ⟨xt, hxt, htask⟩ := hl.keyed j w hget
        obtain rfl : wt = xt := Option.some.inj (h.1.symm.trans hxt)
        exact hne (htask.symm.trans hk.symm)
      · obtain ⟨-, hne⟩ := armed_clearPending.mp harmed
        rw [hl.timersSame, hk] at hne
        exact hne hheld.entry
    · refine .inl ⟨fun hset => ?_, ?_, armed_clearPending.mpr ⟨hheld.armed, fun ho => ?_⟩⟩
      · rcases settled_finish.mp hset with hold | rfl
        · exact hheld.isOpen hold
        · exact hk (hkey rfl)
      · show (s.pendingResolve.erase k).get wt.taskId = some w
        rw [OrderedMap.get_erase_ne _ (Ne.symm hk)]
        exact hheld.entry
      · rw [hl.timersSame] at ho
        obtain ⟨xt, hxt, htask⟩ := hl.keyed k w ho
        obtain rfl : wt = xt := Option.some.inj (h.1.symm.trans hxt)
        exact hk htask.symm
  · exact .inr ⟨settled_finish.mpr (.inl hgone.settled), fun j hj => hgone.entry j (herased hj).2,
      fun harmed => hgone.armed (armed_clearPending.mp harmed).1⟩

/-! ### Steps that only reject -/

/-- From `s` to `s'` some waits were rejected, and every wait is kept. -/
structure Rejects (s s' : Router) : Prop where
  linked : Linked s'
  advances : Advances s s'
  kept : ∀ w wt, Kept s w wt → Kept s' w wt
  added : ∃ new, s'.settlements = s.settlements ++ new ∧
    ∀ e ∈ new, ∃ err, e.2 = Settlement.rejected err

theorem Rejects.refl (h : Linked s) : Rejects s s :=
  ⟨h, Advances.refl s, fun _ _ hk => hk, [], by simp, by simp⟩

theorem Rejects.trans {a b c : Router} (hab : Rejects a b) (hbc : Rejects b c) : Rejects a c := by
  obtain ⟨new, hnew, hrej⟩ := hab.added
  obtain ⟨new', hnew', hrej'⟩ := hbc.added
  refine ⟨hbc.linked, hab.advances.trans hbc.advances,
    fun w wt h => hbc.kept w wt (hab.kept w wt h), new ++ new', ?_, fun e he => ?_⟩
  · rw [hnew', hnew, List.append_assoc]
  · rcases List.mem_append.mp he with he | he
    · exact hrej e he
    · exact hrej' e he

/-- The wait an entry belongs to is rejected. -/
theorem rejects_finish (h : Linked s) {k : JsString} {x : ℕ}
    (hget : s.pendingResolve.get k = some x) (err : WaitError) :
    Rejects s (s.finish k x (.rejected err)) := by
  obtain ⟨xt, hxt, hkey⟩ := h.keyed k x hget
  refine ⟨(h.clearPending k).settle hxt _, advances_finish s k x _, fun w wt hk => ?_,
    [(x, .rejected err)], rfl, by simp⟩
  refine hk.finish h (fun hw => Option.some.inj (hget.symm.trans hw)) ?_
  rintro rfl
  obtain rfl : wt = xt := Option.some.inj (hk.1.symm.trans hxt)
  exact hkey.symm

theorem rejects_rejectAll (err : WaitError) :
    ∀ {es : List (JsString × ℕ)} {s : Router}, Linked s → (es.map Prod.fst).Nodup →
      (∀ e ∈ es, s.pendingResolve.get e.1 = some e.2) → Rejects s (rejectAll err s es) := by
  intro es
  induction es with
  | nil => intro s h _ _; exact Rejects.refl h
  | cons e rest ih =>
      intro s h hnodup hget
      rw [List.map_cons, List.nodup_cons] at hnodup
      have hfirst := rejects_finish h (hget e (by simp)) err
      refine hfirst.trans (ih hfirst.linked hnodup.2 fun f hf => ?_)
      show (s.pendingResolve.erase e.1).get f.1 = some f.2
      rw [OrderedMap.get_erase_ne]
      · exact hget f (by simp [hf])
      · intro heq
        exact hnodup.1 (heq ▸ List.mem_map_of_mem hf)

theorem rejects_setSubscribed (h : Linked s) (q : Queue) (b : Bool) :
    Rejects s (s.setSubscribed q b) := by
  cases q with
  | completed =>
      exact ⟨⟨h.rejectSame, h.timersSame, h.keyed, h.armed, h.known⟩, ⟨rfl, rfl, rfl, fun _ h => h⟩,
        fun _ _ hk => ⟨hk.1, hk.2.imp (fun x => ⟨x.1, x.2, x.3⟩) fun x => ⟨x.1, x.2, x.3⟩⟩,
        [], by simp [setSubscribed], by simp⟩
  | failed =>
      exact ⟨⟨h.rejectSame, h.timersSame, h.keyed, h.armed, h.known⟩, ⟨rfl, rfl, rfl, fun _ h => h⟩,
        fun _ _ hk => ⟨hk.1, hk.2.imp (fun x => ⟨x.1, x.2, x.3⟩) fun x => ⟨x.1, x.2, x.3⟩⟩,
        [], by simp [setSubscribed], by simp⟩

theorem rejects_subscribing (h : Linked s) (qs : List Queue) :
    Rejects s { s with subscribing := qs } :=
  ⟨⟨h.rejectSame, h.timersSame, h.keyed, h.armed, h.known⟩, ⟨rfl, rfl, rfl, fun _ h => h⟩,
    fun _ _ hk => ⟨hk.1, hk.2.imp (fun x => ⟨x.1, x.2, x.3⟩) fun x => ⟨x.1, x.2, x.3⟩⟩,
    [], by simp, by simp⟩

/-- A refused subscription rejects everyone. -/
theorem rejects_subscribeFailed (h : Linked s) (q : Queue) (message : JsString) :
    Rejects s (s.subscribeFailed q message) := by
  have hset := rejects_setSubscribed h q false
  refine hset.trans (rejects_rejectAll _ hset.linked (OrderedMap.nodup _) fun e he => ?_)
  rw [← hset.linked.rejectSame]
  exact OrderedMap.get_eq_some.mpr he

theorem rejects_subscribe (h : Linked s) (q : Queue) (thrown : Option JsString) :
    Rejects s (s.subscribe q thrown) := by
  have hset := rejects_setSubscribed h q true
  unfold subscribe
  cases thrown with
  | none => exact hset.trans (rejects_subscribing hset.linked _)
  | some message => exact hset.trans (rejects_subscribeFailed hset.linked q message)

theorem rejects_ensureSubscribed (h : Linked s) (thrown : Queue → Option JsString) :
    Rejects s (s.ensureSubscribed thrown) := by
  have hfirst : ∀ t : Router, (t = if s.completedSubscribed then s
      else s.subscribe .completed (thrown .completed)) → Rejects s t := by
    intro t ht
    subst ht
    split
    · exact Rejects.refl h
    · exact rejects_subscribe h _ _
  have hone := hfirst _ rfl
  unfold ensureSubscribed
  extract_lets t
  split
  · exact hone
  · exact hone.trans (rejects_subscribe hone.linked .failed (thrown .failed))

/-! ### Events -/

/-- Whatever clears the entry of the wait settles it: no abort meets the listener of
another wait that would clear it, and the dead-letter record it may get has an error that
can be turned into text. -/
def CleanFor (w : ℕ) (s : Router) : RouterEvent → Prop
  | .abort sig _ => ∀ l ∈ s.listeners sig, ∀ lt, s.waits l = some lt →
      s.pendingResolve.get lt.taskId = some w → l = w
  | .failed taskId data => s.pendingReject.get taskId = some w → failureError data ≠ none
  | _ => True

/-- What one event does to a wait that has begun. -/
structure Effect (s : Router) (e : RouterEvent) (s' : Router) : Prop where
  linked : Linked s'
  waits : ∀ w wt, s.waits w = some wt → s'.waits w = some wt
  aborted : ∀ sig reason, s.aborted sig = some reason → s'.aborted sig = some reason
  standing : ∀ w wt, CleanFor w s e → Standing s w wt → Standing s' w wt
  added : ∃ new, s'.settlements = s.settlements ++ new ∧ ∀ x r, (x, .resolved r) ∈ new →
    ∃ taskId data, e = .completed taskId data ∧ s.pendingResolve.get taskId = some x ∧
      r = completionText data

theorem Standing.advance (h : Standing s w wt) (ha : Advances s s') (hk : Kept s' w wt) :
    Standing s' w wt := by
  refine ⟨hk, fun hopen sig hsig => ?_⟩
  rw [ha.aborted, ha.listeners]
  exact h.2 (fun hset => hopen (ha.settled w hset)) sig hsig

/-- An event that only rejects. -/
theorem Rejects.effect (h : Rejects s s') (e : RouterEvent) : Effect s e s' := by
  obtain ⟨new, hnew, hrej⟩ := h.added
  refine ⟨h.linked, fun w wt hw => h.advances.waits ▸ hw, fun sig reason hab => ?_,
    fun w wt _ hs => hs.advance h.advances (h.kept w wt hs.1), new, hnew, fun x r hx => ?_⟩
  · rw [h.advances.aborted]
    exact hab
  · obtain ⟨err, herr⟩ := hrej _ hx
    exact absurd herr (by simp)

theorem effect_completed (h : Linked s) (taskId : JsString) (data : MessageData) :
    Effect s (.completed taskId data) (s.onCompleted taskId data) := by
  unfold onCompleted
  cases hget : s.pendingResolve.get taskId with
  | none => exact (Rejects.refl h).effect _
  | some x =>
      obtain ⟨xt, hxt, hkey⟩ := h.keyed taskId x hget
      have hadv := advances_finish s taskId x (.resolved (completionText data))
      refine ⟨(h.clearPending taskId).settle hxt _, fun _ _ hw => hw, fun _ _ hab => hab,
        fun w wt _ hs => hs.advance hadv ?_, [(x, .resolved (completionText data))], rfl, ?_⟩
      · refine hs.1.finish h (fun hw => Option.some.inj (hget.symm.trans hw)) ?_
        rintro rfl
        obtain rfl : wt = xt := Option.some.inj (hs.1.1.symm.trans hxt)
        exact hkey.symm
      · intro y r hy
        obtain ⟨rfl, hr⟩ := Prod.mk.injEq .. ▸ List.mem_singleton.mp hy
        exact ⟨taskId, data, rfl, hget, Settlement.resolved.inj hr⟩

theorem effect_failed (h : Linked s) (taskId : JsString) (data : MessageData) :
    Effect s (.failed taskId data) (s.onFailed taskId data) := by
  unfold onFailed
  cases hget : s.pendingReject.get taskId with
  | none => exact (Rejects.refl h).effect _
  | some x =>
      have hget' : s.pendingResolve.get taskId = some x := h.rejectSame ▸ hget
      cases herr : failureError data with
      | some err => exact (rejects_finish h hget' err).effect _
      | none =>
          -- the entry is cleared and nothing is settled: this is another wait's entry
          refine ⟨h.clearPending taskId, fun _ _ hw => hw, fun _ _ hab => hab,
            fun w wt hc hs => ?_, [], by simp [clearPending], by simp⟩
          have hne : x ≠ w := by
            rintro rfl
            exact hc hget herr
          have hadv : Advances s (s.clearPending taskId) := ⟨rfl, rfl, rfl, fun _ hx => hx⟩
          refine hs.advance hadv ⟨hs.1.1, hs.1.2.imp (fun hheld => ?_) fun hgone => ?_⟩
          · refine ⟨hheld.isOpen, ?_, armed_clearPending.mpr ⟨hheld.armed, fun ho => ?_⟩⟩
            · show (s.pendingResolve.erase taskId).get wt.taskId = some w
              rw [OrderedMap.get_erase_ne]
              · exact hheld.entry
              · rintro rfl
                exact hne (Option.some.inj (hget'.symm.trans hheld.entry))
            · rw [h.timersSame] at ho
              exact hne (Option.some.inj (hget'.symm.trans ho))
          · exact ⟨hgone.settled, fun k hk => hgone.entry k (OrderedMap.get_of_erase hk).2,
              fun harmed => hgone.armed (armed_clearPending.mp harmed).1⟩

/-! ### Timers and aborts -/

theorem giveUp_cases (s : Router) (l : ℕ) (err : Wait → WaitError) :
    s.giveUp l err = s ∨ ∃ lt, s.waits l = some lt ∧
      s.giveUp l err = s.finish lt.taskId l (.rejected (err lt)) := by
  unfold giveUp
  cases hl : s.waits l with
  | none => exact .inl rfl
  | some lt =>
      simp only
      split
      · exact .inr ⟨lt, rfl, rfl⟩
      · exact .inl rfl

/-- The timer that fires is the one of the wait it settles. -/
theorem timer_finish (h : Linked s) {x : ℕ} (hx : x ∈ s.armed) :
    ∃ xt, s.waits x = some xt ∧ s.pendingResolve.get xt.taskId = some x ∧
      { s with armed := s.armed.filter fun y => y ≠ x }.giveUp x Wait.timeoutError
        = s.finish xt.taskId x (.rejected xt.timeoutError) := by
  obtain ⟨xt, hxt, hget⟩ := h.armed x hx
  have htimer : s.timers.get xt.taskId = some x := h.timersSame ▸ hget
  refine ⟨xt, hxt, hget, ?_⟩
  simp [giveUp, hxt, hget, finish, Router.clearPending, htimer, List.filter_filter]

theorem effect_timer (h : Linked s) {x : ℕ} (hx : x ∈ s.armed) :
    Effect s (.timer x)
      ({ s with armed := s.armed.filter fun y => y ≠ x }.giveUp x Wait.timeoutError) := by
  obtain ⟨xt, -, hget, heq⟩ := timer_finish h hx
  rw [heq]
  exact (rejects_finish h hget _).effect _

/-- What the listeners of a signal do, called in order. -/
theorem listeners_kept (err : Wait → WaitError) :
    ∀ (ls : List ℕ) {s : Router}, Linked s →
      Linked (ls.foldl (fun s l => s.giveUp l err) s) ∧
      Advances s (ls.foldl (fun s l => s.giveUp l err) s) ∧
      (∃ new, (ls.foldl (fun s l => s.giveUp l err) s).settlements = s.settlements ++ new ∧
        ∀ e ∈ new, ∃ err, e.2 = Settlement.rejected err) ∧
      ∀ w wt, Kept s w wt →
        (∀ l ∈ ls, ∀ lt, s.waits l = some lt → s.pendingResolve.get lt.taskId = some w → l = w) →
        Kept (ls.foldl (fun s l => s.giveUp l err) s) w wt ∧
          (w ∈ ls → (ls.foldl (fun s l => s.giveUp l err) s).Settled w) := by
  intro ls
  induction ls with
  | nil =>
      intro s h
      exact ⟨h, Advances.refl s, ⟨[], by simp, by simp⟩, fun w wt hk _ => ⟨hk, by simp⟩⟩
  | cons l rest ih =>
      intro s h
      rcases s.giveUp_cases l err with hsame | ⟨lt, hlt, hfinish⟩
      · obtain ⟨hlinked, hadv, hnew, hkept⟩ := ih h
        rw [List.foldl_cons, hsame]
        refine ⟨hlinked, hadv, hnew, fun w wt hk hown => ?_⟩
        obtain ⟨hk', hset⟩ := hkept w wt hk fun x hx => hown x (List.mem_cons_of_mem _ hx)
        refine ⟨hk', fun hw => ?_⟩
        rcases List.mem_cons.mp hw with rfl | hw
        · -- the listener of a held wait would have found its entry
          rcases hk.2 with hheld | hgone
          · have hgive : s.giveUp w err = s.finish wt.taskId w (.rejected (err wt)) := by
              simp [giveUp, hk.1, hheld.entry, finish]
            have hsettled : (s.giveUp w err).Settled w := by
              rw [hgive]
              exact settled_finish.mpr (.inr rfl)
            rw [hsame] at hsettled
            exact absurd hsettled hheld.isOpen
          · exact hadv.settled w hgone.settled
        · exact hset hw
      · have hlinked' : Linked (s.finish lt.taskId l (.rejected (err lt))) :=
          (h.clearPending lt.taskId).settle hlt _
        obtain ⟨hlinked, hadv, ⟨new, hnew, hrej⟩, hkept⟩ := ih hlinked'
        rw [List.foldl_cons, hfinish]
        refine ⟨hlinked, (advances_finish s _ _ _).trans hadv,
          ⟨(l, .rejected (err lt)) :: new, ?_, ?_⟩, fun w wt hk hown => ?_⟩
        · rw [hnew]
          simp [Router.finish, settle, Router.clearPending]
        · intro e he
          rcases List.mem_cons.mp he with rfl | he
          · exact ⟨_, rfl⟩
          · exact hrej e he
        · have hk' : Kept (s.finish lt.taskId l (.rejected (err lt))) w wt := by
            refine hk.finish h (hown l (List.mem_cons_self ..) lt hlt) ?_
            rintro rfl
            rw [Option.some.inj (hlt.symm.trans hk.1)]
          obtain ⟨hkept', hset⟩ := hkept w wt hk' fun x hx xt hxt hget =>
            hown x (List.mem_cons_of_mem _ hx) xt hxt (OrderedMap.get_of_erase hget).2
          refine ⟨hkept', fun hw => ?_⟩
          rcases List.mem_cons.mp hw with rfl | hw
          · exact hadv.settled w (settled_finish.mpr (.inr rfl))
          · exact hset hw

theorem effect_abort (h : Linked s) {sig : ℕ} (hfresh : s.aborted sig = none)
    (reason : AbortReason) : Effect s (.abort sig reason) (s.abort sig reason) := by
  have hbase : Linked { s with
      aborted := fun x => if x = sig then some reason else s.aborted x
      listeners := fun x => if x = sig then [] else s.listeners x } :=
    ⟨h.rejectSame, h.timersSame, h.keyed, h.armed, h.known⟩
  obtain ⟨hlinked, hadv, ⟨new, hnew, hrej⟩, hkept⟩ :=
    listeners_kept (fun wt => abortError reason wt.label) (s.listeners sig) hbase
  have haborted : (s.abort sig reason).aborted
      = fun x => if x = sig then some reason else s.aborted x := hadv.aborted
  have hlisteners : (s.abort sig reason).listeners
      = fun x => if x = sig then [] else s.listeners x := hadv.listeners
  refine ⟨hlinked, fun w wt hw => ?_, fun x r hx => ?_, fun w wt hc hs => ?_, new, hnew,
    fun x r hx => ?_⟩
  · rw [show (s.abort sig reason).waits = s.waits from hadv.waits]
    exact hw
  · rw [haborted]
    dsimp only
    rw [if_neg]
    · exact hx
    · rintro rfl
      rw [hfresh] at hx
      exact absurd hx (by simp)
  · have hk : Kept { s with
        aborted := fun x => if x = sig then some reason else s.aborted x
        listeners := fun x => if x = sig then [] else s.listeners x } w wt :=
      ⟨hs.1.1, hs.1.2.imp (fun x => ⟨x.1, x.2, x.3⟩) fun x => ⟨x.1, x.2, x.3⟩⟩
    obtain ⟨hk', hset⟩ := hkept w wt hk hc
    refine ⟨hk', fun hopen sg hsg => ?_⟩
    have hopen' : ¬ s.Settled w := fun hold => hopen (hadv.settled w hold)
    obtain ⟨hquiet, hmem⟩ := hs.2 hopen' sg hsg
    have hne : sg ≠ sig := by
      rintro rfl
      exact hopen (hset hmem)
    rw [haborted, hlisteners]
    simp only [if_neg hne]
    exact ⟨hquiet, hmem⟩
  · obtain ⟨err, herr⟩ := hrej _ hx
    exact absurd herr (by simp)

/-! ### A new wait -/

/-- A wait that is refused at once leaves the others alone. -/
theorem effect_refused (h : Linked s) (hw : s.waits w = none) (err : WaitError) (e : RouterEvent) :
    Effect s e ((s.numbered w wt).settle w (.rejected err)) ∧
      Standing ((s.numbered w wt).settle w (.rejected err)) w wt := by
  have hself : ((s.numbered w wt).settle w (.rejected err)).waits w = some wt := by
    simp [settle, numbered]
  have hkeep : ∀ {x xt}, s.waits x = some xt →
      ((s.numbered w wt).settle w (.rejected err)).waits x = some xt := by
    intro x xt hx
    show (s.numbered w wt).waits x = some xt
    rw [numbered_waits_ne (ne_of_known hw hx)]
    exact hx
  have hentry : ∀ k, s.pendingResolve.get k ≠ some w := by
    intro k hk
    obtain ⟨xt, hxt, -⟩ := h.keyed k w hk
    rw [hw] at hxt
    exact absurd hxt (by simp)
  refine ⟨⟨⟨h.rejectSame, h.timersSame, fun k x hx => ?_, fun x hx => ?_, fun x hx => ?_⟩,
    fun _ _ hx => hkeep hx, fun _ _ hab => hab, fun x xt _ hs => ?_, [(w, .rejected err)], rfl,
    by simp⟩,
    ⟨hself, .inr ⟨settled_settle.mpr (.inr rfl), hentry, fun harmed => ?_⟩⟩,
    fun hopen => absurd (settled_settle.mpr (.inr rfl)) hopen⟩
  · obtain ⟨xt, hxt, hkey⟩ := h.keyed k x hx
    exact ⟨xt, hkeep hxt, hkey⟩
  · obtain ⟨xt, hxt, hget⟩ := h.armed x hx
    exact ⟨xt, hkeep hxt, hget⟩
  · rcases settled_settle.mp hx with hold | rfl
    · obtain ⟨xt, hxt⟩ := h.known x hold
      exact ⟨xt, hkeep hxt⟩
    · exact ⟨wt, hself⟩
  · have hne : x ≠ w := ne_of_known hw hs.1.1
    refine ⟨⟨hkeep hs.1.1, hs.1.2.imp (fun hheld => ⟨fun hset => ?_, hheld.entry, hheld.armed⟩)
      fun hgone => ⟨settled_settle.mpr (.inl hgone.settled), hgone.entry, hgone.armed⟩⟩,
      fun hopen => hs.2 fun hold => hopen (settled_settle.mpr (.inl hold))⟩
    rcases settled_settle.mp hset with hold | heq
    · exact hheld.isOpen hold
    · exact hne heq
  · obtain ⟨xt, hxt, -⟩ := h.armed w harmed
    rw [hw] at hxt
    exact absurd hxt (by simp)

/-- A wait that is registered stands, and the others stand as they did. -/
theorem standing_registered (h : Linked s) (hw : s.waits w = none)
    (hfree : s.pendingResolve.get wt.taskId = none) (hquiet : s.abortedAlready wt = none) :
    Linked ((s.numbered w wt).register w wt) ∧ Standing ((s.numbered w wt).register w wt) w wt ∧
      (∀ x xt, s.waits x = some xt → ((s.numbered w wt).register w wt).waits x = some xt) ∧
      ∀ x xt, Standing s x xt → Standing ((s.numbered w wt).register w wt) x xt := by
  have hself : ((s.numbered w wt).register w wt).waits w = some wt := by
    simp [register, numbered]
  have hkeep : ∀ {x xt}, s.waits x = some xt →
      ((s.numbered w wt).register w wt).waits x = some xt := by
    intro x xt hx
    show (s.numbered w wt).waits x = some xt
    rw [numbered_waits_ne (ne_of_known hw hx)]
    exact hx
  have hget : ∀ {k x}, s.pendingResolve.get k = some x →
      (s.pendingResolve.set wt.taskId w).get k = some x := by
    intro k x hk
    rw [OrderedMap.get_set_ne]
    · exact hk
    · rintro rfl
      rw [hfree] at hk
      exact absurd hk (by simp)
  have hnew : ¬ s.Settled w := by
    intro hset
    obtain ⟨xt, hxt⟩ := h.known w hset
    rw [hw] at hxt
    exact absurd hxt (by simp)
  have hheard : ∀ y sg, y ∈ s.listeners sg →
      y ∈ ((s.numbered w wt).register w wt).listeners sg := by
    intro y sg hy
    unfold register
    cases wt.signal with
    | none => exact hy
    | some sg' =>
        show y ∈ if sg = sg' then s.listeners sg ++ [w] else s.listeners sg
        split
        · exact List.mem_append_left _ hy
        · exact hy
  refine ⟨⟨?_, ?_, fun k x hx => ?_, fun x hx => ?_, fun x hx => ?_⟩,
    ⟨⟨hself, .inl ⟨hnew, OrderedMap.get_set_self _ _ _, ?_⟩⟩, fun _ sig hsig => ?_⟩,
    fun _ _ hx => hkeep hx,
    fun x xt hs => ⟨⟨hkeep hs.1.1, hs.1.2.imp (fun hheld => ?_) fun hgone => ?_⟩,
      fun hopen sig hsig => ?_⟩⟩
  · show s.pendingReject.set wt.taskId w = s.pendingResolve.set wt.taskId w
    rw [h.rejectSame]
  · show s.timers.set wt.taskId w = s.pendingResolve.set wt.taskId w
    rw [h.timersSame]
  · have hx' : (s.pendingResolve.set wt.taskId w).get k = some x := hx
    by_cases hk : k = wt.taskId
    · rw [hk, OrderedMap.get_set_self] at hx'
      obtain rfl := Option.some.inj hx'
      exact ⟨wt, hself, hk.symm⟩
    · rw [OrderedMap.get_set_ne _ _ hk] at hx'
      obtain ⟨xt, hxt, hkey⟩ := h.keyed k x hx'
      exact ⟨xt, hkeep hxt, hkey⟩
  · rcases List.mem_append.mp hx with hold | hlast
    · obtain ⟨xt, hxt, hxget⟩ := h.armed x hold
      exact ⟨xt, hkeep hxt, hget hxget⟩
    · obtain rfl := List.mem_singleton.mp hlast
      exact ⟨wt, hself, OrderedMap.get_set_self _ _ _⟩
  · obtain ⟨xt, hxt⟩ := h.known x hx
    exact ⟨xt, hkeep hxt⟩
  · show w ∈ s.armed ++ [w]
    simp
  · have hnot : s.aborted sig = none := by simpa [abortedAlready, hsig] using hquiet
    exact ⟨hnot, by simp [register, hsig]⟩
  · exact ⟨hheld.isOpen, hget hheld.entry, List.mem_append_left _ hheld.armed⟩
  · have hne : x ≠ w := ne_of_known hw hs.1.1
    refine ⟨hgone.settled, fun k hk => ?_, fun harmed => ?_⟩
    · have hk' : (s.pendingResolve.set wt.taskId w).get k = some x := hk
      by_cases hkt : k = wt.taskId
      · rw [hkt, OrderedMap.get_set_self] at hk'
        exact hne (Option.some.inj hk').symm
      · rw [OrderedMap.get_set_ne _ _ hkt] at hk'
        exact hgone.entry k hk'
    · rcases List.mem_append.mp harmed with hold | hlast
      · exact hgone.armed hold
      · exact hne (List.mem_singleton.mp hlast)
  · obtain ⟨hnot, hmem⟩ := hs.2 hopen sig hsig
    exact ⟨hnot, hheard x sig hmem⟩

/-- **A call of `wait`: the new wait stands, and the others as they did.** -/
theorem effect_wait (h : Linked s) (hw : s.waits w = none) (thrown : Queue → Option JsString) :
    Effect s (.wait w wt thrown) (s.wait w wt thrown) ∧ Standing (s.wait w wt thrown) w wt := by
  rcases s.wait_cases w wt thrown with ⟨err, hwait⟩ | ⟨hfree, hquiet, hwait⟩ <;> rw [hwait]
  · exact effect_refused h hw err _
  · obtain ⟨hlinked, hself, hwaits, hothers⟩ := standing_registered h hw hfree hquiet
    have hrej := rejects_ensureSubscribed hlinked thrown
    obtain ⟨new, hnew, hrejected⟩ := hrej.added
    refine ⟨⟨hrej.linked, fun x xt hx => ?_, fun sig reason hab => ?_, fun x xt _ hs => ?_,
      new, hnew, fun x r hx => ?_⟩, hself.advance hrej.advances (hrej.kept w wt hself.1)⟩
    · rw [hrej.advances.waits]
      exact hwaits x xt hx
    · rw [hrej.advances.aborted]
      exact hab
    · have hs' := hothers x xt hs
      exact hs'.advance hrej.advances (hrej.kept x xt hs'.1)
    · obtain ⟨err, herr⟩ := hrejected _ hx
      exact absurd herr (by simp)

/-- **What one event of the router does.** -/
theorem step_effect {e : RouterEvent} (h : Linked s) (hstep : s.step e = some s') :
    Effect s e s' := by
  cases e with
  | wait w wt thrown =>
      simp only [step] at hstep
      split at hstep
      · exact absurd hstep (by simp)
      · rename_i hnew
        obtain rfl := Option.some.inj hstep
        exact (effect_wait h (by simpa using hnew) thrown).1
  | completed taskId data =>
      obtain rfl := Option.some.inj hstep
      exact effect_completed h taskId data
  | failed taskId data =>
      obtain rfl := Option.some.inj hstep
      exact effect_failed h taskId data
  | timer x =>
      simp only [step] at hstep
      split at hstep
      · rename_i hx
        obtain rfl := Option.some.inj hstep
        exact effect_timer h hx
      · exact absurd hstep (by simp)
  | abort sig reason =>
      simp only [step] at hstep
      split at hstep
      · exact absurd hstep (by simp)
      · rename_i hfresh
        obtain rfl := Option.some.inj hstep
        exact effect_abort h (by simpa using hfresh) reason
  | subscribeRejected q message =>
      simp only [step] at hstep
      split at hstep
      · obtain rfl := Option.some.inj hstep
        have hfirst := rejects_subscribing h (s.subscribing.erase q)
        exact (hfirst.trans (rejects_subscribeFailed hfirst.linked q message)).effect _
      · exact absurd hstep (by simp)

theorem linked_run {es : List RouterEvent} (hrun : Steps.run step init es = some s) : Linked s :=
  Steps.invariant (P := Linked) (fun _ _ _ h hstep => (step_effect h hstep).linked) linked_init hrun

end Kaiban.Router
