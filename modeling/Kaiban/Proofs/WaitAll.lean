/-
What `waitAll` promises its caller.

Each wait of the call stands: it is held, with its entry, its timer and its listener, or it
has settled.  So the call can never be left with nothing to wait for: a timer of its own is
there for each wait that has not settled, and once all have, their continuations and then
the call itself run.  What they collect is one entry for each position, and of the
positions with one id all but one were refused when they began.

A wait of the call stands as long as nothing clears its entry without settling it.  Two
events can: an abort whose signal still has the listener of an earlier wait for the task,
and a dead-letter record whose error has no text.
-/
import Kaiban.WaitAll
import Kaiban.Proofs.Standing

open JsString

namespace Kaiban

variable {c : WaitAllCall} {ps : List Position}

/-! ### Promises -/

namespace Router

variable {s s' : Router} {w : ℕ}

/-- A promise keeps what it settled with. -/
theorem promise_append {new : List (ℕ × Settlement)} (h : s'.settlements = s.settlements ++ new)
    {r : Settlement} (hr : s.promise w = some r) : s'.promise w = some r := by
  unfold promise at hr ⊢
  obtain ⟨e, he, rfl⟩ := Option.map_eq_some_iff.mp hr
  rw [h, List.find?_append, he]
  rfl

theorem mem_of_promise {r : Settlement} (h : s.promise w = some r) : (w, r) ∈ s.settlements := by
  obtain ⟨e, he, rfl⟩ := Option.map_eq_some_iff.mp h
  have hw : e.1 = w := by simpa using List.find?_some he
  rw [← hw]
  exact List.mem_of_find?_eq_some he

theorem exists_promise : s.Settled w ↔ ∃ r, s.promise w = some r := by
  constructor
  · intro h
    obtain ⟨e, he, hw⟩ := List.mem_map.mp h
    cases hfind : s.settlements.find? fun e => e.1 = w with
    | none => exact absurd hw (by simpa using List.find?_eq_none.mp hfind e he)
    | some x => exact ⟨x.2, by rw [promise, hfind]; rfl⟩
  · rintro ⟨r, hr⟩
    exact List.mem_map.mpr ⟨(w, r), mem_of_promise hr, rfl⟩

end Router

/-! ### The beginning of the call -/

open Router in
/-- The waits of the call, registered one after the other. -/
theorem start_spec {ps : List Position} :
    ∀ {s base : Router}, Linked s → Steps.run Router.step s (WaitAll.waits c ps) = some base →
      Linked base ∧ (∀ w wt, Standing s w wt → Standing base w wt) ∧
      (∀ w wt, s.waits w = some wt → base.waits w = some wt) ∧
      (∀ p ∈ ps, s.waits p.wait = none ∧ Standing base p.wait (c.waitOf p)) ∧
      (ps.map Position.wait).Nodup ∧
      ∃ new, base.settlements = s.settlements ++ new ∧ ∀ x r, (x, .resolved r) ∉ new := by
  induction ps with
  | nil =>
      intro s base h hrun
      obtain rfl : s = base := by simpa [WaitAll.waits] using hrun
      exact ⟨h, fun _ _ hs => hs, fun _ _ hw => hw, by simp, by simp, [], by simp, by simp⟩
  | cons p rest ih =>
      intro s base h hrun
      obtain ⟨m, hm, hrest⟩ := Steps.run_cons_some.mp hrun
      have heff := step_effect h hm
      have hnew : s.waits p.wait = none ∧ m = s.wait p.wait (c.waitOf p) p.thrown := by
        simp only [Router.step] at hm
        split at hm
        · exact absurd hm (by simp)
        · rename_i hnone
          exact ⟨by simpa using hnone, (Option.some.inj hm).symm⟩
      have hself : Standing m p.wait (c.waitOf p) := by
        rw [hnew.2]
        exact (effect_wait h hnew.1 p.thrown).2
      obtain ⟨hlinked, hstand, hwaits, hall, hnodup, new, hsettle, hres⟩ := ih heff.linked hrest
      obtain ⟨first, hfirst, hfres⟩ := heff.added
      refine ⟨hlinked, fun w wt hs => hstand w wt (heff.standing w wt trivial hs),
        fun w wt hw => hwaits w wt (heff.waits w wt hw), fun q hq => ?_, ?_, first ++ new, ?_, ?_⟩
      · rcases List.mem_cons.mp hq with rfl | hq
        · exact ⟨hnew.1, hstand _ _ hself⟩
        · obtain ⟨hq1, hq2⟩ := hall q hq
          refine ⟨?_, hq2⟩
          cases hs : s.waits q.wait with
          | none => rfl
          | some xt =>
              rw [heff.waits _ _ hs] at hq1
              exact absurd hq1 (by simp)
      · rw [List.map_cons, List.nodup_cons]
        refine ⟨fun hmem => ?_, hnodup⟩
        obtain ⟨q, hq, heq⟩ := List.mem_map.mp hmem
        have hknown := (hall q hq).1
        rw [heq, hself.1.1] at hknown
        exact absurd hknown (by simp)
      · rw [hsettle, hfirst, List.append_assoc]
      · intro x r hx
        rcases List.mem_append.mp hx with hx | hx
        · obtain ⟨taskId, data, hevent, -⟩ := hfres x r hx
          exact absurd hevent (by simp)
        · exact hres x r hx

namespace WaitAll

variable {s s' : WaitAll} {base : Router}

/-! ### Steps of the call -/

/-- What a step of the call is, and what it leaves. -/
inductive Advance (c : WaitAllCall) (s : WaitAll) : WaitAllEvent → WaitAll → Prop
  | router (e : RouterEvent) (router : Router) (h : s.router.step e = some router) :
      Advance c s (.router e) { s with router := router }
  | collects (p : Position) (r : Settlement) (hp : p ∈ s.waiting)
      (hr : s.router.promise p.wait = some r) :
      Advance c s (.collects p.wait) { s with
        waiting := s.waiting.filter fun q => q.wait ≠ p.wait
        results := s.results ++ [.ofSettlement p.taskId r] }
  | returns (hw : s.waiting = []) (ho : s.outcome = none) :
      Advance c s .returns { s with outcome := some (s.finalOutcome c) }

theorem advance {e : WaitAllEvent} (h : s.step c e = some s') : Advance c s e s' := by
  cases e with
  | router e =>
      obtain ⟨router, hrouter, rfl⟩ := Option.map_eq_some_iff.mp h
      exact .router e router hrouter
  | collects w =>
      simp only [step] at h
      split at h
      · rename_i p r hp hr
        obtain rfl := Option.some.inj h
        obtain rfl : p.wait = w := by simpa using List.find?_some hp
        exact .collects p r (List.mem_of_find?_eq_some hp) hr
      · exact absurd h (by simp)
  | returns =>
      simp only [step] at h
      split at h
      · rename_i hready
        obtain rfl := Option.some.inj h
        exact .returns (by simpa using hready.1) (by simpa using hready.2)
      · exact absurd h (by simp)

/-- No event clears the entry of a wait of the call without settling it. -/
def Clean (ps : List Position) (s : WaitAll) : WaitAllEvent → Prop
  | .router e => ∀ p ∈ ps, Router.CleanFor p.wait s.router e
  | _ => True

/-! ### The invariant -/

/-- The entry of a position whose promise has settled. -/
def entryFor (s : Router) (p : Position) : WaitEntry :=
  match s.promise p.wait with
  | some r => .ofSettlement p.taskId r
  | none => ⟨p.taskId, none, none⟩

theorem entryFor_taskId (s : Router) (p : Position) : (entryFor s p).taskId = p.taskId := by
  unfold entryFor
  split
  · rename_i r hr
    cases r <;> rfl
  · rfl

/-- What the call has got to; `base` is the router when all its waits had been made. -/
structure Under (c : WaitAllCall) (ps : List Position) (base : Router) (s : WaitAll) : Prop where
  linked : s.router.Linked
  standing : ∀ p ∈ ps, s.router.Standing p.wait (c.waitOf p)
  promised : ∀ w r, base.promise w = some r → s.router.promise w = some r
  collected : ∃ done, (done ++ s.waiting).Perm ps ∧ s.results = done.map (entryFor s.router) ∧
    ∀ p ∈ done, s.router.Settled p.wait
  ended : ∀ o, s.outcome = some o → s.waiting = []
  resolved : ∀ rs, s.outcome = some (.resolved rs) → rs = s.results
  rejected : ∀ err, s.outcome = some (.rejected err) → ∃ sig reason, c.signal = some sig ∧
    s.router.aborted sig = some reason ∧ err = abortError reason c.label

/-- Taking one position out of a list. -/
theorem perm_filter {l : List Position} {p : Position} (hp : p ∈ l)
    (hnodup : (l.map Position.wait).Nodup) :
    (p :: l.filter fun q => q.wait ≠ p.wait).Perm l := by
  induction l with
  | nil => exact absurd hp (by simp)
  | cons x rest ih =>
      rw [List.map_cons, List.nodup_cons] at hnodup
      rcases List.mem_cons.mp hp with rfl | hp
      · have hrest : rest.filter (fun q => q.wait ≠ p.wait) = rest := by
          refine List.filter_eq_self.mpr fun q hq => ?_
          have hne : q.wait ≠ p.wait := fun heq => hnodup.1 (heq ▸ List.mem_map_of_mem hq)
          simpa using hne
        rw [List.filter_cons_of_neg (by simp), hrest]
      · have hne : x.wait ≠ p.wait := fun heq => hnodup.1 (heq ▸ List.mem_map_of_mem hp)
        rw [List.filter_cons_of_pos (by simpa using hne)]
        exact (List.Perm.swap x p _).trans ((ih hp hnodup.2).cons x)

theorem under_step (hnodup : (ps.map Position.wait).Nodup) {e : WaitAllEvent}
    (hs : Under c ps base s) (hclean : Clean ps s e) (h : s.step c e = some s') :
    Under c ps base s' := by
  obtain ⟨done, hperm, hresults, hsettled⟩ := hs.collected
  cases advance h with
  | router e router hrouter =>
      have heff := Router.step_effect hs.linked hrouter
      obtain ⟨new, hnew, -⟩ := heff.added
      have hkeep : ∀ w r, s.router.promise w = some r → router.promise w = some r :=
        fun w r hr => Router.promise_append hnew hr
      refine ⟨heff.linked, fun p hp => heff.standing _ _ (hclean p hp) (hs.standing p hp),
        fun w r hr => hkeep w r (hs.promised w r hr), ⟨done, hperm, ?_, fun p hp => ?_⟩,
        hs.ended, hs.resolved, fun err herr => ?_⟩
      · show s.results = done.map (entryFor router)
        rw [hresults]
        refine List.map_congr_left fun p hp => ?_
        obtain ⟨r, hr⟩ := Router.exists_promise.mp (hsettled p hp)
        unfold entryFor
        rw [hr, hkeep _ _ hr]
      · obtain ⟨r, hr⟩ := Router.exists_promise.mp (hsettled p hp)
        exact Router.exists_promise.mpr ⟨r, hkeep _ _ hr⟩
      · obtain ⟨sig, reason, hsig, hab, hmsg⟩ := hs.rejected err herr
        exact ⟨sig, reason, hsig, heff.aborted sig reason hab, hmsg⟩
  | collects p r hp hr =>
      have hopen : ∀ o, s.outcome ≠ some o := by
        intro o ho
        rw [hs.ended o ho] at hp
        exact absurd hp (by simp)
      have hwaits : ((done ++ s.waiting).map Position.wait).Nodup :=
        (hperm.map Position.wait).nodup_iff.mpr hnodup
      rw [List.map_append] at hwaits
      refine ⟨hs.linked, hs.standing, hs.promised, ⟨done ++ [p], ?_, ?_, fun q hq => ?_⟩,
        fun o ho => absurd ho (hopen o), fun rs ho => absurd ho (hopen _),
        fun err ho => absurd ho (hopen _)⟩
      · show (done ++ [p] ++ s.waiting.filter fun q => q.wait ≠ p.wait).Perm ps
        rw [List.append_assoc]
        exact ((perm_filter hp hwaits.of_append_right).append_left done).trans hperm
      · show s.results ++ [WaitEntry.ofSettlement p.taskId r]
          = (done ++ [p]).map (entryFor s.router)
        rw [hresults, List.map_append]
        simp [entryFor, hr]
      · rcases List.mem_append.mp hq with hq | hq
        · exact hsettled q hq
        · rw [List.mem_singleton.mp hq]
          exact Router.exists_promise.mpr ⟨r, hr⟩
  | returns hw ho =>
      refine ⟨hs.linked, hs.standing, hs.promised, ⟨done, hperm, hresults, hsettled⟩,
        fun _ _ => hw, fun rs hrs => ?_, fun err herr => ?_⟩
      · have hfinal : s.finalOutcome c = .resolved rs := Option.some.inj hrs
        unfold finalOutcome at hfinal
        split at hfinal
        · exact absurd hfinal (by simp)
        · exact (WaitAllOutcome.resolved.inj hfinal).symm
      · have hfinal : s.finalOutcome c = .rejected err := Option.some.inj herr
        unfold finalOutcome at hfinal
        split at hfinal
        · rename_i reason hreason
          obtain ⟨sig, hsig, hab⟩ := Option.bind_eq_some_iff.mp hreason
          exact ⟨sig, reason, hsig, hab, (WaitAllOutcome.rejected.inj hfinal).symm⟩
        · exact absurd hfinal (by simp)

/-- What has been resolved during a run was delivered during it, for the task of the
wait. -/
theorem delivered_run {es : List WaitAllEvent} :
    ∀ {s t : WaitAll}, s.router.Linked → Steps.run (step c) s es = some t →
      ∃ new, t.router.settlements = s.router.settlements ++ new ∧
        (∀ w wt, s.router.waits w = some wt → t.router.waits w = some wt) ∧
        ∀ x r, (x, .resolved r) ∈ new → ∃ xt data, t.router.waits x = some xt ∧
          .router (.completed xt.taskId data) ∈ es ∧ r = completionText data := by
  induction es with
  | nil =>
      intro s t _ hrun
      obtain rfl : s = t := by simpa using hrun
      exact ⟨[], by simp, fun _ _ hw => hw, by simp⟩
  | cons e rest ih =>
      intro s t hl hrun
      obtain ⟨m, hm, hrest⟩ := Steps.run_cons_some.mp hrun
      have hfirst : m.router.Linked ∧ (∀ w wt, s.router.waits w = some wt →
          m.router.waits w = some wt) ∧ ∃ first,
          m.router.settlements = s.router.settlements ++ first ∧
          ∀ x r, (x, .resolved r) ∈ first → ∃ xt data, s.router.waits x = some xt ∧
            e = .router (.completed xt.taskId data) ∧ r = completionText data := by
        cases advance hm with
        | router e router hrouter =>
            have heff := Router.step_effect hl hrouter
            obtain ⟨first, hfirst, hres⟩ := heff.added
            refine ⟨heff.linked, heff.waits, first, hfirst, fun x r hx => ?_⟩
            obtain ⟨taskId, data, rfl, hget, hr⟩ := hres x r hx
            obtain ⟨xt, hxt, rfl⟩ := hl.keyed taskId x hget
            exact ⟨xt, data, hxt, rfl, hr⟩
        | collects p r hp hr => exact ⟨hl, fun _ _ hw => hw, [], by simp, by simp⟩
        | returns hw ho => exact ⟨hl, fun _ _ hw => hw, [], by simp, by simp⟩
      obtain ⟨hlm, hwaits, first, hfirst, hres⟩ := hfirst
      obtain ⟨new, hnew, hwaits', hres'⟩ := ih hlm hrest
      refine ⟨first ++ new, ?_, fun w wt hw => hwaits' w wt (hwaits w wt hw), fun x r hx => ?_⟩
      · rw [hnew, hfirst, List.append_assoc]
      · rcases List.mem_append.mp hx with hx | hx
        · obtain ⟨xt, data, hxt, rfl, hr⟩ := hres x r hx
          exact ⟨xt, data, hwaits' x xt (hwaits x xt hxt), List.mem_cons_self .., hr⟩
        · obtain ⟨xt, data, hxt, hmem, hr⟩ := hres' x r hx
          exact ⟨xt, data, hxt, List.mem_cons_of_mem _ hmem, hr⟩

/-! ### What the call resolves with -/

/-- The results account for every position: an entry for each, with a result that was
delivered for its task or with an error, and no two results for one task. -/
structure Accounted (ps : List Position) (es : List WaitAllEvent) (rs : List WaitEntry) :
    Prop where
  everyTask : (rs.map WaitEntry.taskId).Perm (ps.map Position.taskId)
  oneOf : ∀ e ∈ rs, e.result.isSome = !e.error.isSome
  delivered : ∀ e ∈ rs, ∀ r, e.result = some r → ∃ data,
    .router (.completed e.taskId data) ∈ es ∧ r = completionText data
  once : ∀ k, (rs.filter fun e => e.taskId = k ∧ e.result.isSome).length ≤ 1

theorem length_le_one {α : Type} {l : List α} (hnodup : l.Nodup)
    (hsame : ∀ x ∈ l, ∀ y ∈ l, x = y) : l.length ≤ 1 := by
  match l with
  | [] => simp
  | [x] => simp
  | x :: y :: rest =>
      rw [List.nodup_cons] at hnodup
      exact absurd (hsame x (by simp) y (by simp) ▸ List.mem_cons_self ..) hnodup.1

theorem result_entryFor {s : Router} {p : Position} {r : JsString}
    (h : (entryFor s p).result = some r) : s.promise p.wait = some (.resolved r) := by
  unfold entryFor at h
  split at h
  · rename_i set hset
    cases set with
    | resolved x => rw [hset, ← Option.some.inj h]
    | rejected err => exact absurd h (by simp [WaitEntry.ofSettlement])
  · exact absurd h (by simp)

theorem accounted {es : List WaitAllEvent} {t : WaitAll} {rs : List WaitEntry}
    {new : List (ℕ × Settlement)} (hnodup : (ps.map Position.wait).Nodup)
    (hstart : ∀ p ∈ ps, base.Standing p.wait (c.waitOf p))
    (hbase : ∀ p ∈ ps, ∀ r, (p.wait, .resolved r) ∉ base.settlements)
    (hnew : t.router.settlements = base.settlements ++ new)
    (hdelivered : ∀ x r, (x, .resolved r) ∈ new → ∃ xt data, t.router.waits x = some xt ∧
      .router (.completed xt.taskId data) ∈ es ∧ r = completionText data)
    (ht : Under c ps base t) (hrs : t.outcome = some (.resolved rs)) : Accounted ps es rs := by
  obtain ⟨done, hperm, hresults, hsettled⟩ := ht.collected
  rw [ht.ended _ hrs, List.append_nil] at hperm
  rw [ht.resolved rs hrs, hresults]
  have hmem : ∀ e ∈ done.map (entryFor t.router), ∃ p ∈ ps, e = entryFor t.router p ∧
      t.router.Settled p.wait := by
    intro e he
    obtain ⟨p, hp, rfl⟩ := List.mem_map.mp he
    exact ⟨p, hperm.mem_iff.mp hp, rfl, hsettled p hp⟩
  -- a promise with a result was open when the call began to wait, so it owned its entry
  have hopen : ∀ p ∈ ps, ∀ r, (entryFor t.router p).result = some r →
      base.pendingResolve.get p.taskId = some p.wait := by
    intro p hp r hr
    obtain ⟨⟨-, hheld | hgone⟩, -⟩ := hstart p hp
    · exact hheld.entry
    · obtain ⟨r', hr'⟩ := Router.exists_promise.mp hgone.settled
      have hsame := (ht.promised _ _ hr').symm.trans (result_entryFor hr)
      rw [Option.some.inj hsame] at hr'
      exact absurd (Router.mem_of_promise hr') (hbase p hp r)
  refine ⟨?_, fun e he => ?_, fun e he r hr => ?_, fun k => ?_⟩
  · have hids : WaitEntry.taskId ∘ entryFor t.router = Position.taskId :=
      funext (entryFor_taskId t.router)
    rw [List.map_map, hids]
    exact hperm.map Position.taskId
  · obtain ⟨p, -, rfl, hset⟩ := hmem e he
    obtain ⟨r, hr⟩ := Router.exists_promise.mp hset
    unfold entryFor
    rw [hr]
    cases r <;> rfl
  · obtain ⟨p, hp, rfl, -⟩ := hmem e he
    have hin := Router.mem_of_promise (result_entryFor hr)
    rw [hnew] at hin
    rcases List.mem_append.mp hin with hin | hin
    · exact absurd hin (hbase p hp r)
    · obtain ⟨xt, data, hxt, hevent, hdata⟩ := hdelivered _ _ hin
      obtain rfl : c.waitOf p = xt := Option.some.inj ((ht.standing p hp).1.1.symm.trans hxt)
      rw [entryFor_taskId]
      exact ⟨data, hevent, hdata⟩
  · rw [List.filter_map, List.length_map]
    have hdone : done.Nodup := (hperm.nodup_iff).mpr (List.Nodup.of_map _ hnodup)
    refine length_le_one (hdone.filter _) fun p hp q hq => ?_
    obtain ⟨hp, hpk, hpr⟩ := by simpa [entryFor_taskId] using List.mem_filter.mp hp
    obtain ⟨hq, hqk, hqr⟩ := by simpa [entryFor_taskId] using List.mem_filter.mp hq
    obtain ⟨r, hr⟩ := Option.isSome_iff_exists.mp hpr
    obtain ⟨r', hr'⟩ := Option.isSome_iff_exists.mp hqr
    have hp' := hperm.mem_iff.mp hp
    have hq' := hperm.mem_iff.mp hq
    have hone := hopen p hp' r hr
    have htwo := hopen q hq' r' hr'
    rw [hpk] at hone
    rw [hqk] at htwo
    exact List.inj_on_of_nodup_map hnodup hp' hq' (Option.some.inj (hone.symm.trans htwo))

/-! ### The call has an end -/

/-- The events the call itself brings about: a timer of one of its waits, a continuation,
its return. -/
inductive Own (ps : List Position) : WaitAllEvent → Prop
  | timer (p : Position) (hp : p ∈ ps) : Own ps (.router (.timer p.wait))
  | collects (p : Position) (hp : p ∈ ps) : Own ps (.collects p.wait)
  | returns : Own ps .returns

theorem run_one {e : WaitAllEvent} {rest : List WaitAllEvent} {u : WaitAll}
    (h : s.step c e = some s') (hrest : Steps.run (step c) s' rest = some u) :
    Steps.run (step c) s (e :: rest) = some u := Steps.run_cons_some.mpr ⟨s', h, hrest⟩

/-- The timers of the call settle whichever of its waits are held. -/
theorem timers_settle (hnodup : (ps.map Position.wait).Nodup) (qs : List Position)
    (hqs : ∀ q ∈ qs, q ∈ ps) :
    ∀ {s : WaitAll}, Under c ps base s → ∃ rest u, (∀ e ∈ rest, Own ps e) ∧
      Steps.run (step c) s rest = some u ∧ Under c ps base u ∧ u.outcome = s.outcome ∧
      ∀ q ∈ qs, u.router.Settled q.wait := by
  induction qs with
  | nil => intro s hs; exact ⟨[], s, by simp, rfl, hs, rfl, by simp⟩
  | cons q rest ih =>
      intro s hs
      have hq : q ∈ ps := hqs q (List.mem_cons_self ..)
      obtain ⟨m, hm, hall⟩ : ∃ m, (∃ first, (∀ e ∈ first, Own ps e) ∧
          ∀ fs u, Steps.run (step c) m fs = some u →
            Steps.run (step c) s (first ++ fs) = some u) ∧
          Under c ps base m ∧ m.outcome = s.outcome ∧ m.router.Settled q.wait := by
        by_cases hset : s.router.Settled q.wait
        · exact ⟨s, ⟨[], by simp, fun fs u h => h⟩, hs, rfl, hset⟩
        · have harmed : q.wait ∈ s.router.armed := by
            obtain ⟨⟨-, hheld | hgone⟩, -⟩ := hs.standing q hq
            · exact hheld.armed
            · exact absurd hgone.settled hset
          obtain ⟨xt, -, -, hfinish⟩ := Router.timer_finish hs.linked harmed
          have hstep : s.step c (.router (.timer q.wait)) = some { s with
              router := s.router.finish xt.taskId q.wait (.rejected xt.timeoutError) } := by
            simp only [step, Router.step]
            rw [if_pos harmed, hfinish]
            rfl
          have hclean : Clean ps s (.router (.timer q.wait)) := fun _ _ => trivial
          refine ⟨_, ⟨[.router (.timer q.wait)], ?_, fun fs u h => run_one hstep h⟩,
            under_step hnodup hs hclean hstep, rfl,
            Router.settled_finish.mpr (.inr rfl)⟩
          intro e he
          rw [List.mem_singleton.mp he]
          exact .timer q hq
      obtain ⟨first, hown, hrun⟩ := hm
      obtain ⟨hunder, hout, hsettled⟩ := hall
      obtain ⟨rest', u, hown', hrun', hunder', hout', hsettled'⟩ :=
        ih (fun x hx => hqs x (List.mem_cons_of_mem _ hx)) hunder
      refine ⟨first ++ rest', u, fun e he => ?_, hrun _ _ hrun', hunder', hout'.trans hout,
        fun x hx => ?_⟩
      · rcases List.mem_append.mp he with he | he
        · exact hown e he
        · exact hown' e he
      · rcases List.mem_cons.mp hx with rfl | hx
        · obtain ⟨new, hnew, -⟩ := delivered_run hunder.linked hrun'
          obtain ⟨r, hr⟩ := Router.exists_promise.mp hsettled
          exact Router.exists_promise.mpr ⟨r, Router.promise_append hnew hr⟩
        · exact hsettled' x hx

/-- Once all waits have settled the call collects them and returns, on its own. -/
theorem collects_return {n : ℕ} :
    ∀ {s : WaitAll}, s.waiting.length ≤ n → (∀ p ∈ s.waiting, p ∈ ps) →
      (∀ p ∈ s.waiting, s.router.Settled p.wait) → s.outcome = none →
      ∃ rest u, (∀ e ∈ rest, Own ps e ∧ ∀ r, e ≠ .router r) ∧
        Steps.run (step c) s rest = some u ∧ u.router = s.router ∧
        ∃ rs, u.outcome = some (finalOutcome c { s with results := rs }) := by
  induction n with
  | zero =>
      intro s hlen _ _ hout
      have hnil : s.waiting = [] := List.length_eq_zero_iff.mp (Nat.le_zero.mp hlen)
      refine ⟨[.returns], { s with outcome := some (s.finalOutcome c) }, ?_, ?_, rfl,
        s.results, rfl⟩
      · intro e he
        rw [List.mem_singleton.mp he]
        exact ⟨.returns, fun r => by simp⟩
      · simp [Steps.run, step, hnil, hout]
  | succ n ih =>
      intro s hlen hps hset hout
      cases hw : s.waiting with
      | nil => exact ih (by rw [hw]; exact Nat.zero_le n) hps hset hout
      | cons p rest =>
          have hp : p ∈ s.waiting := hw ▸ List.mem_cons_self ..
          obtain ⟨r, hr⟩ := Router.exists_promise.mp (hset p hp)
          have hfind : s.waiting.find? (fun q => q.wait = p.wait) = some p := by
            rw [hw]
            simp
          have hstep : s.step c (.collects p.wait) = some { s with
              waiting := s.waiting.filter fun q => q.wait ≠ p.wait
              results := s.results ++ [.ofSettlement p.taskId r] } := by
            simp only [step]
            rw [hfind, hr]
          have hshort : (s.waiting.filter fun q => q.wait ≠ p.wait).length ≤ n := by
            rw [hw, List.filter_cons_of_neg (by simp)]
            have hle := List.length_filter_le (fun q : Position => decide (q.wait ≠ p.wait)) rest
            rw [hw, List.length_cons] at hlen
            omega
          obtain ⟨more, u, hown, hrun, hrouter, rs, hend⟩ :=
            ih (s := { s with
              waiting := s.waiting.filter fun q => q.wait ≠ p.wait
              results := s.results ++ [.ofSettlement p.taskId r] }) hshort
              (fun q hq => hps q (List.mem_of_mem_filter hq))
              (fun q hq => hset q (List.mem_of_mem_filter hq)) hout
          refine ⟨.collects p.wait :: more, u, fun e he => ?_, run_one hstep hrun, hrouter, rs,
            hend⟩
          rcases List.mem_cons.mp he with rfl | he
          · exact ⟨.collects p (hps p hp), fun r => by simp⟩
          · exact hown e he

/-! ### The guarantee -/

/-- The signal has aborted before the call has returned; it can only be rejected then. -/
structure Stopped (c : WaitAllCall) (reason : AbortReason) (s : WaitAll) : Prop where
  linked : s.router.Linked
  aborted : c.signal.bind s.router.aborted = some reason
  outcome : s.outcome = none ∨ s.outcome = some (.rejected (abortError reason c.label))

theorem stopped_step {reason : AbortReason} {e : WaitAllEvent} (hs : Stopped c reason s)
    (h : s.step c e = some s') : Stopped c reason s' := by
  cases advance h with
  | router e router hrouter =>
      have heff := Router.step_effect hs.linked hrouter
      refine ⟨heff.linked, ?_, hs.outcome⟩
      obtain ⟨sig, hsig, hab⟩ := Option.bind_eq_some_iff.mp hs.aborted
      exact Option.bind_eq_some_iff.mpr ⟨sig, hsig, heff.aborted sig reason hab⟩
  | collects p r hp hr => exact ⟨hs.linked, hs.aborted, hs.outcome⟩
  | returns hw ho =>
      refine ⟨hs.linked, hs.aborted, .inr ?_⟩
      show some (s.finalOutcome c) = _
      unfold finalOutcome
      rw [hs.aborted]

/-- What a caller of `waitAll` may rely on, `es` being what happened since the call and `t`
what it has come to. -/
structure Complete (c : WaitAllCall) (ps : List Position) (es : List WaitAllEvent) (t : WaitAll) :
    Prop where
  /-- It resolves with every task accounted for. -/
  accounted : ∀ rs, t.outcome = some (.resolved rs) → Accounted ps es rs
  /-- It rejects only with the error of its signal. -/
  rejected : ∀ err, t.outcome = some (.rejected err) → ∃ sig reason, c.signal = some sig ∧
    t.router.aborted sig = some reason ∧ err = abortError reason c.label
  /-- A signal that has aborted before the return lets it only reject, and at once. -/
  stopped : ∀ sig reason, c.signal = some sig → t.router.aborted sig = some reason →
    t.outcome = none →
    (∀ later u, Steps.run (step c) t later = some u →
      u.outcome = none ∨ u.outcome = some (.rejected (abortError reason c.label))) ∧
    ∃ rest u, (∀ e ∈ rest, Own ps e ∧ ∀ r, e ≠ .router r) ∧
      Steps.run (step c) t rest = some u ∧
      u.outcome = some (.rejected (abortError reason c.label))
  /-- It has an end that its own timers lead to. -/
  ends : t.outcome = none → ∃ rest u, (∀ e ∈ rest, Own ps e) ∧
    Steps.run (step c) t rest = some u ∧ u.outcome ≠ none
  /-- When it has ended nothing of it is left in the router. -/
  clean : t.outcome ≠ none → ∀ p ∈ ps, p.wait ∉ t.router.armed ∧
    ∀ k, t.router.pendingResolve.get k ≠ some p.wait ∧
      t.router.pendingReject.get k ≠ some p.wait ∧ t.router.timers.get k ≠ some p.wait

/-- **`waitAll` accounts for every task**, in every run in which whatever clears an entry of
one of its waits settles that wait. -/
theorem waitAll_complete {past : List RouterEvent} {r : Router} {es : List WaitAllEvent}
    {s t : WaitAll} (hpast : Steps.run Router.step Router.init past = some r)
    (hstart : start c ps r = some s) (hclean : Steps.Along (step c) (Clean ps) s es)
    (hrun : Steps.run (step c) s es = some t) : Complete c ps es t := by
  obtain ⟨base, hbase, rfl⟩ := Option.map_eq_some_iff.mp hstart
  have hr := Router.linked_run hpast
  obtain ⟨hlinked, -, -, hall, hnodup, first, hfirst, hres⟩ := start_spec hr hbase
  have hunder : Under c ps base ⟨base, ps, [], none⟩ :=
    ⟨hlinked, fun p hp => (hall p hp).2, fun _ _ h => h, ⟨[], by simp, by simp, by simp⟩,
      fun _ h => absurd h (by simp), fun _ h => absurd h (by simp), fun _ h => absurd h (by simp)⟩
  have hfresh : ∀ p ∈ ps, ∀ x, (p.wait, .resolved x) ∉ base.settlements := by
    intro p hp x hx
    rw [hfirst] at hx
    rcases List.mem_append.mp hx with hx | hx
    · obtain ⟨xt, hxt⟩ := hr.known p.wait (List.mem_map.mpr ⟨_, hx, rfl⟩)
      rw [(hall p hp).1] at hxt
      exact absurd hxt (by simp)
    · exact hres _ _ hx
  have ht : Under c ps base t :=
    Steps.run_invariant (C := Clean ps) (P := Under c ps base)
      (fun _ _ _ hs hc h => under_step hnodup hs hc h) hunder hclean hrun
  obtain ⟨new, hnew, -, hdelivered⟩ := delivered_run hlinked hrun
  have hwaiting : ∀ p ∈ t.waiting, p ∈ ps := by
    obtain ⟨done, hperm, -, -⟩ := ht.collected
    exact fun p hp => hperm.mem_iff.mp (List.mem_append_right _ hp)
  refine ⟨fun rs hrs => accounted hnodup (fun p hp => (hall p hp).2) hfresh hnew hdelivered ht hrs,
    ht.rejected, fun sig reason hsig hab hnone => ⟨fun later u hlater => ?_, ?_⟩, fun hnone => ?_,
    fun hsome p hp => ?_⟩
  · have hstopped : Stopped c reason t :=
      ⟨ht.linked, Option.bind_eq_some_iff.mpr ⟨sig, hsig, hab⟩, .inl hnone⟩
    exact (Steps.invariant (P := Stopped c reason) (fun _ _ _ => stopped_step) hstopped
      hlater).outcome
  · -- no wait that hears an aborted signal is held
    have hsettled : ∀ p ∈ t.waiting, t.router.Settled p.wait := by
      intro p hp
      by_contra hopen
      obtain ⟨hquiet, -⟩ := (ht.standing p (hwaiting p hp)).2 hopen sig hsig
      rw [hab] at hquiet
      exact absurd hquiet (by simp)
    obtain ⟨rest, u, hown, hrest, -, rs, hend⟩ :=
      collects_return (c := c) le_rfl hwaiting hsettled hnone
    refine ⟨rest, u, hown, hrest, ?_⟩
    rw [hend]
    unfold finalOutcome
    rw [show c.signal.bind t.router.aborted = some reason from
      Option.bind_eq_some_iff.mpr ⟨sig, hsig, hab⟩]
  · obtain ⟨rest, u, hown, hrest, hunder', hout, hsettled⟩ :=
      timers_settle hnodup ps (fun _ hq => hq) ht
    have hwaiting' : ∀ p ∈ u.waiting, p ∈ ps := by
      obtain ⟨done, hperm, -, -⟩ := hunder'.collected
      exact fun p hp => hperm.mem_iff.mp (List.mem_append_right _ hp)
    obtain ⟨more, v, hown', hmore, -, rs, hend⟩ := collects_return (c := c) le_rfl hwaiting'
      (fun p hp => hsettled p (hwaiting' p hp)) (hout.trans hnone)
    refine ⟨rest ++ more, v, fun e he => ?_, Steps.run_append_some.mpr ⟨u, hrest, hmore⟩, ?_⟩
    · rcases List.mem_append.mp he with he | he
      · exact hown e he
      · exact (hown' e he).1
    · rw [hend]
      simp
  · obtain ⟨done, hperm, -, hsettled⟩ := ht.collected
    obtain ⟨o, ho⟩ := Option.ne_none_iff_exists'.mp hsome
    rw [ht.ended o ho, List.append_nil] at hperm
    have hset : t.router.Settled p.wait := hsettled p (hperm.mem_iff.mpr hp)
    obtain ⟨⟨-, hheld | hgone⟩, -⟩ := ht.standing p hp
    · exact absurd hset hheld.isOpen
    · refine ⟨hgone.armed, fun k => ⟨hgone.entry k, ?_, ?_⟩⟩
      · rw [ht.linked.rejectSame]
        exact hgone.entry k
      · rw [ht.linked.timersSame]
        exact hgone.entry k

/-- A search that may be stopped. -/
def searchCall : WaitAllCall := ⟨js "5", js "search", some 0⟩

/-- The search for some positions, begun on a new router. -/
def searchStart (ps : List Position) : WaitAll :=
  (start searchCall ps Router.init).getD ⟨Router.init, [], [], none⟩

def searchAfter (ps : List Position) (es : List WaitAllEvent) : WaitAll :=
  (Steps.run (step searchCall) (searchStart ps) es).getD (searchStart ps)

def twoTasks : List Position :=
  [⟨js "task-1", 0, fun _ => none⟩, ⟨js "task-2", 1, fun _ => none⟩]

/-- The first answers, the second times out. -/
def answeredOnce : List WaitAllEvent :=
  [.router (.completed (js "task-1") [(js "result", .str (js "found"))]), .collects 0,
    .router (.timer 1), .collects 1, .returns]

theorem waitAll_complete_answered :
    ∃ rs, (searchAfter twoTasks answeredOnce).outcome = some (.resolved rs) ∧
      Accounted twoTasks answeredOnce rs := by
  have hrun : Steps.run (step searchCall) (searchStart twoTasks) answeredOnce
      = some (searchAfter twoTasks answeredOnce) := rfl
  have hclean : Steps.Along (step searchCall) (Clean twoTasks) (searchStart twoTasks)
      answeredOnce :=
    ⟨fun _ _ => trivial, fun _ _ => ⟨trivial, fun _ _ => ⟨fun _ _ => trivial, fun _ _ =>
      ⟨trivial, fun _ _ => ⟨trivial, fun _ _ => trivial⟩⟩⟩⟩⟩
  have hpast : Steps.run Router.step Router.init [] = some Router.init := rfl
  have hstart : start searchCall twoTasks Router.init = some (searchStart twoTasks) := rfl
  have hcomplete := waitAll_complete hpast hstart hclean hrun
  exact ⟨_, rfl, hcomplete.accounted _ rfl⟩

/-- One id twice, and the first call of `subscribe` throws. -/
def oneTaskTwice : List Position :=
  [⟨js "task-1", 0, fun q => if q = .completed then some (js "no connection") else none⟩,
    ⟨js "task-1", 1, fun _ => none⟩]

/-- The signal aborts, and what there is to collect is collected. -/
def stoppedSearch : List WaitAllEvent :=
  [.router (.abort 0 (.emergencyStop (js "stop"))), .collects 0]

/-- **The first wait is refused and the second is registered, and when the signal aborts
the call neither rejects nor has anything left to wait for.** -/
theorem repeated_task_hangs :
    start searchCall oneTaskTwice Router.init = some (searchStart oneTaskTwice) ∧
      Steps.run (step searchCall) (searchStart oneTaskTwice) stoppedSearch
        = some (searchAfter oneTaskTwice stoppedSearch) ∧
      (searchAfter oneTaskTwice stoppedSearch).outcome = none ∧
      (∀ e, Own oneTaskTwice e →
        (searchAfter oneTaskTwice stoppedSearch).step searchCall e = none) ∧
      ¬ Complete searchCall oneTaskTwice stoppedSearch
        (searchAfter oneTaskTwice stoppedSearch) := by
  have hstuck : ∀ e, Own oneTaskTwice e →
      (searchAfter oneTaskTwice stoppedSearch).step searchCall e = none := by
    intro e he
    cases he with
    | timer p hp =>
        simp only [oneTaskTwice, List.mem_cons, List.not_mem_nil, or_false] at hp
        rcases hp with rfl | rfl <;> rfl
    | collects p hp =>
        simp only [oneTaskTwice, List.mem_cons, List.not_mem_nil, or_false] at hp
        rcases hp with rfl | rfl <;> rfl
    | returns => rfl
  refine ⟨rfl, rfl, rfl, hstuck, fun h => ?_⟩
  obtain ⟨rest, u, hown, hrun, hout⟩ := h.ends rfl
  cases rest with
  | nil =>
      obtain rfl := Option.some.inj hrun
      exact hout rfl
  | cons e rest =>
      obtain ⟨m, hm, -⟩ := Steps.run_cons_some.mp hrun
      rw [hstuck e (hown e (List.mem_cons_self ..))] at hm
      exact absurd hm (by simp)

end WaitAll

end Kaiban
